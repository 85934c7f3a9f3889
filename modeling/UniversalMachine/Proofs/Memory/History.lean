import UniversalMachine.Proofs.Memory.Performs

namespace UniversalMachine.Memory

structure Moment where
  before : Memory
  op : Op
  result : Except MemoryError Answer

namespace Moment

def handed? (r : Moment) : Option Handle :=
  match r.op, r.result with
  | .allocate _, .ok (.handle h) => some h
  | _, _ => none

def freed? (r : Moment) : Option Handle :=
  match r.op, r.result with
  | .free h, .ok _ => some h
  | _, _ => none

end Moment

def handed (past : List Moment) : List Handle := (past.filterMap Moment.handed?).reverse

def freed (past : List Moment) : List Handle := (past.filterMap Moment.freed?).reverse

@[simp] theorem handed_nil : handed [] = [] := rfl

@[simp] theorem freed_nil : freed [] = [] := rfl

@[simp] theorem handed_cons (r : Moment) (past : List Moment) :
    handed (r :: past) = handed past ++ r.handed?.toList := by
  cases hr : r.handed? <;> simp [handed, hr]

@[simp] theorem freed_cons (r : Moment) (past : List Moment) :
    freed (r :: past) = freed past ++ r.freed?.toList := by
  cases hr : r.freed? <;> simp [freed, hr]

@[simp] theorem handed?_error (m : Memory) (op : Op) (e : MemoryError) :
    (Moment.mk m op (.error e)).handed? = none := by cases op <;> rfl

@[simp] theorem freed?_error (m : Memory) (op : Op) (e : MemoryError) :
    (Moment.mk m op (.error e)).freed? = none := by cases op <;> rfl

variable [Host]

inductive History (program : List Word) : List Moment → Memory → Prop
  | start : History program [] (ofProgram program)
  | refuse {past m op} (e : MemoryError) : History program past m →
      History program (⟨m, op, .error e⟩ :: past) m
  | perform {past m op a m'} : History program past m → m.Performs op a m' →
      History program (⟨m, op, .ok a⟩ :: past) m'

def moments (m : Memory) : List Op → List Moment
  | [] => []
  | op :: ops => ⟨m, op, (m.perform op).1⟩ :: moments (m.perform op).2 ops

def after (program : List Word) (ops : List Op) : Memory := ((ofProgram program).performAll ops).2

def past (program : List Word) (ops : List Op) : List Moment :=
  (moments (ofProgram program) ops).reverse

theorem performAll_append (m : Memory) (ops more : List Op) :
    (m.performAll (ops ++ more)).2 = ((m.performAll ops).2.performAll more).2 := by
  induction ops generalizing m with
  | nil => rfl
  | cons op ops ih => simp [performAll, ih]

theorem History.extend {program : List Word} {past : List Moment} {m : Memory}
    (h : History program past m) (op : Op) :
    History program (⟨m, op, (m.perform op).1⟩ :: past) (m.perform op).2 := by
  cases hp : m.perform op with
  | mk result m' =>
    cases result with
    | error e => rw [perform_of_error hp]; exact .refuse e h
    | ok a => exact .perform h (performs_of_ok hp)

theorem History.append {program : List Word} {past : List Moment} {m : Memory}
    (h : History program past m) (ops : List Op) :
    History program ((moments m ops).reverse ++ past) (m.performAll ops).2 := by
  induction ops generalizing past m with
  | nil => exact h
  | cons op ops ih => simpa [moments, performAll] using ih (h.extend op)

theorem history (program : List Word) (ops : List Op) :
    History program (past program ops) (after program ops) := by
  simpa [past, after] using History.start.append ops

theorem size_le_performAll (m : Memory) (ops : List Op) :
    m.slots.size ≤ (m.performAll ops).2.slots.size := by
  induction ops generalizing m with
  | nil => exact Nat.le_refl _
  | cons op ops ih => exact Nat.le_trans (size_le_perform m op) (ih _)

theorem limit_performAll (m : Memory) {ops : List Op} (hops : ∀ limit, .setLimit limit ∉ ops) :
    (m.performAll ops).2.limit = m.limit := by
  induction ops generalizing m with
  | nil => rfl
  | cons op ops ih =>
    have hop : ∀ limit, op ≠ .setLimit limit := by
      rintro limit rfl
      exact hops limit List.mem_cons_self
    calc ((m.perform op).2.performAll ops).2.limit
      _ = (m.perform op).2.limit := ih _ fun limit h => hops limit (List.mem_cons_of_mem op h)
      _ = m.limit := limit_perform m hop

end UniversalMachine.Memory
