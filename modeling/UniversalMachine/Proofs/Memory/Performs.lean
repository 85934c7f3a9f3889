import Mathlib.Algebra.Group.Nat.Defs
import UniversalMachine.Memory.Op
/-! What an operation on the memory can do: fail and change nothing, or succeed in one of the ways
that `Performs` lists. Everything about histories is derived from these. -/

namespace UniversalMachine.Memory

def zeros (capacity : Word) : Segment := Array.replicate capacity.toNat 0

def put (m : Memory) (h : Handle) (s : Option Segment) : Memory :=
  { m with slots := m.slots.setIfInBounds h.toNat s }

def grow (m : Memory) (s : Segment) : Memory := { m with slots := m.slots.push (some s) }

def setPool (m : Memory) (pool : Fifo Handle) : Memory := { m with pool }

/-- How many handles were ever minted: each has its slot, and slot 0 is the program's. -/
def minted (m : Memory) : Nat := m.slots.size - 1

theorem size_le_of_minted {m : Memory} (hm : m.minted < 2 ^ 32) : m.slots.size ≤ 2 ^ 32 := by
  simp only [minted] at hm
  omega

@[simp] theorem pool_put (m : Memory) (h : Handle) (s : Option Segment) :
    (m.put h s).pool = m.pool := rfl

@[simp] theorem pool_grow (m : Memory) (s : Segment) : (m.grow s).pool = m.pool := rfl

@[simp] theorem pool_setPool (m : Memory) (pool : Fifo Handle) : (m.setPool pool).pool = pool := rfl

@[simp] theorem slots_setPool (m : Memory) (pool : Fifo Handle) :
    (m.setPool pool).slots = m.slots := rfl

@[simp] theorem size_put (m : Memory) (h : Handle) (s : Option Segment) :
    (m.put h s).slots.size = m.slots.size := by simp [put]

@[simp] theorem size_grow (m : Memory) (s : Segment) :
    (m.grow s).slots.size = m.slots.size + 1 := by simp [grow]

theorem segment?_eq_some_iff {m : Memory} {h : Handle} {s : Segment} :
    m.segment? h = some s ↔ m.slots[h.toNat]? = some (some s) := by
  simp [segment?, Option.join_eq_some_iff]

theorem lt_size_of_segment? {m : Memory} {h : Handle} {s : Segment} (hs : m.segment? h = some s) :
    h.toNat < m.slots.size := by
  rw [segment?_eq_some_iff, Array.getElem?_eq_some_iff] at hs
  exact hs.1

theorem getElem?_put {m : Memory} {h : Handle} (hlt : h.toNat < m.slots.size) (s : Option Segment)
    (i : Nat) : (m.put h s).slots[i]? = if i = h.toNat then some s else m.slots[i]? := by
  simp only [put, Array.getElem?_setIfInBounds, hlt, if_true]
  grind

theorem getElem?_grow (m : Memory) (s : Segment) (i : Nat) :
    (m.grow s).slots[i]? = if i = m.slots.size then some (some s) else m.slots[i]? := by
  simp only [grow, Array.getElem?_push]

theorem segment?_put {m : Memory} {h : Handle} (hlt : h.toNat < m.slots.size) (s : Option Segment)
    (h' : Handle) : (m.put h s).segment? h' = if h' = h then s else m.segment? h' := by
  simp only [segment?, getElem?_put hlt, UInt32.toNat_inj]
  split <;> rfl

theorem segment?_grow (m : Memory) (s : Segment) (h : Handle) :
    (m.grow s).segment? h = if h.toNat = m.slots.size then some s else m.segment? h := by
  simp only [segment?, getElem?_grow]
  split <;> rfl

@[simp] theorem segment?_setPool (m : Memory) (pool : Fifo Handle) (h : Handle) :
    (m.setPool pool).segment? h = m.segment? h := rfl

theorem write_eq (m : Memory) (h : Handle) (offset w : Word) :
    m.write h offset w =
      match m.segment? h with
      | none => (.error (.unallocated h), m)
      | some s =>
        if offset.toNat < s.size then (.ok (), m.put h (some (s.setIfInBounds offset.toNat w)))
        else (.error (.outOfBounds h offset s.size), m) := by
  cases hs : m.segment? h with
  | none => simp [write, hs]
  | some s =>
    have hslot := segment?_eq_some_iff.mp hs
    have hput : m.slots.modify h.toNat (·.map (·.setIfInBounds offset.toNat w)) =
        m.slots.setIfInBounds h.toNat (some (s.setIfInBounds offset.toNat w)) := by
      apply Array.ext_getElem?
      intro i
      rw [Array.getElem?_modify, Array.getElem?_setIfInBounds]
      split
      · next hi =>
        subst hi
        rw [hslot, if_pos (lt_size_of_segment? hs)]
        rfl
      · rfl
    simp [write, hs, put, hput]

theorem free_eq (m : Memory) (h : Handle) :
    m.free h =
      if h = 0 then (.error .freeProgram, m)
      else
        match m.segment? h with
        | some _ => (.ok (), (m.put h none).setPool (m.pool.push h))
        | none =>
          if h.toNat < m.slots.size then (.error (.alreadyFree h), m)
          else (.error (.neverAllocated h), m) := by
  simp only [free, segment?, put, setPool]
  grind

theorem replaceProgram_eq (m : Memory) (h : Handle) :
    m.replaceProgram h =
      if h = 0 then (.ok (), m)
      else
        match m.segment? h with
        | none => (.error (.unallocated h), m)
        | some s => (.ok (), m.put 0 (some s)) := rfl

theorem error_of_map {α : Type} {f : α → Answer} {r : Except MemoryError α} {e : MemoryError}
    (h : r.map f = .error e) : r = .error e := by
  cases r with
  | error e' => cases h; rfl
  | ok a => cases h

/-- Every segment that the limit allows can be made. -/
def BackedUpTo [Host] (limit : Nat) : Prop :=
  ∀ capacity : Word, capacity.toNat ≤ limit → Host.backs capacity.toNat

open Host in
theorem backedUpTo_modest {limit : Nat} (hle : limit ≤ 0x1fffffff) : BackedUpTo limit :=
  fun _ hcapacity => decide_eq_true (Nat.le_trans hcapacity hle)

variable [Host]

theorem admits_iff {m : Memory} (hbacked : BackedUpTo m.limit) {capacity : Word} :
    m.Admits capacity ↔ capacity.toNat ≤ m.limit :=
  and_iff_left_of_imp (hbacked capacity)

theorem not_admits_iff {m : Memory} {capacity : Word} :
    ¬m.Admits capacity ↔ m.limit < capacity.toNat ∨ ¬Host.backs capacity.toNat := by
  rw [Admits, Decidable.not_and_iff_not_or_not, Nat.not_le]

theorem allocate_eq (m : Memory) (capacity : Word) :
    m.allocate capacity =
      if m.Admits capacity then
        match m.pool.pop? with
        | some (h, pool) => (.ok h, (m.put h (some (zeros capacity))).setPool pool)
        | none => (.ok (.ofNat m.slots.size), m.grow (zeros capacity))
      else (.error (.allocationFailed capacity), m) := rfl

/-- `Performs m op a m'`: the operation succeeds with the answer `a` and makes `m'` of `m`. -/
inductive Performs (m : Memory) : Op → Answer → Memory → Prop
  | reuse {capacity h pool} : m.Admits capacity → m.pool.pop? = some (h, pool) →
      Performs m (.allocate capacity) (.handle h) ((m.put h (some (zeros capacity))).setPool pool)
  | mint {capacity} : m.Admits capacity → m.pool.pop? = none →
      Performs m (.allocate capacity) (.handle (.ofNat m.slots.size)) (m.grow (zeros capacity))
  | free {h s} : h ≠ 0 → m.segment? h = some s →
      Performs m (.free h) .done ((m.put h none).setPool (m.pool.push h))
  | write {h offset w s} : m.segment? h = some s → offset.toNat < s.size →
      Performs m (.write h offset w) .done (m.put h (some (s.setIfInBounds offset.toNat w)))
  | copy {h s} : h ≠ 0 → m.segment? h = some s →
      Performs m (.replaceProgram h) .done (m.put 0 (some s))
  | keep : Performs m (.replaceProgram 0) .done m
  | setLimit (limit) : Performs m (.setLimit limit) .done (m.setLimit limit)
  | read {h offset w} : m.read h offset = .ok w → Performs m (.read h offset) (.word w) m
  | segment {h s} : m.segment h = .ok s → Performs m (.segment h) (.words s) m
  | program : Performs m .program (.words m.program) m

theorem perform_of_error {m m' : Memory} {op : Op} {e : MemoryError}
    (h : m.perform op = (.error e, m')) : m' = m := by
  have hresult := congrArg Prod.fst h
  have hmemory : (m.perform op).2 = m' := congrArg Prod.snd h
  rw [← hmemory]
  cases op with
  | allocate capacity => exact allocate_of_error (error_of_map hresult)
  | free h => exact free_of_error (error_of_map hresult)
  | write h offset w => exact write_of_error (error_of_map hresult)
  | replaceProgram h => exact replaceProgram_of_error (error_of_map hresult)
  | setLimit limit => cases hresult
  | read | segment | program => rfl

theorem performs_of_ok {m m' : Memory} {op : Op} {a : Answer}
    (h : m.perform op = (.ok a, m')) : m.Performs op a m' := by
  cases op with
  | allocate capacity =>
    simp only [perform, allocate_eq] at h
    split at h
    · next hadmits =>
      cases hp : m.pool.pop? with
      | none => simp only [hp] at h; cases h; exact .mint hadmits hp
      | some popped => simp only [hp] at h; cases h; exact .reuse hadmits hp
    · cases h
  | free h' =>
    simp only [perform, free_eq] at h
    split at h
    · cases h
    · next h0 =>
      cases hs : m.segment? h' with
      | none => grind [Except.map]
      | some s => simp only [hs] at h; cases h; exact .free h0 hs
  | write h' offset w =>
    simp only [perform, write_eq] at h
    cases hs : m.segment? h' with
    | none => simp only [hs] at h; cases h
    | some s =>
      simp only [hs] at h
      split at h
      · next hlt => cases h; exact .write hs hlt
      · cases h
  | replaceProgram h' =>
    simp only [perform, replaceProgram_eq] at h
    split at h
    · next h0 => subst h0; cases h; exact .keep
    · next h0 =>
      cases hs : m.segment? h' with
      | none => simp only [hs] at h; cases h
      | some s => simp only [hs] at h; cases h; exact .copy h0 hs
  | setLimit limit => cases h; exact .setLimit limit
  | program => cases h; exact .program
  | read h' offset =>
    cases hr : m.read h' offset with
    | error e => simp only [perform, hr] at h; cases h
    | ok w => simp only [perform, hr] at h; cases h; exact .read hr
  | segment h' =>
    cases hs : m.segment h' with
    | error e => simp only [perform, hs] at h; cases h
    | ok s => simp only [perform, hs] at h; cases h; exact .segment hs

theorem Performs.size_le {m m' : Memory} {op : Op} {a : Answer} (h : m.Performs op a m') :
    m.slots.size ≤ m'.slots.size := by
  cases h with
  | reuse | mint | free | write | copy => simp
  | keep | setLimit | read | segment | program => exact Nat.le_refl _

theorem size_le_perform (m : Memory) (op : Op) :
    m.slots.size ≤ (m.perform op).2.slots.size := by
  cases hp : m.perform op with
  | mk result m' =>
    cases result with
    | error e =>
      cases perform_of_error hp
      exact Nat.le_refl _
    | ok a => exact (performs_of_ok hp).size_le

theorem limit_perform (m : Memory) {op : Op} (hop : ∀ limit, op ≠ .setLimit limit) :
    (m.perform op).2.limit = m.limit := by
  cases hp : m.perform op with
  | mk result m' =>
    cases result with
    | error e => rw [perform_of_error hp]
    | ok a =>
      cases performs_of_ok hp with
      | setLimit limit => exact absurd rfl (hop limit)
      | _ => rfl

end UniversalMachine.Memory
