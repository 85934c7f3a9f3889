import UniversalMachine.Fifo
import UniversalMachine.Word
/-! The memory: segments of words, named by handles. Segment 0 is the program. A freed handle is
given out again before any new one, and the one freed first comes first. An operation that changes
the memory returns the new one beside its result; one that fails returns the memory as it was. -/

namespace UniversalMachine

abbrev Handle := Word

abbrev Segment := Array Word

inductive MemoryError
  | unallocated (h : Handle)
  | outOfBounds (h : Handle) (offset : Word) (size : Nat)
  | freeProgram
  | alreadyFree (h : Handle)
  | neverAllocated (h : Handle)
  | allocationFailed (capacity : Word)
  deriving DecidableEq, Repr

def MemoryError.message : MemoryError → String
  | unallocated h => "segment " ++ Nat.repr h.toNat ++ " is not allocated"
  | outOfBounds h offset size =>
    "offset " ++ Nat.repr offset.toNat ++ " out of bounds for segment " ++ Nat.repr h.toNat ++
      " (length " ++ Nat.repr size ++ ")"
  | freeProgram => "cannot free segment 0"
  | alreadyFree h => "segment " ++ Nat.repr h.toNat ++ " is already free"
  | neverAllocated h => "segment " ++ Nat.repr h.toNat ++ " was never allocated"
  | allocationFailed capacity =>
    "cannot allocate a segment of " ++ Nat.repr capacity.toNat ++ " words"

/-- What backs a memory: whether a segment of so many words can be made. -/
class Host where
  backs : Nat → Bool

/-- A host that makes segments of less than 2 GiB. -/
scoped instance Host.modest : Host := ⟨(· ≤ 0x1fffffff)⟩

structure Memory where
  /-- Slot `h` is segment `h`, or `none` while the handle is free. -/
  slots : Array (Option Segment)
  pool : Fifo Handle
  limit : Nat

namespace Memory

def noLimit : Nat := 0xffffffffffffffff

def ofProgram (program : List Word) : Memory := ⟨#[some program.toArray], .empty, noLimit⟩

def setLimit (m : Memory) (limit : Nat) : Memory := { m with limit }

def segment? (m : Memory) (h : Handle) : Option Segment := m.slots[h.toNat]?.join

def segment (m : Memory) (h : Handle) : Except MemoryError Segment :=
  match m.segment? h with
  | some s => .ok s
  | none => .error (.unallocated h)

def program (m : Memory) : Segment := (m.segment? 0).getD #[]

def read (m : Memory) (h : Handle) (offset : Word) : Except MemoryError Word :=
  match m.segment? h with
  | none => .error (.unallocated h)
  | some s =>
    match s[offset.toNat]? with
    | some w => .ok w
    | none => .error (.outOfBounds h offset s.size)

def write (m : Memory) (h : Handle) (offset w : Word) : Except MemoryError Unit × Memory :=
  match (m.segment? h).map Array.size with
  | none => (.error (.unallocated h), m)
  | some size =>
    if offset.toNat < size then
      (.ok (), { m with slots := m.slots.modify h.toNat (·.map (·.setIfInBounds offset.toNat w)) })
    else (.error (.outOfBounds h offset size), m)

def Admits [Host] (m : Memory) (capacity : Word) : Prop :=
  capacity.toNat ≤ m.limit ∧ Host.backs capacity.toNat

instance [Host] (m : Memory) (capacity : Word) : Decidable (m.Admits capacity) :=
  inferInstanceAs (Decidable (_ ∧ _))

/-- A new segment of zeros. A handle that was never used is one more than the last such one, as a
word. -/
def allocate [Host] (m : Memory) (capacity : Word) : Except MemoryError Handle × Memory :=
  if m.Admits capacity then
    let zeros := Array.replicate capacity.toNat 0
    match m.pool.pop? with
    | some (h, pool) => (.ok h, { m with slots := m.slots.setIfInBounds h.toNat (some zeros), pool })
    | none => (.ok (.ofNat m.slots.size), { m with slots := m.slots.push (some zeros) })
  else (.error (.allocationFailed capacity), m)

def free (m : Memory) (h : Handle) : Except MemoryError Unit × Memory :=
  if h = 0 then (.error .freeProgram, m)
  else
    match m.slots[h.toNat]?.map Option.isSome with
    | none => (.error (.neverAllocated h), m)
    | some false => (.error (.alreadyFree h), m)
    | some true =>
      (.ok (), { m with slots := m.slots.setIfInBounds h.toNat none, pool := m.pool.push h })

def replaceProgram (m : Memory) (h : Handle) : Except MemoryError Unit × Memory :=
  if h = 0 then (.ok (), m)
  else
    match m.segment? h with
    | none => (.error (.unallocated h), m)
    | some s => (.ok (), { m with slots := m.slots.setIfInBounds 0 (some s) })

def live (m : Memory) : Nat := m.slots.countP Option.isSome

@[simp] theorem segment?_setLimit (m : Memory) (limit : Nat) (h : Handle) :
    (m.setLimit limit).segment? h = m.segment? h := rfl

@[simp] theorem segment?_ofProgram (program : List Word) :
    (ofProgram program).segment? 0 = some program.toArray := rfl

theorem segment_eq_ok_iff {m : Memory} {h : Handle} {s : Segment} :
    m.segment h = .ok s ↔ m.segment? h = some s := by
  unfold segment
  cases m.segment? h <;> simp

theorem write_of_error {m : Memory} {h : Handle} {offset w : Word} {e : MemoryError}
    (he : (m.write h offset w).1 = .error e) : (m.write h offset w).2 = m := by
  unfold write at he ⊢
  grind

theorem allocate_of_error [Host] {m : Memory} {capacity : Word} {e : MemoryError}
    (he : (m.allocate capacity).1 = .error e) : (m.allocate capacity).2 = m := by
  unfold allocate at he ⊢
  grind

theorem free_of_error {m : Memory} {h : Handle} {e : MemoryError}
    (he : (m.free h).1 = .error e) : (m.free h).2 = m := by
  unfold free at he ⊢
  grind

theorem replaceProgram_of_error {m : Memory} {h : Handle} {e : MemoryError}
    (he : (m.replaceProgram h).1 = .error e) : (m.replaceProgram h).2 = m := by
  unfold replaceProgram at he ⊢
  grind

end Memory

end UniversalMachine
