import Mathlib.Data.Nat.Init
import UniversalMachine.Machine.Fault
import UniversalMachine.Proofs.Standard.Store
/-! The standard machine, as it was published: fourteen operations on registers, a store, a finger,
the input still to be read and the output. Its words are numbers below `2 ^ 32`, and its fields are
found by division. -/

namespace UniversalMachine.Standard

structure State where
  registers : Register → Word
  store : Store
  finger : Word
  input : List UInt8
  output : List UInt8

inductive Configuration
  | running (s : State)
  | halted (s : State)
  /-- The input is forgotten. -/
  | failed (cause : Cause) (s : State)

def number (w : Word) : Nat := w.toNat / 2 ^ 28

def field (w : Word) (start : Nat) : Register :=
  ⟨w.toNat / 2 ^ start % 8, Nat.mod_lt _ (Nat.succ_pos 7)⟩

def immediate (w : Word) : Word := .ofNat (w.toNat % 2 ^ 25)

def sum (v w : Word) : Word := .ofNat ((v.toNat + w.toNat) % 2 ^ 32)

def product (v w : Word) : Word := .ofNat (v.toNat * w.toNat % 2 ^ 32)

def quotient (v w : Word) : Word := .ofNat (v.toNat / w.toNat)

def nand (v w : Word) : Word :=
  .ofNat (Nat.ofBits fun i : Fin 32 => !(v.toNat.testBit i && w.toNat.testBit i))

namespace State

def start (program : List Word) (input output : List UInt8) : State where
  registers _ := 0
  store := .start program
  finger := 0
  input := input
  output := output

def fail (s : State) (cause : Cause) : Configuration := .failed cause { s with input := [] }

def proceed (s : State) : Configuration := .running { s with finger := sum s.finger 1 }

def assign (s : State) (r : Register) (w : Word) : Configuration :=
  proceed { s with registers := Function.update s.registers r w }

def obey (limit : Nat) (s : State) (w : Word) : Configuration :=
  let a := field w 6
  let b := field w 3
  let c := field w 0
  let va := s.registers a
  let vb := s.registers b
  let vc := s.registers c
  match number w with
  | 0 => if vc ≠ 0 then s.assign a vb else s.proceed
  | 1 =>
    match s.store.read vb vc with
    | .ok v => s.assign a v
    | .error e => s.fail (.memory e)
  | 2 =>
    match s.store.write va vb vc with
    | .ok ((), store) => proceed { s with store }
    | .error e => s.fail (.memory e)
  | 3 => s.assign a (sum vb vc)
  | 4 => s.assign a (product vb vc)
  | 5 => if vc ≠ 0 then s.assign a (quotient vb vc) else s.fail .divisionByZero
  | 6 => s.assign a (nand vb vc)
  | 7 => .halted s
  | 8 =>
    match s.store.allocate limit vc with
    | .ok (h, store) => assign { s with store } b h
    | .error e => s.fail (.memory e)
  | 9 =>
    match s.store.free vc with
    | .ok ((), store) => proceed { s with store }
    | .error e => s.fail (.memory e)
  | 10 =>
    if vc.toNat ≤ 255 then proceed { s with output := s.output ++ [.ofNat vc.toNat] }
    else s.fail (.outputOutOfRange vc)
  | 11 =>
    match s.input with
    | byte :: input => assign { s with input } c (.ofNat byte.toNat)
    | [] => s.fail .endOfInput
  | 12 =>
    match s.store.load vb with
    | .ok ((), store) => .running { s with store, finger := vc }
    | .error e => s.fail (.memory e)
  | 13 => s.assign (field w 25) (immediate w)
  | _ => s.fail (.unknownOpcode ⟨w⟩)

def step (limit : Nat) (s : State) : Configuration :=
  match s.store.read 0 s.finger with
  | .ok w => s.obey limit w
  | .error e => s.fail (.memory e)

theorem obey_unknown (limit : Nat) (s : State) {w : Word} (hw : 14 ≤ number w) :
    s.obey limit w = s.fail (.unknownOpcode ⟨w⟩) := by
  simp only [obey]
  split
  case h_15 => rfl
  all_goals omega

end State

def Configuration.step (limit : Nat) : Configuration → Configuration
  | running s => s.step limit
  | c => c

section Words

theorem field_a (w : Word) : field w 6 = w.registerA := by
  apply Fin.ext
  simp [field, Word.registerA]

theorem field_b (w : Word) : field w 3 = w.registerB := by
  apply Fin.ext
  simp [field, Word.registerB]

theorem field_c (w : Word) : field w 0 = w.registerC := by
  apply Fin.ext
  simp [field, Word.registerC]

theorem field_target (w : Word) : field w 25 = w.target := by
  apply Fin.ext
  simp [field, Word.target]

theorem immediate_eq (w : Word) : immediate w = w.immediate := by
  apply UInt32.toNat_inj.mp
  simp only [immediate, Word.immediate, UInt32.toNat_ofNat', UInt32.toNat_mod]
  exact Nat.mod_eq_of_lt (Nat.lt_trans (Nat.mod_lt _ (by decide)) (by decide))

theorem sum_eq (v w : Word) : sum v w = v + w := by
  apply UInt32.toNat_inj.mp
  simp [sum]

theorem product_eq (v w : Word) : product v w = v * w := by
  apply UInt32.toNat_inj.mp
  simp [product]

theorem quotient_eq (v w : Word) : quotient v w = v / w := by
  apply UInt32.toNat_inj.mp
  rw [quotient, UInt32.toNat_div]
  exact UInt32.toNat_ofNat_of_lt' (Nat.lt_of_le_of_lt (Nat.div_le_self _ _) v.toNat_lt)

theorem nand_eq (v w : Word) : nand v w = ~~~(v &&& w) := by
  apply UInt32.toBitVec_inj.mp
  apply BitVec.eq_of_getLsbD_eq
  intro i hi
  rw [UInt32.toBitVec_not, UInt32.toBitVec_and, BitVec.getLsbD_not, BitVec.getLsbD_and, nand,
    UInt32.toBitVec_ofNat', BitVec.getLsbD_ofNat, Nat.testBit_ofBits_lt _ i hi]
  rfl

end Words

end UniversalMachine.Standard
