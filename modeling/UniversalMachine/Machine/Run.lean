import UniversalMachine.Machine.Step

universe u

namespace UniversalMachine.Machine

variable {σ : Type u} [Sink σ] [Host]

/-- The number of instructions executed, or the fault, with the machine at the end of the run; `none`
if the run takes more than `fuel` steps. -/
def run : Nat → Machine σ → Option (Except Fault Nat × Machine σ)
  | 0, _ => none
  | fuel + 1, m =>
    match m.step with
    | (.ok (.next _), m) => run fuel m
    | (.ok .halt, m) => some (.ok m.steps, m)
    | (.error fault, m) => some (.error fault, m)

def after : Nat → Machine σ → Machine σ
  | 0, m => m
  | n + 1, m => after n m.step.2

theorem run_add {fuel : Nat} {m : Machine σ} {r : Except Fault Nat × Machine σ}
    (h : m.run fuel = some r) (more : Nat) : m.run (fuel + more) = some r := by
  induction fuel generalizing m with
  | zero => simp [run] at h
  | succ fuel ih =>
    rw [Nat.add_right_comm]
    unfold run at h ⊢
    split <;> simp_all

end UniversalMachine.Machine
