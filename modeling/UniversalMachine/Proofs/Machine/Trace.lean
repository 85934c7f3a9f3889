import UniversalMachine.Proofs.Machine.Reply

universe u v

namespace UniversalMachine.Machine

variable {σ : Type u} [Sink σ] [Host]

def results : Nat → Machine σ → List (Except Fault Flow)
  | 0, _ => []
  | n + 1, m => m.step.1 :: results n m.step.2

def observed {α : Type} (f : Machine σ → Option α) (n : Nat) (m : Machine σ) : List α :=
  (List.range n).filterMap fun j => f (m.after j)

def outcome (steps : Nat) : List (Except Fault Flow) → Option (Except Fault Nat)
  | [] => none
  | .ok (.next _) :: results => outcome (steps + 1) results
  | .ok .halt :: _ => some (.ok (steps + 1))
  | .error fault :: _ => some (.error fault)

theorem after_add (i j : Nat) (m : Machine σ) : m.after (i + j) = (m.after i).after j := by
  induction i generalizing m with
  | zero => rw [Nat.zero_add, after]
  | succ i ih => rw [Nat.succ_add, after, after, ih]

theorem after_succ (n : Nat) (m : Machine σ) : m.after (n + 1) = (m.after n).step.2 :=
  after_add n 1 m

theorem results_add (i j : Nat) (m : Machine σ) :
    m.results (i + j) = m.results i ++ (m.after i).results j := by
  induction i generalizing m with
  | zero => rw [Nat.zero_add, results, after, List.nil_append]
  | succ i ih => rw [Nat.succ_add, results, results, after, ih, List.cons_append]

theorem observed_succ {α : Type} (f : Machine σ → Option α) (n : Nat) (m : Machine σ) :
    m.observed f (n + 1) = m.observed f n ++ (f (m.after n)).toList := by
  rw [observed, List.range_succ, List.filterMap_append, observed]
  cases h : f (m.after n) <;> simp [h]

theorem mem_observed_iff {α : Type} {f : Machine σ → Option α} {n : Nat} {m : Machine σ} {a : α} :
    a ∈ m.observed f n ↔ ∃ j < n, f (m.after j) = some a := by
  simp [observed, List.mem_filterMap]

theorem mem_results_iff {m : Machine σ} {n : Nat} {r : Except Fault Flow} :
    r ∈ m.results n ↔ ∃ j < n, (m.after j).step.1 = r := by
  induction n generalizing m with
  | zero => simp [results]
  | succ n ih =>
    rw [results, List.mem_cons, ih, Nat.exists_lt_succ_left, eq_comm]
    rfl

namespace Takes

variable {m m' : Machine σ}

theorem steps_of_ok {flow : Flow} (h : m.Takes (.ok flow) m') : m'.steps = m.steps + 1 := by
  cases h <;> rfl

theorem stopped_of_halt (h : m.Takes (.ok .halt) m') : m'.status ≠ .running := by
  cases h
  exact nofun

theorem stopped_of_error {fault : Fault} (h : m.Takes (.error fault) m') :
    m'.status ≠ .running := by
  cases h with
  | stopped hstatus => exact hstatus
  | unread | fail => exact nofun

end Takes

section Stopped

variable {m : Machine σ}

theorem after_of_stopped (hstatus : m.status ≠ .running) (n : Nat) : m.after n = m := by
  induction n with
  | zero => rfl
  | succ n ih => rw [after, step_of_stopped hstatus, ih]

theorem stopped_after_of_error {j n : Nat} {fault : Fault} (hj : j < n)
    (hfault : (m.after j).step.1 = .error fault) : (m.after n).status ≠ .running := by
  have htakes := (m.after j).takes_step
  rw [hfault] at htakes
  obtain ⟨d, rfl⟩ := Nat.exists_eq_add_of_le hj
  rw [after_add, after_succ, after_of_stopped htakes.stopped_of_error]
  exact htakes.stopped_of_error

theorem mem_results_of_stopped (hstatus : m.status ≠ .running) {n : Nat} {r : Except Fault Flow}
    (hr : r ∈ m.results n) : r = .error (m.fault .notRunning) := by
  obtain ⟨j, -, rfl⟩ := mem_results_iff.mp hr
  rw [after_of_stopped hstatus, step_of_stopped hstatus]

end Stopped

theorem run_eq (fuel : Nat) (m : Machine σ) :
    m.run fuel = (outcome m.steps (m.results fuel)).map fun r => (r, m.after fuel) := by
  induction fuel generalizing m with
  | zero => rfl
  | succ fuel ih =>
    rw [run, results, after]
    cases hstep : m.step with
    | mk r m' =>
      have htakes := Takes.of_step hstep
      rcases r with fault | (finger | _)
      · rw [after_of_stopped htakes.stopped_of_error]
        rfl
      · rw [outcome, ← htakes.steps_of_ok]
        exact ih m'
      · rw [after_of_stopped htakes.stopped_of_halt, outcome, ← htakes.steps_of_ok]
        rfl

theorem run_congr {τ : Type v} [Sink τ] {fuel : Nat} {m : Machine σ} {m' : Machine τ}
    (hsteps : m'.steps = m.steps) (hresults : m'.results fuel = m.results fuel) :
    m'.run fuel = (m.run fuel).map fun r => (r.1, m'.after fuel) := by
  rw [run_eq, run_eq, hresults, hsteps, Option.map_map]
  rfl

theorem after_of_run {fuel : Nat} {m m' : Machine σ} {r : Except Fault Nat}
    (hrun : m.run fuel = some (r, m')) : m.after fuel = m' := by
  rw [run_eq, Option.map_eq_some_iff] at hrun
  obtain ⟨_, -, h⟩ := hrun
  exact congrArg Prod.snd h

theorem fault_of_run {fuel : Nat} {m m' : Machine σ} {r : Except Fault Nat} {fault : Fault}
    (hrun : m.run fuel = some (r, m')) (hfault : .error fault ∈ m.results fuel) :
    r = .error fault ∨ fault.cause = .notRunning := by
  induction fuel generalizing m with
  | zero => cases hfault
  | succ fuel ih =>
    rw [run] at hrun
    rw [results] at hfault
    cases hstep : m.step with
    | mk r' m₁ =>
      have htakes := Takes.of_step hstep
      rw [hstep] at hrun hfault
      cases hfault with
      | head =>
        cases hrun
        exact .inl rfl
      | tail _ hlater =>
        rcases r' with fault' | (finger | _)
        · cases mem_results_of_stopped htakes.stopped_of_error hlater
          exact .inr rfl
        · exact ih hrun hlater
        · cases mem_results_of_stopped htakes.stopped_of_halt hlater
          exact .inr rfl

theorem not_fault_of_run {fuel : Nat} {m m' : Machine σ} {r : Except Fault Nat}
    (hrun : m.run fuel = some (r, m')) {P : Cause → Prop} (hidle : ¬P .notRunning)
    (hr : ∀ fault, r = .error fault → ¬P fault.cause) :
    ∀ j < fuel, ¬∃ fault, (m.after j).step.1 = .error fault ∧ P fault.cause := by
  rintro j hj ⟨fault, hfault, hcause⟩
  rcases fault_of_run hrun (mem_results_iff.mpr ⟨j, hj, hfault⟩) with h | h
  · exact hr fault h hcause
  · exact hidle (h ▸ hcause)

end UniversalMachine.Machine
