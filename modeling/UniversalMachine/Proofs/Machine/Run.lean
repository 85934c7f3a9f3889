import UniversalMachine.Proofs.Machine.Trace
import UniversalMachine.Stream.Script

universe u

namespace UniversalMachine.Machine

variable {σ : Type u} [Sink σ] {m m' : Machine σ} {r : Except Fault Nat} {finger : Word} {fuel : Nat}

section

variable [Host]

def GoesOn (m : Machine σ) (n : Nat) : Prop :=
  ∀ j < n, ∃ finger, (m.after j).step.1 = .ok (.next finger)

def RunsTo (m : Machine σ) (r : Except Fault Nat) (m' : Machine σ) : Prop :=
  ∃ fuel, m.run fuel = some (r, m')

inductive Ends (steps : Nat) : Except Fault Flow → Except Fault Nat → Prop
  | halt : Ends steps (.ok .halt) (.ok (steps + 1))
  | fail {fault} : Ends steps (.error fault) (.error fault)

theorem goesOn_succ_iff {n : Nat} :
    m.GoesOn (n + 1) ↔ (∃ finger, m.step.1 = .ok (.next finger)) ∧ m.step.2.GoesOn n :=
  Nat.forall_lt_succ_left

theorem steps_step_of_ok {flow : Flow} (h : m.step.1 = .ok flow) :
    m.step.2.steps = m.steps + 1 := by
  have htakes := m.takes_step
  rw [h] at htakes
  exact htakes.steps_of_ok

theorem steps_after_of_goesOn {n : Nat} (h : m.GoesOn n) : (m.after n).steps = m.steps + n := by
  induction n generalizing m with
  | zero => rfl
  | succ n ih =>
    obtain ⟨⟨finger, hnext⟩, hlater⟩ := goesOn_succ_iff.mp h
    rw [after, ih hlater, steps_step_of_ok hnext, Nat.add_assoc, Nat.add_comm 1 n]

theorem run_succ_of_next (h : m.step.1 = .ok (.next finger)) :
    m.run (fuel + 1) = m.step.2.run fuel := by
  rw [run]
  cases hstep : m.step with
  | mk result m₁ =>
    rw [hstep] at h
    cases h
    rfl

theorem run_succ_of_ends (h : Ends m.steps m.step.1 r) :
    m.run (fuel + 1) = some (r, m.step.2) := by
  rw [run]
  cases hstep : m.step with
  | mk result m₁ =>
    rw [hstep] at h
    cases h with
    | halt =>
      have hsteps := (Takes.of_step hstep).steps_of_ok
      simp only [hsteps]
    | fail => rfl

theorem next_or_ends (m : Machine σ) :
    (∃ finger, m.step.1 = .ok (.next finger)) ∨ ∃ r, Ends m.steps m.step.1 r := by
  rcases m.step.1 with fault | (finger | _)
  · exact .inr ⟨_, .fail⟩
  · exact .inl ⟨finger, rfl⟩
  · exact .inr ⟨_, .halt⟩

theorem runsTo_step_iff (h : m.step.1 = .ok (.next finger)) :
    m.step.2.RunsTo r m' ↔ m.RunsTo r m' := by
  constructor
  · rintro ⟨fuel, hrun⟩
    exact ⟨fuel + 1, (run_succ_of_next h).trans hrun⟩
  · rintro ⟨_ | fuel, hrun⟩
    · cases hrun
    · exact ⟨fuel, (run_succ_of_next h).symm.trans hrun⟩

theorem runsTo_after_iff {n : Nat} (h : m.GoesOn n) :
    (m.after n).RunsTo r m' ↔ m.RunsTo r m' := by
  induction n generalizing m with
  | zero => rfl
  | succ n ih =>
    obtain ⟨⟨finger, hnext⟩, hlater⟩ := goesOn_succ_iff.mp h
    rw [after, ih hlater, runsTo_step_iff hnext]

theorem exists_goesOn_of_run (hrun : m.run fuel = some (r, m')) :
    ∃ k, m.GoesOn k ∧ Ends (m.steps + k) (m.after k).step.1 r ∧ (m.after k).step.2 = m' := by
  induction fuel generalizing m with
  | zero => cases hrun
  | succ fuel ih =>
    rcases m.next_or_ends with ⟨finger, hnext⟩ | ⟨r', hends⟩
    · rw [run_succ_of_next hnext] at hrun
      obtain ⟨k, hgoes, hends, hlast⟩ := ih hrun
      rw [steps_step_of_ok hnext, Nat.add_assoc, Nat.add_comm 1 k] at hends
      exact ⟨k + 1, goesOn_succ_iff.mpr ⟨⟨finger, hnext⟩, hgoes⟩, hends, hlast⟩
    · rw [run_succ_of_ends hends] at hrun
      cases hrun
      exact ⟨0, nofun, hends, rfl⟩

theorem runsTo_iff :
    m.RunsTo r m' ↔
      ∃ k, m.GoesOn k ∧ Ends (m.steps + k) (m.after k).step.1 r ∧ (m.after k).step.2 = m' := by
  constructor
  · rintro ⟨fuel, hrun⟩
    exact exists_goesOn_of_run hrun
  · rintro ⟨k, hgoes, hends, rfl⟩
    rw [← steps_after_of_goesOn hgoes] at hends
    exact (runsTo_after_iff hgoes).mp ⟨1, run_succ_of_ends hends⟩

theorem RunsTo.unique {r' : Except Fault Nat} {m'' : Machine σ} (h : m.RunsTo r m')
    (h' : m.RunsTo r' m'') : r = r' ∧ m' = m'' := by
  obtain ⟨fuel, hrun⟩ := h
  obtain ⟨fuel', hrun'⟩ := h'
  have hmore := run_add hrun fuel'
  rw [Nat.add_comm, run_add hrun' fuel] at hmore
  cases hmore
  exact ⟨rfl, rfl⟩

/-- A run ends well, or with a fault, exactly when after some steps that go on there is one that
halts, or fails so; it leaves the machine that these steps leave. A run after single steps that go on
is the run without them. -/
theorem run_iff_steps (m : Machine σ) :
    (∀ n m', m.RunsTo (.ok n) m' ↔
      ∃ k, m.GoesOn k ∧ (m.after k).step.1 = .ok .halt ∧ n = m.steps + k + 1 ∧
        m' = m.after (k + 1)) ∧
    (∀ fault m', m.RunsTo (.error fault) m' ↔
      ∃ k, m.GoesOn k ∧ (m.after k).step.1 = .error fault ∧ m' = m.after (k + 1)) ∧
    ∀ j, m.GoesOn j → ∀ r m', (m.after j).RunsTo r m' ↔ m.RunsTo r m' := by
  refine ⟨fun n m' => ?_, fun fault m' => ?_, fun j hgoes r m' => runsTo_after_iff hgoes⟩
  · rw [runsTo_iff]
    constructor
    · rintro ⟨k, hgoes, hends, hlast⟩
      generalize hresult : (m.after k).step.1 = result at hends
      cases hends
      exact ⟨k, hgoes, hresult, rfl, by rw [after_succ, hlast]⟩
    · rintro ⟨k, hgoes, hhalt, rfl, rfl⟩
      exact ⟨k, hgoes, hhalt ▸ .halt, (after_succ k m).symm⟩
  · rw [runsTo_iff]
    constructor
    · rintro ⟨k, hgoes, hends, hlast⟩
      generalize hresult : (m.after k).step.1 = result at hends
      cases hends
      exact ⟨k, hgoes, hresult, by rw [after_succ, hlast]⟩
    · rintro ⟨k, hgoes, hfault, rfl⟩
      exact ⟨k, hgoes, hfault ▸ .fail, (after_succ k m).symm⟩

end

open Host

theorem run_iff_steps_of_jump :
    let m := load ⟨[0xd0000003, 0xc0000008, 0xffffffff, 0x70000000]⟩ [] ScriptedSink.plain
    let m' := load ⟨[0xd0000002, 0xc0000008, 0xffffffff, 0x70000000]⟩ [] ScriptedSink.plain
    m.GoesOn 2 ∧ m.RunsTo (.ok 3) (m.after 3) ∧ (m.after 2).RunsTo (.ok 3) (m.after 3) ∧
      m'.RunsTo (.error ⟨.unknownOpcode ⟨0xffffffff⟩, 2, Registers.zero.put 0 2⟩)
        (m'.after 3) := by
  intro m m'
  have hgoes : m.GoesOn 2 := by
    rintro (_ | _ | j) hj
    · exact ⟨1, by decide +kernel⟩
    · exact ⟨3, by decide +kernel⟩
    · omega
  have hgoes' : m'.GoesOn 2 := by
    rintro (_ | _ | j) hj
    · exact ⟨1, by decide +kernel⟩
    · exact ⟨2, by decide +kernel⟩
    · omega
  obtain ⟨hhalts, -, hresumes⟩ := run_iff_steps m
  have hrun : m.RunsTo (.ok 3) (m.after 3) :=
    (hhalts 3 _).mpr ⟨2, hgoes, by decide +kernel, rfl, rfl⟩
  exact ⟨hgoes, hrun, (hresumes 2 hgoes _ _).mpr hrun,
    ((run_iff_steps m').2.1 _ _).mpr ⟨2, hgoes', by decide +kernel, rfl⟩⟩

end UniversalMachine.Machine
