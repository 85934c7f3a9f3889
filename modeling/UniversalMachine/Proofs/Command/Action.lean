import UniversalMachine.Command.Run
import UniversalMachine.Proofs.File.Tree

namespace UniversalMachine

def ExitCode.ofRun : Except Fault Nat → ExitCode
  | .ok _ => .success
  | .error _ => .faulted

def Session.Says (s s' : Session) : Prop := ∃ messages, s' = { s with messages }

namespace Session.Says

variable {s s' s'' : Session}

theorem refl (s : Session) : s.Says s := ⟨s.messages, rfl⟩

theorem trans (h : s.Says s') (h' : s'.Says s'') : s.Says s'' := by
  obtain ⟨messages, rfl⟩ := h
  obtain ⟨messages', rfl⟩ := h'
  exact ⟨messages', rfl⟩

theorem say (line : String) (s : Session) : s.Says (s.say line) := ⟨_, rfl⟩

theorem log (e : LogEntry) (s : Session) : s.Says (s.log e) := by
  rw [Session.log]
  split
  · exact .say e.render s
  · exact .refl s

theorem files (h : s.Says s') : s'.files = s.files := by
  obtain ⟨messages, rfl⟩ := h
  rfl

theorem input (h : s.Says s') : s'.input = s.input := by
  obtain ⟨messages, rfl⟩ := h
  rfl

theorem output (h : s.Says s') : s'.output = s.output := by
  obtain ⟨messages, rfl⟩ := h
  rfl

end Session.Says

namespace Action

section On

variable {α β : Type} {x : Action α} {f : α → Action β} {s s' : Session} {a : α} {e : Stop}

theorem on_bind_of_ok (h : x.on s = (.ok a, s')) : (x >>= f).on s = (f a).on s' := by
  change (ExceptT.bindCont f (x.on s).1 : StateM Session _) (x.on s).2 = _
  rw [h]
  rfl

theorem on_bind_of_error (h : x.on s = (.error e, s')) : (x >>= f).on s = (.error e, s') := by
  change (ExceptT.bindCont f (x.on s).1 : StateM Session _) (x.on s).2 = _
  rw [h]
  rfl

theorem on_say (line : String) (s : Session) : (say line).on s = (.ok (), s.say line) := rfl

theorem on_log (e : LogEntry) (s : Session) : (log e).on s = (.ok (), s.log e) := rfl

theorem on_modify (g : Session → Session) (s : Session) :
    (modify g : Action Unit).on s = (.ok (), g s) :=
  rfl

end On

/-- `x` finds what is in relation `P` to the files and the input, and if nothing is it ends the
command. It changes nothing but the messages. -/
structure Checks {α : Type} (x : Action α) (P : FileTree → Source → α → Prop) : Prop where
  granted : ∀ {s a}, P s.files s.input a → ∃ s', x.on s = (.ok a, s') ∧ s.Says s'
  refused : ∀ {s}, (∀ a, ¬P s.files s.input a) →
    ∃ s', x.on s = (.error (.exit .refused), s') ∧ s.Says s'

section Checks

variable {α β : Type} {x : Action α} {f : α → Action β} {P P' : FileTree → Source → α → Prop}
  {Q : α → FileTree → Source → β → Prop}

theorem Checks.congr (h : Checks x P) (hP : ∀ t input a, P' t input a ↔ P t input a) :
    Checks x P' where
  granted hgranted := h.granted ((hP _ _ _).mp hgranted)
  refused hrefused := h.refused fun a hP' => hrefused a ((hP _ _ _).mpr hP')

theorem checks_pure (a : α) : Checks (pure a) fun _ _ b => b = a where
  granted {s b} hb := by
    subst hb
    exact ⟨s, rfl, .refl s⟩
  refused hrefused := absurd rfl (hrefused a)

theorem Checks.bind (hx : Checks x P) (hf : ∀ a, Checks (f a) (Q a)) :
    Checks (x >>= f) fun t input b => ∃ a, P t input a ∧ Q a t input b where
  granted := by
    rintro s b ⟨a, hP, hQ⟩
    obtain ⟨s', hon, hspoke⟩ := hx.granted hP
    rw [← hspoke.files, ← hspoke.input] at hQ
    obtain ⟨s'', hon', hspoke'⟩ := (hf a).granted hQ
    exact ⟨s'', (on_bind_of_ok hon).trans hon', hspoke.trans hspoke'⟩
  refused := by
    intro s hrefused
    -- Either step may be the one that refuses; the second sees the files and the input of the first.
    by_cases hP : ∃ a, P s.files s.input a
    · obtain ⟨a, hP⟩ := hP
      obtain ⟨s', hon, hspoke⟩ := hx.granted hP
      have hnone : ∀ b, ¬Q a s'.files s'.input b := by
        intro b hQ
        rw [hspoke.files, hspoke.input] at hQ
        exact hrefused b ⟨a, hP, hQ⟩
      obtain ⟨s'', hon', hspoke'⟩ := (hf a).refused hnone
      exact ⟨s'', (on_bind_of_ok hon).trans hon', hspoke.trans hspoke'⟩
    · obtain ⟨s', hon, hspoke⟩ := hx.refused (not_exists.mp hP)
      exact ⟨s', on_bind_of_error hon, hspoke⟩

theorem Checks.after {x : Action Unit} {y : Action α} (hx : Checks x fun _ _ _ => True)
    (hy : Checks y P) : Checks (x >>= fun _ => y) P :=
  (hx.bind fun _ => hy).congr fun _ _ _ => ⟨fun h => ⟨(), trivial, h⟩, fun ⟨_, _, h⟩ => h⟩

theorem checks_say (line : String) : Checks (say line) fun _ _ _ => True where
  granted {s _} _ := ⟨s.say line, rfl, .say line s⟩
  refused hrefused := absurd trivial (hrefused ())

theorem checks_log (e : LogEntry) : Checks (log e) fun _ _ _ => True where
  granted {s _} _ := ⟨s.log e, rfl, .log e s⟩
  refused hrefused := absurd trivial (hrefused ())

theorem on_forM_say (lines : List String) (s : Session) :
    ∃ s', (lines.forM say).on s = (.ok (), s') ∧ s.Says s' := by
  induction lines generalizing s with
  | nil => exact ⟨s, rfl, .refl s⟩
  | cons line lines ih =>
    obtain ⟨s', hon, hspoke⟩ := ih (s.say line)
    exact ⟨s', (on_bind_of_ok (on_say line s)).trans hon, (Session.Says.say line s).trans hspoke⟩

theorem checks_refuse (lines : List String) :
    Checks (refuse lines : Action α) fun _ _ _ => False where
  granted h := h.elim
  refused {s} _ := by
    obtain ⟨s', hon, hspoke⟩ := on_forM_say lines s
    exact ⟨s', on_bind_of_ok hon, hspoke⟩

theorem checks_get {g : Session → Action α}
    (hg : ∀ s, Checks (g s) fun _ _ a => P s.files s.input a) : Checks (get >>= g) P where
  granted {s _} hP := (hg s).granted hP
  refused {s} hrefused := (hg s).refused hrefused

theorem checks_of_except {ε : Type} (r : Except ε α) (hok : ∀ a, r = .ok a → x = pure a)
    (herror : ∀ e, r = .error e → ∃ lines, x = refuse lines) : Checks x fun _ _ a => r = .ok a := by
  cases r with
  | ok a =>
    rw [hok a rfl]
    refine (checks_pure a).congr fun _ _ a' => ?_
    rw [Except.ok.injEq, eq_comm]
  | error e =>
    obtain ⟨lines, hx⟩ := herror e rfl
    rw [hx]
    exact (checks_refuse lines).congr fun _ _ _ => ⟨nofun, False.elim⟩

theorem checks_readFile (name : String) :
    Checks (readFile name) fun t _ bytes => t.read name = .ok bytes :=
  checks_get fun s =>
    checks_of_except (s.files.read name) (fun _ h => by rw [h]) fun _ h => ⟨_, by rw [h]⟩

theorem checks_mapM {γ ε : Type} {f : γ → Action α} {find : FileTree → γ → Except ε α}
    (hf : ∀ c, Checks (f c) fun t _ a => find t c = .ok a) (cs : List γ) :
    Checks (cs.mapM f) fun t _ as => cs.map (find t) = as.map .ok := by
  induction cs with
  | nil =>
    rw [List.mapM_nil]
    refine (checks_pure []).congr fun _ _ as => ?_
    rw [List.map_nil, eq_comm, List.map_eq_nil_iff]
  | cons c cs ih =>
    rw [List.mapM_cons]
    refine ((hf c).bind fun a => ih.bind fun as => checks_pure (a :: as)).congr fun t _ as => ?_
    rw [List.map_cons]
    constructor
    · intro h
      cases as with
      | nil => cases h
      | cons a as =>
        obtain ⟨ha, has⟩ := List.cons.inj h
        exact ⟨a, ha, as, has, rfl⟩
    · rintro ⟨a, ha, as, has, rfl⟩
      rw [List.map_cons, ha, has]

end Checks

section Write

variable {s : Session} {name : String}

theorem on_writeFile_eq (name : String) (bytes : List UInt8) (s : Session) :
    (writeFile name bytes).on s =
      match s.files.write name bytes with
      | .ok files => (.ok (), { s with files })
      | .error e => (refuse [cannotWrite name e.message]).on s := by
  change (match s.files.write name bytes with
    | .ok files => set { s with files }
    | .error e => refuse [cannotWrite name e.message] : Action Unit).on s = _
  cases s.files.write name bytes <;> rfl

theorem on_writeFile {path : Path} (h : s.files.place name = .ok path) (bytes : List UInt8) :
    (writeFile name bytes).on s = (.ok (), { s with files := s.files.insert path bytes }) := by
  rw [on_writeFile_eq, FileTree.write, h]
  rfl

theorem on_writeFile_of_unplaced (h : ∀ path, s.files.place name ≠ .ok path)
    (bytes : List UInt8) :
    ∃ s', (writeFile name bytes).on s = (.error (.exit .refused), s') ∧ s.Says s' := by
  rw [on_writeFile_eq, FileTree.write]
  cases hplace : s.files.place name with
  | ok path => exact absurd hplace (h path)
  | error e => exact (checks_refuse _).refused fun _ => id

end Write

section Run

theorem says_foldl_log (notices : List Notice) (s : Session) :
    s.Says (notices.foldl (fun s n => s.log n.entry) s) := by
  induction notices generalizing s with
  | nil => exact .refl s
  | cons n notices ih => exact (Session.Says.log n.entry s).trans (ih _)

variable {σ : Type} [Sink σ] [Host] {m m' : Machine σ} {r : Except Fault Nat} {fuel : Nat}

theorem says_of_runNoticed {s s' : Session}
    (h : m.runNoticed (fun s n => s.log n.entry) fuel s = some ((r, m'), s')) : s.Says s' := by
  induction fuel generalizing m s with
  | zero => cases h
  | succ fuel ih =>
    rw [Machine.runNoticed] at h
    rcases hstep : m.stepNoticed with ⟨⟨fault | (finger | _), m₁⟩, notices⟩
    · rw [hstep] at h
      cases h
      exact says_foldl_log notices s
    · rw [hstep] at h
      exact (says_foldl_log notices s).trans (ih h)
    · rw [hstep] at h
      cases h
      exact says_foldl_log notices s

theorem exists_on_runMachine_eq (fuel : Nat) (m : Machine σ) (s : Session) :
    ∃ started, s.Says started ∧ (runMachine fuel m).on s =
      match m.runNoticed (fun s n => s.log n.entry) fuel started with
      | some (result, s) => (.ok result, s)
      | none => (.error .unfinished, started) := by
  let started := s.log (Notice.started m.memory.program.size).entry
  refine ⟨started, .log _ s, (on_bind_of_ok (on_log _ s)).trans ?_⟩
  change (match m.runNoticed (fun s n => Session.log n.entry s) fuel started with
    | some (result, s) => do set s; return result
    | none => throw .unfinished : Action _).on started = _
  generalize m.runNoticed (fun s n => Session.log n.entry s) fuel started = noticed
  cases noticed <;> rfl

theorem on_runMachine (h : m.run fuel = some (r, m')) (s : Session) :
    ∃ s', (runMachine fuel m).on s = (.ok (r, m'), s') ∧ s.Says s' := by
  obtain ⟨started, hspoke, hon⟩ := exists_on_runMachine_eq fuel m s
  have hrun := m.map_fst_runNoticed (fun s n => Session.log n.entry s) fuel started
  rw [h] at hrun
  obtain ⟨⟨_, s'⟩, hnoticed, rfl⟩ := Option.map_eq_some_iff.mp hrun
  rw [hon, hnoticed]
  exact ⟨s', rfl, hspoke.trans (says_of_runNoticed hnoticed)⟩

theorem on_runMachine_of_unfinished (h : m.run fuel = none) (s : Session) :
    ∃ s', (runMachine fuel m).on s = (.error .unfinished, s') := by
  obtain ⟨started, -, hon⟩ := exists_on_runMachine_eq fuel m s
  have hrun := m.map_fst_runNoticed (fun s n => Session.log n.entry s) fuel started
  rw [h, Option.map_eq_none_iff] at hrun
  rw [hon, hrun]
  exact ⟨started, rfl⟩

end Run

section Outcome

variable {x y : Action Unit} {s s' : Session}

theorem outcome_congr (h : x.on s = y.on s') : x.outcome s = y.outcome s' := by
  rw [outcome, outcome, h]

theorem outcome_of_ok (h : x.on s = (.ok (), s')) : x.outcome s = some (.success, s') := by
  rw [outcome, h]

theorem outcome_of_exit {code : ExitCode} (h : x.on s = (.error (.exit code), s')) :
    x.outcome s = some (code, s') := by
  rw [outcome, h]

theorem outcome_of_unfinished (h : x.on s = (.error .unfinished, s')) : x.outcome s = none := by
  rw [outcome, h]

theorem outcome_refuse (lines : List String) (s : Session) :
    ∃ s', (refuse lines : Action Unit).outcome s = some (.refused, s') ∧ s.Says s' := by
  obtain ⟨s', hon, hspoke⟩ := (checks_refuse lines).refused (s := s) fun _ => id
  exact ⟨s', outcome_of_exit hon, hspoke⟩

theorem outcome_concludeRun_bind (halted : Nat → String) (r : Except Fault Nat)
    (hx : Checks x fun _ _ _ => True) (s : Session) :
    ∃ s', (concludeRun halted r >>= fun _ => x).outcome s = some (.ofRun r, s') ∧ s.Says s' := by
  cases r with
  | ok n =>
    obtain ⟨s', hon, hspoke⟩ := ((checks_log _).after hx).granted (s := s) trivial
    exact ⟨s', outcome_of_ok hon, hspoke⟩
  | error fault =>
    exact ⟨_, outcome_of_exit rfl, .say ("error: " ++ fault.category ++ ": " ++ fault.message) s⟩

theorem outcome_concludeRun (halted : Nat → String) (r : Except Fault Nat) (s : Session) :
    ∃ s', (concludeRun halted r).outcome s = some (.ofRun r, s') ∧ s.Says s' := by
  have hnothing : Checks (pure ()) fun _ _ _ => True :=
    (checks_pure ()).congr fun _ _ _ => iff_of_true trivial rfl
  rw [← bind_pure (concludeRun halted r)]
  exact outcome_concludeRun_bind halted r hnothing s

end Outcome

end Action

end UniversalMachine
