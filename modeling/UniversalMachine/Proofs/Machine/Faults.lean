import UniversalMachine.Proofs.Instruction.Codec
import UniversalMachine.Proofs.Machine.Reply
import UniversalMachine.Proofs.Memory.Handles
import UniversalMachine.Proofs.Memory.Refuses
import UniversalMachine.Stream.Script

universe u

namespace UniversalMachine

theorem Cause.exists_of_category {cause : Cause} (h : cause.category = "DecodeError") :
    ∃ e, cause = .unknownOpcode e := by
  cases cause with
  | unknownOpcode e => exact ⟨e, rfl⟩
  | _ => simp [Cause.category] at h

namespace Machine

variable {σ : Type u} {m : Machine σ}

theorem fetch_of_unknownOpcode {w : Word} (hread : m.memory.read 0 m.finger = .ok w)
    (hcode : 14 ≤ w.code) : m.fetch = .error (.unknownOpcode ⟨w⟩) := by
  rw [fetch, hread]
  simp only [Instruction.decode_eq_error_iff.mpr ⟨hcode, rfl⟩]

variable [Sink σ]

section

variable [Host]

inductive Denies (m : Machine σ) : Instruction → Cause → Prop
  | memory {i op e} : i.operation? m.registers = some op → m.memory.Refuses op e →
      Denies m i (.memory e)
  | division {a b c} : m.registers.get c = 0 → Denies m (.division a b c) .divisionByZero
  | outputOutOfRange {c} : 255 < m.registers.get c →
      Denies m (.output c) (.outputOutOfRange (m.registers.get c))
  | output {c e} : m.registers.get c ≤ 255 →
      (Sink.emit m.sink (m.registers.get c).toUInt8).1 = .error e → Denies m (.output c) (.stream e)
  | halt {e} : (Sink.flush m.sink).1 = .error e → Denies m .halt (.stream e)
  | endOfInput {c} : m.source.readByte.1 = .endOfInput → Denies m (.input c) .endOfInput
  | input {c e} : m.source.readByte.1 = .failed e → Denies m (.input c) (.stream e)

inductive Fails (m : Machine σ) : Cause → Prop
  | unread {e} : m.memory.Refuses (.read 0 m.finger) e → Fails m (.memory e)
  | unknownOpcode {w} : m.memory.read 0 m.finger = .ok w → 14 ≤ w.code →
      Fails m (.unknownOpcode ⟨w⟩)
  | denied {i cause} : m.fetch = .ok i → m.Denies i cause → Fails m cause

variable {i : Instruction} {cause : Cause}

theorem denies_of_reply (hreply : m.reply i = .error cause) : m.Denies i cause := by
  cases hop : i.operation? m.registers with
  | some op =>
    rw [reply_of_operation hop] at hreply
    cases hresult : (m.memory.perform op).1 with
    | ok a => rw [hresult] at hreply; cases hreply
    | error e =>
      rw [hresult] at hreply
      cases hreply
      exact .memory hop (Memory.refuses_of_error hresult)
  | none =>
    cases i with
    | division a b c =>
      simp only [reply, Instruction.operation?] at hreply
      split at hreply
      · next h0 => cases hreply; exact .division h0
      · cases hreply
    | halt =>
      simp only [reply, Instruction.operation?] at hreply
      cases hflush : (Sink.flush m.sink).1 with
      | ok u => rw [hflush] at hreply; cases hreply
      | error e => rw [hflush] at hreply; cases hreply; exact .halt hflush
    | output c =>
      simp only [reply, Instruction.operation?] at hreply
      split at hreply
      · next hgt => cases hreply; exact .outputOutOfRange hgt
      · next hle =>
        cases hemit : (Sink.emit m.sink (m.registers.get c).toUInt8).1 with
        | ok u => rw [hemit] at hreply; cases hreply
        | error e => rw [hemit] at hreply; cases hreply; exact .output (UInt32.not_lt.mp hle) hemit
    | input c =>
      simp only [reply, Instruction.operation?] at hreply
      cases hread : m.source.readByte.1 with
      | byte b => simp only [hread] at hreply; cases hreply
      | endOfInput => simp only [hread] at hreply; cases hreply; exact .endOfInput hread
      | failed e => simp only [hread] at hreply; cases hreply; exact .input hread
    | arrayIndex | arrayAmendment | allocation | abandonment | loadProgram => cases hop
    | _ => cases hreply

theorem Denies.reply (h : m.Denies i cause) : m.reply i = .error cause := by
  cases h with
  | memory hop hrefuses => rw [reply_of_operation hop, hrefuses.perform]; rfl
  | division h0 => simp only [Machine.reply, Instruction.operation?, if_pos h0]
  | outputOutOfRange hgt => simp only [Machine.reply, Instruction.operation?, if_pos hgt]
  | output hle hemit =>
    simp only [Machine.reply, Instruction.operation?, if_neg (UInt32.not_lt.mpr hle), hemit]
    rfl
  | halt hflush => simp only [Machine.reply, Instruction.operation?, hflush]; rfl
  | endOfInput hread => simp only [Machine.reply, Instruction.operation?, hread]
  | input hread => simp only [Machine.reply, Instruction.operation?, hread]

theorem fails_of_fetch (hfetch : m.fetch = .error cause) : m.Fails cause := by
  rw [fetch] at hfetch
  cases hread : m.memory.read 0 m.finger with
  | error e =>
    simp only [hread] at hfetch
    cases hfetch
    exact .unread (Memory.refuses_read hread)
  | ok w =>
    simp only [hread] at hfetch
    cases hdecode : Instruction.decode w with
    | ok i => rw [hdecode] at hfetch; cases hfetch
    | error e =>
      rw [hdecode] at hfetch
      cases hfetch
      obtain ⟨hcode, rfl⟩ := Instruction.decode_eq_error_iff.mp hdecode
      exact .unknownOpcode hread hcode

omit [Sink σ] in
theorem fetch_of_refuses {e : MemoryError} (h : m.memory.Refuses (.read 0 m.finger) e) :
    m.fetch = .error (.memory e) := by
  have hread : m.memory.read 0 m.finger = .error e := Memory.error_of_map h.perform
  rw [fetch, hread]

theorem step_eq_error_iff (hstatus : m.status = .running) {fault : Fault} :
    m.step.1 = .error fault ↔
      fault.finger = m.finger ∧ fault.registers = m.registers ∧ m.Fails fault.cause := by
  constructor
  · intro hfault
    have htakes := m.takes_step
    rw [hfault] at htakes
    generalize m.step.2 = m' at htakes
    cases htakes with
    | stopped hstopped => exact absurd hstatus hstopped
    | unread _ hfetch => exact ⟨rfl, rfl, fails_of_fetch hfetch⟩
    | fail _ hfetch hreply => exact ⟨rfl, rfl, .denied hfetch (denies_of_reply hreply)⟩
  · obtain ⟨cause, finger, registers⟩ := fault
    rintro ⟨rfl, rfl, hfails⟩
    cases hfails with
    | unread hrefuses => rw [step_of_fetch_error hstatus (fetch_of_refuses hrefuses)]; rfl
    | unknownOpcode hread hcode =>
      rw [step_of_fetch_error hstatus (fetch_of_unknownOpcode hread hcode)]
      rfl
    | denied hfetch hdenies =>
      rw [step_of_reply_error (obeyed?_eq_some_iff.mpr ⟨hstatus, hfetch⟩) hdenies.reply]
      rfl

theorem fails_unknownOpcode_iff {e : UnknownOpcode} :
    m.Fails (.unknownOpcode e) ↔
      m.memory.read 0 m.finger = .ok e.word ∧ e.code = e.word.toNat >>> 28 ∧
        (e.code = 14 ∨ e.code = 15) := by
  constructor
  · intro h
    cases h with
    | unknownOpcode hread hcode =>
      exact ⟨hread, Word.code_eq_shiftRight _, (Word.le_code_iff _).mp hcode⟩
    | denied _ hdenies => cases hdenies
  · rintro ⟨hread, -, hcode⟩
    exact .unknownOpcode hread ((Word.le_code_iff _).mpr hcode)

theorem fails_memory_iff {e : MemoryError} :
    m.Fails (.memory e) ↔ m.memory.Refuses (.read 0 m.finger) e ∨
      ∃ i op, m.fetch = .ok i ∧ i.operation? m.registers = some op ∧ m.memory.Refuses op e := by
  constructor
  · intro hfails
    cases hfails with
    | unread hrefuses => exact .inl hrefuses
    | denied hfetch hdenies =>
      cases hdenies with
      | memory hop hrefuses => exact .inr ⟨_, _, hfetch, hop, hrefuses⟩
  · rintro (hrefuses | ⟨i, op, hfetch, hop, hrefuses⟩)
    · exact .unread hrefuses
    · exact .denied hfetch (.memory hop hrefuses)

theorem fails_outOfBounds_iff {h : Handle} {offset : Word} {size : Nat} :
    m.Fails (.memory (.outOfBounds h offset size)) ↔
      (∃ s, m.memory.segment? h = some s ∧ s.size = size ∧ size ≤ offset.toNat) ∧
        (h = 0 ∧ offset = m.finger ∨
          (∃ a b c, m.fetch = .ok (.arrayIndex a b c) ∧ m.registers.get b = h ∧
            m.registers.get c = offset) ∨
          ∃ a b c, m.fetch = .ok (.arrayAmendment a b c) ∧ m.registers.get a = h ∧
            m.registers.get b = offset) := by
  rw [fails_memory_iff]
  constructor
  · rintro (hrefuses | ⟨i, op, hfetch, hop, hrefuses⟩)
    · cases hrefuses with
      | readBeyond hs hle => exact ⟨⟨_, hs, rfl, hle⟩, .inl ⟨rfl, rfl⟩⟩
    · cases hrefuses with
      | readBeyond hs hle =>
        obtain ⟨a, b, c, rfl, hb, hc⟩ := Instruction.of_operation? hop
        exact ⟨⟨_, hs, rfl, hle⟩, .inr (.inl ⟨a, b, c, hfetch, hb, hc⟩)⟩
      | writeBeyond hs hle =>
        obtain ⟨a, b, c, rfl, ha, hb, -⟩ := Instruction.of_operation? hop
        exact ⟨⟨_, hs, rfl, hle⟩, .inr (.inr ⟨a, b, c, hfetch, ha, hb⟩)⟩
  · rintro ⟨⟨s, hs, rfl, hle⟩, ⟨rfl, rfl⟩ | ⟨a, b, c, hfetch, rfl, rfl⟩ | ⟨a, b, c, hfetch, rfl, rfl⟩⟩
    · exact .inl (.readBeyond hs hle)
    · exact .inr ⟨_, _, hfetch, rfl, .readBeyond hs hle⟩
    · exact .inr ⟨_, _, hfetch, rfl, .writeBeyond hs hle⟩

theorem fails_unallocated_iff (hm : m.memory.Consistent) {h : Handle} :
    m.Fails (.memory (.unallocated h)) ↔
      h ≠ 0 ∧ m.memory.segment? h = none ∧
        ((∃ a b c, m.fetch = .ok (.arrayIndex a b c) ∧ m.registers.get b = h) ∨
          (∃ a b c, m.fetch = .ok (.arrayAmendment a b c) ∧ m.registers.get a = h) ∨
          ∃ b c, m.fetch = .ok (.loadProgram b c) ∧ m.registers.get b = h) := by
  rw [fails_memory_iff]
  constructor
  · rintro (hrefuses | ⟨i, op, hfetch, hop, hrefuses⟩)
    · cases hrefuses with
      | read hnone => exact absurd rfl (hm.ne_zero_of_segment? hnone)
    · cases hrefuses with
      | read hnone =>
        obtain ⟨a, b, c, rfl, hb, -⟩ := Instruction.of_operation? hop
        exact ⟨hm.ne_zero_of_segment? hnone, hnone, .inl ⟨a, b, c, hfetch, hb⟩⟩
      | write hnone =>
        obtain ⟨a, b, c, rfl, ha, -⟩ := Instruction.of_operation? hop
        exact ⟨hm.ne_zero_of_segment? hnone, hnone, .inr (.inl ⟨a, b, c, hfetch, ha⟩)⟩
      | replaceProgram h0 hnone =>
        obtain ⟨b, c, rfl, hb⟩ := Instruction.of_operation? hop
        exact ⟨h0, hnone, .inr (.inr ⟨b, c, hfetch, hb⟩)⟩
      | segment => exact (Instruction.of_operation? hop).elim
  · rintro ⟨h0, hnone, ⟨a, b, c, hfetch, rfl⟩ | ⟨a, b, c, hfetch, rfl⟩ | ⟨b, c, hfetch, rfl⟩⟩
    · exact .inr ⟨_, _, hfetch, rfl, .read hnone⟩
    · exact .inr ⟨_, _, hfetch, rfl, .write hnone⟩
    · exact .inr ⟨_, _, hfetch, rfl, .replaceProgram h0 hnone⟩

theorem fails_freeProgram_iff :
    m.Fails (.memory .freeProgram) ↔
      ∃ c, m.fetch = .ok (.abandonment c) ∧ m.registers.get c = 0 := by
  rw [fails_memory_iff]
  constructor
  · rintro (hrefuses | ⟨i, op, hfetch, hop, hrefuses⟩)
    · cases hrefuses
    · cases hrefuses with
      | freeProgram h0 =>
        obtain ⟨c, rfl, hc⟩ := Instruction.of_operation? hop
        exact ⟨c, hfetch, hc.trans h0⟩
  · rintro ⟨c, hfetch, h0⟩
    exact .inr ⟨_, _, hfetch, rfl, .freeProgram h0⟩

theorem fails_alreadyFree_iff (hm : m.memory.Consistent) {h : Handle} :
    m.Fails (.memory (.alreadyFree h)) ↔
      ∃ c, m.fetch = .ok (.abandonment c) ∧ m.registers.get c = h ∧ h ∈ m.memory.pool.toList := by
  rw [fails_memory_iff]
  constructor
  · rintro (hrefuses | ⟨i, op, hfetch, hop, hrefuses⟩)
    · cases hrefuses
    · cases hrefuses with
      | freeEmpty _ hnone hlt =>
        obtain ⟨c, rfl, hc⟩ := Instruction.of_operation? hop
        exact ⟨c, hfetch, hc, hm.mem_of_segment? hnone hlt⟩
  · rintro ⟨c, hfetch, rfl, hmem⟩
    exact .inr ⟨_, _, hfetch, rfl, .freeEmpty (hm.ne_zero_of_mem hmem) (hm.segment?_of_mem hmem)
      (hm.lt_size_of_mem hmem)⟩

theorem fails_neverAllocated_iff {h : Handle} :
    m.Fails (.memory (.neverAllocated h)) ↔
      ∃ c, m.fetch = .ok (.abandonment c) ∧ m.registers.get c = h ∧ h ≠ 0 ∧
        m.memory.slots.size ≤ h.toNat := by
  rw [fails_memory_iff]
  constructor
  · rintro (hrefuses | ⟨i, op, hfetch, hop, hrefuses⟩)
    · cases hrefuses
    · cases hrefuses with
      | freeBeyond h0 hle =>
        obtain ⟨c, rfl, hc⟩ := Instruction.of_operation? hop
        exact ⟨c, hfetch, hc, h0, hle⟩
  · rintro ⟨c, hfetch, rfl, h0, hle⟩
    exact .inr ⟨_, _, hfetch, rfl, .freeBeyond h0 hle⟩

theorem fails_allocationFailed_iff {capacity : Word} :
    m.Fails (.memory (.allocationFailed capacity)) ↔
      ∃ b c, m.fetch = .ok (.allocation b c) ∧ m.registers.get c = capacity ∧
        ¬m.memory.Admits capacity := by
  rw [fails_memory_iff]
  constructor
  · rintro (hrefuses | ⟨i, op, hfetch, hop, hrefuses⟩)
    · cases hrefuses
    · cases hrefuses with
      | allocate hrefused =>
        obtain ⟨b, c, rfl, hc⟩ := Instruction.of_operation? hop
        exact ⟨b, c, hfetch, hc, hrefused⟩
  · rintro ⟨b, c, hfetch, rfl, hrefused⟩
    exact .inr ⟨_, _, hfetch, rfl, .allocate hrefused⟩

theorem fails_divisionByZero_iff :
    m.Fails .divisionByZero ↔
      ∃ a b c, m.fetch = .ok (.division a b c) ∧ m.registers.get c = 0 := by
  constructor
  · intro hfails
    cases hfails with
    | denied hfetch hdenies => cases hdenies with | division h0 => exact ⟨_, _, _, hfetch, h0⟩
  · rintro ⟨a, b, c, hfetch, h0⟩
    exact .denied hfetch (.division h0)

theorem fails_outputOutOfRange_iff {w : Word} :
    m.Fails (.outputOutOfRange w) ↔
      ∃ c, m.fetch = .ok (.output c) ∧ m.registers.get c = w ∧ 255 < w := by
  constructor
  · intro hfails
    cases hfails with
    | denied hfetch hdenies =>
      cases hdenies with | outputOutOfRange hgt => exact ⟨_, hfetch, rfl, hgt⟩
  · rintro ⟨c, hfetch, rfl, hgt⟩
    exact .denied hfetch (.outputOutOfRange hgt)

theorem fails_endOfInput_iff :
    m.Fails .endOfInput ↔
      ∃ c, m.fetch = .ok (.input c) ∧ m.source.readByte.1 = .endOfInput := by
  constructor
  · intro hfails
    cases hfails with
    | denied hfetch hdenies => cases hdenies with | endOfInput hread => exact ⟨_, hfetch, hread⟩
  · rintro ⟨c, hfetch, hread⟩
    exact .denied hfetch (.endOfInput hread)

theorem fails_stream_iff {e : StreamError} :
    m.Fails (.stream e) ↔
      (∃ c, m.fetch = .ok (.output c) ∧ m.registers.get c ≤ 255 ∧
          (Sink.emit m.sink (m.registers.get c).toUInt8).1 = .error e) ∨
        (m.fetch = .ok .halt ∧ (Sink.flush m.sink).1 = .error e) ∨
        ∃ c, m.fetch = .ok (.input c) ∧ m.source.readByte.1 = .failed e := by
  constructor
  · intro hfails
    cases hfails with
    | denied hfetch hdenies =>
      cases hdenies with
      | output hle hemit => exact .inl ⟨_, hfetch, hle, hemit⟩
      | halt hflush => exact .inr (.inl ⟨hfetch, hflush⟩)
      | input hread => exact .inr (.inr ⟨_, hfetch, hread⟩)
  · rintro (⟨c, hfetch, hle, hemit⟩ | ⟨hfetch, hflush⟩ | ⟨c, hfetch, hread⟩)
    · exact .denied hfetch (.output hle hemit)
    · exact .denied hfetch (.halt hflush)
    · exact .denied hfetch (.input hread)

theorem not_fails_notRunning (m : Machine σ) : ¬m.Fails .notRunning := by
  intro hfails
  cases hfails with
  | denied _ hdenies => cases hdenies

/-- All that the fault says about the machine at which it arose is true. `past` is what was asked of
the memory before. -/
def Truthful (past : List Memory.Moment) (m : Machine σ) (fault : Fault) : Prop :=
  fault.finger = m.finger ∧ fault.registers = m.registers ∧
    match fault.cause with
    | .unknownOpcode e => m.memory.read 0 fault.finger = .ok e.word ∧
        e.code = e.word.toNat >>> 28 ∧ (e.code = 14 ∨ e.code = 15)
    | .memory (.outOfBounds h offset size) =>
      (∃ s, m.memory.segment? h = some s ∧ s.size = size ∧ size ≤ offset.toNat) ∧
        (h = 0 ∧ offset = fault.finger ∨
          (∃ a b c, m.fetch = .ok (.arrayIndex a b c) ∧ fault.registers.get b = h ∧
            fault.registers.get c = offset) ∨
          ∃ a b c, m.fetch = .ok (.arrayAmendment a b c) ∧ fault.registers.get a = h ∧
            fault.registers.get b = offset)
    | .memory (.unallocated h) => h ≠ 0 ∧ m.memory.segment? h = none ∧
        ((∃ a b c, m.fetch = .ok (.arrayIndex a b c) ∧ fault.registers.get b = h) ∨
          (∃ a b c, m.fetch = .ok (.arrayAmendment a b c) ∧ fault.registers.get a = h) ∨
          ∃ b c, m.fetch = .ok (.loadProgram b c) ∧ fault.registers.get b = h)
    | .memory .freeProgram => ∃ c, m.fetch = .ok (.abandonment c) ∧ fault.registers.get c = 0
    | .memory (.alreadyFree h) => ∃ c, m.fetch = .ok (.abandonment c) ∧
        fault.registers.get c = h ∧ h ∈ m.memory.pool.toList
    | .memory (.neverAllocated h) => ∃ c, m.fetch = .ok (.abandonment c) ∧
        fault.registers.get c = h ∧ h ≠ 0 ∧ h ∉ Memory.handed past
    | .memory (.allocationFailed capacity) => ∃ b c, m.fetch = .ok (.allocation b c) ∧
        fault.registers.get c = capacity ∧
        (m.memory.limit < capacity.toNat ∨ ¬Host.backs capacity.toNat)
    | .divisionByZero => ∃ a b c, m.fetch = .ok (.division a b c) ∧ fault.registers.get c = 0
    | .outputOutOfRange w => ∃ c, m.fetch = .ok (.output c) ∧ fault.registers.get c = w ∧ 255 < w
    | .endOfInput => ∃ c, m.fetch = .ok (.input c) ∧ m.source.readByte.1 = .endOfInput
    | .stream e =>
      (∃ c, m.fetch = .ok (.output c) ∧ fault.registers.get c ≤ 255 ∧
          (Sink.emit m.sink (fault.registers.get c).toUInt8).1 = .error e) ∨
        (m.fetch = .ok .halt ∧ (Sink.flush m.sink).1 = .error e) ∨
        ∃ c, m.fetch = .ok (.input c) ∧ m.source.readByte.1 = .failed e
    | .notRunning => False

theorem truthful_iff_fails {past : List Memory.Moment} {fault : Fault}
    (hm : m.memory.Consistent) (ho : Memory.Ordered past m.memory) :
    m.Truthful past fault ↔
      fault.finger = m.finger ∧ fault.registers = m.registers ∧ m.Fails fault.cause := by
  obtain ⟨cause, finger, registers⟩ := fault
  rw [Truthful]
  refine and_congr_right ?_
  rintro rfl
  refine and_congr_right ?_
  rintro rfl
  cases cause with
  | unknownOpcode e => exact fails_unknownOpcode_iff.symm
  | memory e =>
    cases e with
    | unallocated h => exact (fails_unallocated_iff hm).symm
    | outOfBounds h offset size => exact fails_outOfBounds_iff.symm
    | freeProgram => exact fails_freeProgram_iff.symm
    | alreadyFree h => exact (fails_alreadyFree_iff hm).symm
    | neverAllocated h =>
      have hfresh : h ≠ 0 ∧ h ∉ Memory.handed past ↔ h ≠ 0 ∧ m.memory.slots.size ≤ h.toNat := by
        rw [ho.mem_handed_iff, ← Nat.not_lt]
        tauto
      simp only [hfresh]
      exact fails_neverAllocated_iff.symm
    | allocationFailed capacity =>
      simp only [← Memory.not_admits_iff]
      exact fails_allocationFailed_iff.symm
  | divisionByZero => exact fails_divisionByZero_iff.symm
  | outputOutOfRange w => exact fails_outputOutOfRange_iff.symm
  | endOfInput => exact fails_endOfInput_iff.symm
  | stream e => exact fails_stream_iff.symm
  | notRunning => exact (iff_false_intro m.not_fails_notRunning).symm

/-- A step has a fault exactly if the fault is truthful. The only decoding error is that of a word
with an opcode that names no operation. -/
theorem step_fault_iff {image : Image} {source : Source} {sink : σ} {ops : List Memory.Op}
    (hm : Reached image source sink ops m) (hminted : m.memory.minted < 2 ^ 32)
    (hstatus : m.status = .running) (fault : Fault) :
    (m.step.1 = .error fault ↔ m.Truthful (Memory.past image.words ops) fault) ∧
      (fault.category = "DecodeError" → ∃ w, fault.cause = .unknownOpcode ⟨w⟩) ∧
      ∀ capacity, m.step.1 = .error fault → fault.cause = .memory (.allocationFailed capacity) →
        Host.backs capacity.toNat → m.memory.limit < capacity.toNat := by
  have hhistory := Memory.history image.words ops
  rw [← hm.memory_eq] at hhistory
  have ho := hhistory.ordered (Memory.size_le_of_minted hminted)
  refine ⟨?_, ?_, ?_⟩
  · rw [truthful_iff_fails hhistory.consistent ho]
    exact step_eq_error_iff hstatus
  · intro hcategory
    obtain ⟨⟨w⟩, hcause⟩ := Cause.exists_of_category hcategory
    exact ⟨w, hcause⟩
  · intro capacity hfault hcause hbacks
    obtain ⟨-, -, hfails⟩ := (step_eq_error_iff hstatus).mp hfault
    rw [hcause, fails_allocationFailed_iff] at hfails
    obtain ⟨-, -, -, -, hrefused⟩ := hfails
    exact (Memory.not_admits_iff.mp hrefused).resolve_right (not_not_intro hbacks)

end

open Host

theorem step_fault_iff_of_second_free :
    let m := (load ⟨[0x80000008, 0x90000001, 0x90000001]⟩ [] ScriptedSink.plain).step.2.step.2
    Reached ⟨[0x80000008, 0x90000001, 0x90000001]⟩ [] ScriptedSink.plain
        [.read 0 0, .allocate 0, .read 0 1, .free 1] m ∧
      m.memory.minted < 2 ^ 32 ∧ m.status = .running ∧
      m.step.1 = .error ⟨.memory (.alreadyFree 1), 2, Registers.zero.put 1 1⟩ ∧
      (1 : Handle) ∈ m.memory.pool.toList := by
  have hm : Reached ⟨[0x80000008, 0x90000001, 0x90000001]⟩ [] ScriptedSink.plain
      [.read 0 0, .allocate 0, .read 0 1, .free 1]
      (load ⟨[0x80000008, 0x90000001, 0x90000001]⟩ [] ScriptedSink.plain).step.2.step.2 :=
    .step (.step .load)
  intro m
  have hminted : m.memory.minted < 2 ^ 32 := by decide
  have hstatus : m.status = .running := by decide
  have hfault : m.step.1 = .error ⟨.memory (.alreadyFree 1), 2, Registers.zero.put 1 1⟩ := by
    decide +kernel
  obtain ⟨-, -, c, -, -, hmem⟩ := (step_fault_iff hm hminted hstatus _).1.mp hfault
  exact ⟨hm, hminted, hstatus, hfault, hmem⟩

end Machine

end UniversalMachine
