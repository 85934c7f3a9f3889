import UniversalMachine.Machine.Basic
/-! One step of a machine: the instruction under the finger, executed. The operands of an instruction
are the registers as they were before it. A step that fails leaves everything but the streams as it
was, and the machine stopped. -/

universe u

namespace UniversalMachine.Machine

variable {σ : Type u}

abbrev Effect (σ : Type u) (α : Type) := Except Cause α × Machine σ

def proceed (m : Machine σ) : Effect σ Flow := (.ok (.next (m.finger + 1)), m)

def assign (m : Machine σ) (r : Register) (w : Word) : Effect σ Flow :=
  proceed { m with registers := m.registers.put r w }

def onMemory {α : Type} (m : Machine σ) (f : Memory → Except MemoryError α × Memory) : Effect σ α :=
  let ⟨registers, memory, finger, source, sink, status, steps⟩ := m
  let (result, memory) := f memory
  (result.mapError .memory, ⟨registers, memory, finger, source, sink, status, steps⟩)

def onSink {α : Type} (m : Machine σ) (f : σ → Except StreamError α × σ) : Effect σ α :=
  let ⟨registers, memory, finger, source, sink, status, steps⟩ := m
  let (result, sink) := f sink
  (result.mapError .stream, ⟨registers, memory, finger, source, sink, status, steps⟩)

def readInput (m : Machine σ) (r : Register) : Effect σ Flow :=
  match m.source.readByte with
  | (.byte b, source) => assign { m with source } r b.toUInt32
  | (.endOfInput, source) => (.error .endOfInput, { m with source })
  | (.failed e, source) => (.error (.stream e), { m with source })

def loadProgram (m : Machine σ) (h : Handle) (finger : Word) : Effect σ Flow :=
  match m.onMemory (·.replaceProgram h) with
  | (.ok (), m) => (.ok (.next finger), m)
  | (.error e, m) => (.error e, m)

variable [Sink σ]

def writeOutput (m : Machine σ) (value : Word) : Effect σ Flow :=
  if 255 < value then (.error (.outputOutOfRange value), m)
  else
    match m.onSink (Sink.writeAll · [value.toUInt8]) with
    | (.error e, m) => (.error e, m)
    | (.ok (), m) =>
      match m.onSink Sink.flush with
      | (.error e, m) => (.error e, m)
      | (.ok (), m) => m.proceed

variable [Host]

def execute (m : Machine σ) : Instruction → Effect σ Flow
  | .conditionalMove a b c =>
    if m.registers.get c = 0 then m.proceed else m.assign a (m.registers.get b)
  | .arrayIndex a b c =>
    match m.memory.read (m.registers.get b) (m.registers.get c) with
    | .ok w => m.assign a w
    | .error e => (.error (.memory e), m)
  | .arrayAmendment a b c =>
    let h := m.registers.get a
    let offset := m.registers.get b
    let w := m.registers.get c
    match m.onMemory (·.write h offset w) with
    | (.ok (), m) => m.proceed
    | (.error e, m) => (.error e, m)
  | .addition a b c => m.assign a (m.registers.get b + m.registers.get c)
  | .multiplication a b c => m.assign a (m.registers.get b * m.registers.get c)
  | .division a b c =>
    if m.registers.get c = 0 then (.error .divisionByZero, m)
    else m.assign a (m.registers.get b / m.registers.get c)
  | .notAnd a b c => m.assign a (~~~(m.registers.get b &&& m.registers.get c))
  | .halt =>
    match m.onSink Sink.flush with
    | (.ok (), m) => (.ok .halt, m)
    | (.error e, m) => (.error e, m)
  | .allocation b c =>
    let capacity := m.registers.get c
    match m.onMemory (·.allocate capacity) with
    | (.ok h, m) => m.assign b h
    | (.error e, m) => (.error e, m)
  | .abandonment c =>
    let h := m.registers.get c
    match m.onMemory (·.free h) with
    | (.ok (), m) => m.proceed
    | (.error e, m) => (.error e, m)
  | .output c => m.writeOutput (m.registers.get c)
  | .input c => m.readInput c
  | .loadProgram b c => m.loadProgram (m.registers.get b) (m.registers.get c)
  | .orthography a value => m.assign a value

def fail (m : Machine σ) (cause : Cause) : Except Fault Flow × Machine σ :=
  let fault := m.fault cause
  (.error fault, { m with status := .failed fault })

def step (m : Machine σ) : Except Fault Flow × Machine σ :=
  if m.status = .running then
    match m.fetch with
    | .error cause => m.fail cause
    | .ok i =>
      match m.execute i with
      | (.ok (.next finger), m) => (.ok (.next finger), { m with finger, steps := m.steps + 1 })
      | (.ok .halt, m) => (.ok .halt, { m with status := .halted, steps := m.steps + 1 })
      | (.error cause, m) => m.fail cause
  else (.error (m.fault .notRunning), m)

end UniversalMachine.Machine
