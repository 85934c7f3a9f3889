import UniversalMachine.Stream.Error

namespace UniversalMachine

namespace Source

inductive Event
  | data (bytes : List UInt8)
  | fail (e : StreamError)
  | ended
  deriving DecidableEq, Repr

inductive Read
  | byte (b : UInt8)
  | endOfInput
  | failed (e : StreamError)
  deriving DecidableEq, Repr

end Source

abbrev Source := List Source.Event

namespace Source

def ofBytes (bytes : List UInt8) : Source := [.data bytes]

def readByte : Source → Read × Source
  | [] => (.endOfInput, [])
  | .data [] :: source => readByte source
  | .data (b :: bytes) :: source => (.byte b, .data bytes :: source)
  | .ended :: source => (.endOfInput, source)
  | .fail e :: source =>
    if e = .interrupted then readByte source
    else if e = .unexpectedEnd then (.endOfInput, source)
    else (.failed e, source)

def bytes : Source → List UInt8
  | [] => []
  | .data bs :: source => bs ++ bytes source
  | .fail _ :: source | .ended :: source => bytes source

theorem bytes_of_readByte_byte {source source' : Source} {b : UInt8}
    (h : source.readByte = (.byte b, source')) : source.bytes = b :: source'.bytes := by
  fun_induction readByte source <;> simp_all [bytes]
  obtain ⟨rfl, rfl⟩ := h
  simp [bytes]

theorem bytes_of_readByte_endOfInput {source source' : Source}
    (h : source.readByte = (.endOfInput, source')) : source'.bytes = source.bytes := by
  fun_induction readByte source <;> simp_all [bytes]

theorem bytes_of_readByte_failed {source source' : Source} {e : StreamError}
    (h : source.readByte = (.failed e, source')) : source'.bytes = source.bytes := by
  fun_induction readByte source <;> simp_all [bytes]

end Source

end UniversalMachine
