import UniversalMachine.Instruction.Codec
import UniversalMachine.Memory.Basic
import UniversalMachine.Stream.Error

namespace UniversalMachine

inductive Cause
  | unknownOpcode (e : UnknownOpcode)
  | memory (e : MemoryError)
  | divisionByZero
  | outputOutOfRange (value : Word)
  | endOfInput
  | stream (e : StreamError)
  | notRunning
  deriving DecidableEq, Repr

namespace Cause

def message : Cause → String
  | unknownOpcode e => e.message
  | memory e => e.message
  | divisionByZero => "division by zero"
  | outputOutOfRange value => "output value " ++ Nat.repr value.toNat ++ " exceeds 255"
  | endOfInput => "unexpected end of input"
  | stream e => "I/O failure: " ++ e.message
  | notRunning => "machine is not running"

def category : Cause → String
  | unknownOpcode _ => "DecodeError"
  | memory _ => "MemoryError"
  | divisionByZero => "ArithmeticError"
  | outputOutOfRange _ | endOfInput | stream _ => "IOError"
  | notRunning => "StateError"

end Cause

structure Fault where
  cause : Cause
  finger : Word
  registers : Registers
  deriving DecidableEq, Repr

namespace Fault

def message (f : Fault) : String := f.cause.message ++ " at finger " ++ Nat.repr f.finger.toNat

def category (f : Fault) : String := f.cause.category

end Fault

end UniversalMachine
