namespace UniversalMachine

inductive Verbosity
  | off
  | error
  | warn
  | info
  | debug
  | trace
  deriving DecidableEq, Repr

namespace Verbosity

def rank : Verbosity → Nat
  | off => 0
  | error => 1
  | warn => 2
  | info => 3
  | debug => 4
  | trace => 5

def label : Verbosity → String
  | off => "OFF  "
  | error => "ERROR"
  | warn => "WARN "
  | info => "INFO "
  | debug => "DEBUG"
  | trace => "TRACE"

def ofName? (name : String) : Option Verbosity :=
  match name.toLower with
  | "off" => some off
  | "error" => some error
  | "warn" => some warn
  | "info" => some info
  | "debug" => some debug
  | "trace" => some trace
  | _ => none

def ofSetting (setting : Option String) : Verbosity := (setting.bind ofName?).getD warn

end Verbosity

structure LogEntry where
  level : Verbosity
  target : String
  text : String
  deriving DecidableEq, Repr

namespace LogEntry

def render (e : LogEntry) : String := e.level.label ++ " [" ++ e.target ++ "] " ++ e.text

def Wanted (e : LogEntry) (v : Verbosity) : Prop := e.level.rank ≤ v.rank

instance (e : LogEntry) (v : Verbosity) : Decidable (e.Wanted v) :=
  inferInstanceAs (Decidable (_ ≤ _))

end LogEntry

end UniversalMachine
