import UniversalMachine.Command.Disassemble
import UniversalMachine.Command.Dump

namespace UniversalMachine.CommandLine

def usage : List String :=
  ["Usage: um <command> [args]",
    "",
    "Commands:",
    "  run <prog.um>... [--input FILE] [--max-segment-words N]",
    "                                           Concatenate images and execute them",
    "  disassemble <prog.um>... [-o OUT]        Write a .asm listing per image",
    "  dump <codex.umz> --key FILE [-o OUT] [--intro-bytes N]",
    "                                           Decrypt the codex into a UM image"]

def withOptions {α : Type} (options : Except UsageError α) (usage : String)
    (action : α → Action Unit) : Action Unit :=
  match options with
  | .ok o => action o
  | .error e => Action.refuse (e.lines usage)

def perform [Host] (fuel : Nat) : List String → Action Unit
  | [] => Action.refuse usage
  | "run" :: args =>
    withOptions (RunOptions.ofArguments args) RunOptions.usage fun o => o.perform fuel
  | "disassemble" :: args =>
    withOptions (DisassembleOptions.ofArguments args) DisassembleOptions.usage fun o => o.perform
  | "dump" :: args =>
    withOptions (DumpOptions.ofArguments args) DumpOptions.usage fun o => o.perform fuel
  | "help" :: _ | "-h" :: _ | "--help" :: _ => usage.forM Action.say
  | name :: _ => Action.refuse (["error: unknown command '" ++ name ++ "'", ""] ++ usage)

end UniversalMachine.CommandLine
