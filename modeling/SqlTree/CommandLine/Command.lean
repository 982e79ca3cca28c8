import SqlTree.CommandLine.Arguments

namespace SqlTree

/-- How results are printed: for readers, or as JSON. -/
inductive Format where
  | debug | json
  deriving DecidableEq

namespace Format

def ofName? : String → Option Format
  | "debug" => some debug
  | "json" => some json
  | _ => none

end Format

/-- Where a text is to come from. -/
inductive TextSource where
  | file (path : String)
  | standardInput
  deriving DecidableEq

/-- What is to be done. -/
inductive Command where
  | parse (model : String) (format : Format) (source : TextSource)
  | tokens (format : Format) (source : TextSource)
  | dialects
  deriving DecidableEq

/-- What is to be done in a dialect. -/
structure Invocation where
  dialect : String
  command : Command
  deriving DecidableEq

namespace Invocation

def dialectOption : OptionSpec := ⟨"dialect", 'd', true⟩
def workersOption : OptionSpec := ⟨"workers", 'w', true⟩
def timeoutOption : OptionSpec := ⟨"timeout-ms", 't', true⟩
def verboseOption : OptionSpec := ⟨"verbose", 'v', false⟩
def modelOption : OptionSpec := ⟨"model", 'm', true⟩
def formatOption : OptionSpec := ⟨"format", 'f', true⟩

/-- The options that the environment may set. -/
def settings : List OptionSpec := [dialectOption, workersOption, timeoutOption]

/-- The options in front of a command. -/
def commonOptions : List OptionSpec := settings ++ [verboseOption]

/-- The value of an option: given as an argument, or in the environment, or nothing. -/
def setting? (a : Arguments) (env : OptionSpec → Option String) (option : OptionSpec) :
    Except ArgumentError (Option String) :=
  match a.value? option with
  | .ok none => .ok (env option)
  | given => given

/-- A count has to be made of digits, a plus sign in front apart, and to fit 64 bits. -/
def checkCount (option : OptionSpec) : Option String → Except ArgumentError Unit
  | none => .ok ()
  | some text =>
    let digits : List Char :=
      match text.toList with
      | '+' :: digits => digits
      | digits => digits
    let value : Nat := digits.foldl (fun n c => 10 * n + (c.toNat - '0'.toNat)) 0
    if digits ≠ [] ∧ digits.all Char.isDigit ∧ value ≤ 0xFFFFFFFFFFFFFFFF then .ok ()
    else .error (.badValue option text)

def format (a : Arguments) : Except ArgumentError Format :=
  match a.value? formatOption with
  | .error e => .error e
  | .ok none => .ok .debug
  | .ok (some name) =>
    match Format.ofName? name with
    | some format => .ok format
    | none => .error (.badValue formatOption name)

/-- Where the text comes from: a path, where a lone hyphen stands for the standard input. -/
def source (a : Arguments) : Except ArgumentError TextSource :=
  match a.others with
  | [] | ["-"] => .ok .standardInput
  | [path] => .ok (.file path)
  | _ :: extra :: _ => .error (.unknown extra)

/-- Reads a command and what stands behind it. -/
def readCommand : List String → Except ArgumentError Command
  | [] => .error .noCommand
  | "parse" :: rest => do
    let a ← Arguments.read [modelOption, formatOption] false rest
    let model ← a.value? modelOption
    return .parse (model.getD "script") (← format a) (← source a)
  | "tokens" :: rest => do
    let a ← Arguments.read [formatOption] false rest
    return .tokens (← format a) (← source a)
  | "dialects" :: rest => do
    let a ← Arguments.read [] false rest
    match a.others with
    | [] => return .dialects
    | extra :: _ => .error (.unknown extra)
  | name :: _ => .error (.unknownCommand name)

/-- Reads all arguments. The environment may set the options in front of a command. -/
def read (arguments : List String) (env : OptionSpec → Option String) :
    Except ArgumentError Invocation := do
  let a ← Arguments.read commonOptions true arguments
  let command ← readCommand a.others
  let dialect ← setting? a env dialectOption
  checkCount workersOption (← setting? a env workersOption)
  checkCount timeoutOption (← setting? a env timeoutOption)
  let _ ← a.value? verboseOption
  return ⟨dialect.getD "sql92", command⟩

/-- Where the text that an invocation asks for comes from. -/
def source? (i : Invocation) : Option TextSource :=
  match i.command with
  | .parse _ _ source => some source
  | .tokens _ source => some source
  | .dialects => none

end Invocation

end SqlTree
