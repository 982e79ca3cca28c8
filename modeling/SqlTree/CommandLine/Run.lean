import SqlTree.Analysis.Case
import SqlTree.Analysis.Source
import SqlTree.CommandLine.Command
import SqlTree.Dialect.Registry
import SqlTree.Output.Json
import SqlTree.Output.ModelDocument

namespace SqlTree

/-- What an invocation leaves: its exit code and its two streams. -/
structure RunResult where
  code : Nat
  output : String
  errors : String
  deriving DecidableEq

/-- Why a run cannot begin: an error, perhaps with what one was about to do. -/
structure FatalError where
  context? : Option String
  message : String
  deriving DecidableEq

namespace FatalError

def ofAnalysis (e : AnalysisError) : FatalError := ⟨none, e.describe⟩

/-- An error that came up in doing something. -/
def during (context : String) (e : AnalysisError) : FatalError := ⟨some context, e.describe⟩

def text (e : FatalError) : String :=
  match e.context? with
  | some context => s!"Error: {context}\n\nCaused by:\n    {e.message}\n"
  | none => s!"Error: {e.message}\n"

end FatalError

namespace RunResult

def success (output : String) : RunResult := ⟨0, output, ""⟩

def fatal (e : FatalError) : RunResult := ⟨1, "", e.text⟩

/-- Arguments that cannot be read. -/
def misused (e : ArgumentError) : RunResult :=
  ⟨2, "", s!"error: {e.message}\n\nFor more information, try '--help'.\n"⟩

/-- A text that is no model or no row of tokens. -/
def report (e : AnalysisError) (format : Format) : RunResult :=
  match format with
  | .json => ⟨1, Json.write 0 e.document ++ "\n", ""⟩
  | .debug =>
    let found :=
      match e.found? with
      | some found => s!"  found: {found}\n"
      | none => ""
    let expected :=
      if e.expected.isEmpty then ""
      else "  expected: " ++ String.intercalate ", " e.expected ++ "\n"
    ⟨1, "", s!"error: {e.describe}\n" ++ found ++ expected⟩

end RunResult

/-- Where the texts come from. -/
structure Texts where
  file : String → Except AnalysisError String
  standardInput : Except AnalysisError String

namespace Texts

def read (texts : Texts) : TextSource → Except FatalError String
  | .file path => (texts.file path).mapError (.during s!"failed to read {path}")
  | .standardInput => texts.standardInput.mapError (.during "failed to read stdin")

end Texts

namespace Invocation

/-- A text on the left of a column of some width. -/
def padRight (width : Nat) (text : String) : String :=
  text ++ String.ofList (List.replicate (width - text.length) ' ')

/-- A text on the right of a column of some width. -/
def padLeft (width : Nat) (text : String) : String :=
  String.ofList (List.replicate (width - text.length) ' ') ++ text

/-- A token in a listing: where it starts, its category and its text. -/
def tokenLine (t : Token) : String :=
  padLeft 4 (toString t.span.start.line) ++ ":" ++ padRight 4 (toString t.span.start.column) ++
    " " ++ padRight 12 t.kind.category.name ++ " " ++ t.text ++ "\n"

def listTokens (tokens : List Token) : Format → String
  | .json => Json.write 0 (.ofList Token.document tokens) ++ "\n"
  | .debug => String.join ((tokens.filter fun t => !t.isEof).map tokenLine)

/-- A dialect in a listing: its names, what it is, and its models. -/
def dialectLines (d : Dialect) : String :=
  let aliases :=
    if d.aliases.isEmpty then "" else " (alias: " ++ String.intercalate ", " d.aliases ++ ")"
  let models := String.intercalate ", " (d.models.map (·.name))
  s!"{d.name}{aliases} - {d.description}\n    models: {models}\n"

def modelNames : String := String.intercalate ", " (ModelKind.all.map (·.name))

def modelKind (name : String) : Except FatalError ModelKind :=
  match ModelKind.ofName? name with
  | some kind => .ok kind
  | none => .error ⟨none, s!"unknown model '{name}', expected one of: {modelNames}"⟩

def findDialect (name : String) : Except FatalError Dialect :=
  (Dialect.find name).mapError .ofAnalysis

def runTokens (dialect : String) (format : Format) (source : TextSource) (texts : Texts) :
    Except FatalError RunResult := do
  let d ← findDialect dialect
  let text ← texts.read source
  match tokenize d.lexical text with
  | .ok tokens => return .success (listTokens tokens format)
  | .error e => return .report (.lexical e) format

def runParse (dialect model : String) (format : Format) (source : TextSource) (texts : Texts) :
    Except FatalError RunResult := do
  let kind ← modelKind model
  let d ← findDialect dialect
  let text ← texts.read source
  let c ← (AnalysisCase.find d kind).mapError .ofAnalysis
  match c.parse text with
  | .ok m => return .success (Json.write 0 m.document ++ "\n")
  | .error e => return .report e format

def run (i : Invocation) (texts : Texts) : RunResult :=
  let result : Except FatalError RunResult :=
    match i.command with
    | .dialects => .ok (.success (String.join (Dialect.builtin.map dialectLines)))
    | .tokens format source => runTokens i.dialect format source texts
    | .parse model format source => runParse i.dialect model format source texts
  match result with
  | .ok result => result
  | .error e => .fatal e

end Invocation

/-- Reads arguments and does what they say. -/
def runCommandLine (arguments : List String) (env : OptionSpec → Option String) (texts : Texts) :
    RunResult :=
  match Invocation.read arguments env with
  | .ok i => i.run texts
  | .error e => .misused e

end SqlTree
