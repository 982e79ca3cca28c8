import SqlTree.Rule.Failure

namespace SqlTree

/-- Why an analysis gives no model. -/
inductive AnalysisError where
  | lexical (e : LexError)
  | mismatch (m : Mismatch)
  | tooDeep (position : Position)
  | unsupported (message : String)
  | cancelled
  | io (message : String)
  | unknownDialect (name : String)
  | internal (message : String)
  deriving DecidableEq

/-- The sorts of errors that users are told apart. -/
inductive ErrorKind where
  | lexical | malformed | unsupported | cancelled | io | unknownDialect | internal
  deriving DecidableEq

namespace ErrorKind

/-- The kind in words. -/
def text : ErrorKind → String
  | lexical => "lexical"
  | malformed => "syntax"
  | unsupported => "unsupported"
  | cancelled => "cancelled"
  | io => "io"
  | unknownDialect => "unknown dialect"
  | internal => "internal"

/-- The kind in data: a hyphen joins the words. -/
def name : ErrorKind → String
  | unknownDialect => "unknown-dialect"
  | kind => kind.text

end ErrorKind

namespace AnalysisError

def ofFailure : Failure → AnalysisError
  | .mismatch m => .mismatch m
  | .lexical e => .lexical e
  | .cancelled => .cancelled
  | .tooDeep position => .tooDeep position

def kind : AnalysisError → ErrorKind
  | lexical _ => .lexical
  | mismatch _ => .malformed
  | tooDeep _ => .malformed
  | unsupported _ => .unsupported
  | cancelled => .cancelled
  | io _ => .io
  | unknownDialect _ => .unknownDialect
  | internal _ => .internal

def message : AnalysisError → String
  | lexical e => e.kind.message
  | mismatch m => m.message
  | tooDeep _ => "expression nested too deeply"
  | unsupported message => message
  | cancelled => "analysis cancelled"
  | io message => message
  | unknownDialect name => s!"no dialect named '{name}'"
  | internal message => message

def position? : AnalysisError → Option Position
  | lexical e => some e.position
  | mismatch m => some m.position
  | tooDeep position => some position
  | _ => none

/-- What would have fit in the place of the token found. -/
def expected : AnalysisError → List String
  | mismatch m => m.expected
  | _ => []

def found? : AnalysisError → Option String
  | mismatch m => some m.found
  | _ => none

def isCancelled (e : AnalysisError) : Bool := e.kind == .cancelled

def describe (e : AnalysisError) : String :=
  let place :=
    match e.position? with
    | some position => s!" at {position.describe}"
    | none => ""
  s!"{e.kind.text} error: {e.message}{place}"

end AnalysisError

end SqlTree
