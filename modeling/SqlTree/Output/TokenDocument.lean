import SqlTree.Analysis.Error
import SqlTree.Output.Document
import SqlTree.Token

namespace SqlTree

def bytesDocument (bytes : List UInt8) : Document :=
  .ofList (fun byte => .number byte.toNat) bytes

def TokenKind.document (kind : TokenKind) : Document :=
  match kind with
  | integer value => .tagged kind.name (.number value)
  | float value => .tagged kind.name (.float value)
  | string value => .tagged kind.name (.text value)
  | blob bytes => .tagged kind.name (bytesDocument bytes)
  | identifier name => .tagged kind.name (.text name)
  | keyword k => .tagged kind.name (.text k.name)
  | _ => .text kind.name

def Token.document (t : Token) : Document :=
  .object [("kind", t.kind.document), ("text", .text t.text), ("span", .span t.span)]

def AnalysisError.document (e : AnalysisError) : Document :=
  .object
    [("kind", .text e.kind.name), ("message", .text e.message),
      ("position", .ofOption .position e.position?), ("expected", .texts e.expected),
      ("found", .ofOption .text e.found?)]

end SqlTree
