import SqlTree.Analysis.Error

namespace SqlTree

/-- What stands under a path. -/
inductive FileEntry where
  | missing
  | directory
  | file (bytes : List UInt8)

namespace Source

/-- A text is read from bytes that encode it in UTF-8. -/
def ofBytes (bytes : List UInt8) : Except AnalysisError String :=
  match String.fromUTF8? ⟨bytes.toArray⟩ with
  | some text => .ok text
  | none => .error (.io "stream did not contain valid UTF-8")

def ofFile : FileEntry → Except AnalysisError String
  | .missing => .error (.io "No such file or directory (os error 2)")
  | .directory => .error (.io "Is a directory (os error 21)")
  | .file bytes => ofBytes bytes

/-- The text under a path, by what stands there. No path holds a null character. -/
def ofPath (entry : String → FileEntry) (path : String) : Except AnalysisError String :=
  if path.toList.contains '\x00' then .error (.io "file name contained an unexpected NUL byte")
  else ofFile (entry path)

end Source

end SqlTree
