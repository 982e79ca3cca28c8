import SqlTree.Grammar.Entry
import SqlTree.Text.Visible

namespace SqlTree

/-- An analysis gives a model or says why there is none. -/
abbrev AnalysisOutcome := Except AnalysisError Model

/-- A kind of model together with a dialect that supports it. -/
structure AnalysisCase where
  dialect : Dialect
  kind : ModelKind
  supported : dialect.supports kind

namespace AnalysisCase

/-- The case of a dialect for a kind of model. -/
def find (d : Dialect) (kind : ModelKind) : Except AnalysisError AnalysisCase :=
  if h : d.supports kind then .ok ⟨d, kind, h⟩
  else .error (.unsupported s!"dialect {d.name} does not support {kind.name} models")

/-- The rule for a whole text. -/
def rule (c : AnalysisCase) : SqlRule Model := (SqlRule.entry c.dialect.features c.kind).run

/-- Analyses a text that one is asked to leave after some checks, or not at all. -/
def runUntil (c : AnalysisCase) (cancelAfter : Option Nat) (text : String) : AnalysisOutcome :=
  let st := { State.ofText text.toList with cancelAfter := cancelAfter }
  (c.dialect.eval c.rule st).1.mapError .ofFailure

def parse (c : AnalysisCase) (text : String) : AnalysisOutcome := c.runUntil none text

/-- How the case is listed. -/
def listing (c : AnalysisCase) : String :=
  "AnalysisCase \x7b dialect: " ++ escaped c.dialect.name ++ ", model: " ++ c.kind.title ++
    ", .. \x7d"

end AnalysisCase

/-- Analyses a text in a dialect. -/
def Dialect.parse (d : Dialect) (kind : ModelKind) (text : String) : AnalysisOutcome :=
  match AnalysisCase.find d kind with
  | .ok c => c.parse text
  | .error e => .error e

end SqlTree
