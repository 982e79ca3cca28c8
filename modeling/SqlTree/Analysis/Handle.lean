import SqlTree.Analysis.Case

namespace SqlTree

/-- Where the outcome of an analysis is put, once, and where it is asked for. -/
structure Handle where
  outcome? : Option AnalysisOutcome
  /-- Whether the analysis was asked to stop. -/
  stopRequested : Bool

namespace Handle

/-- Waits for its outcome. -/
def pending : Handle := ⟨none, false⟩

def isFinished (h : Handle) : Bool := h.outcome?.isSome

/-- Puts an outcome in place unless there is one; says whether it did. -/
def settle (h : Handle) (outcome : AnalysisOutcome) : Bool × Handle :=
  match h.outcome? with
  | some _ => (false, h)
  | none => (true, { h with outcome? := some outcome })

/-- Asks the analysis to stop. -/
def request (h : Handle) : Handle := { h with stopRequested := true }

/-- Asks the analysis to stop and settles it as cancelled; says whether it was pending. -/
def cancel (h : Handle) : Bool × Handle := h.request.settle (.error .cancelled)

/-- What becomes of an analysis that nobody goes on with. -/
def abandoned : AnalysisError := .internal "analysis abandoned before it settled"

/-- Gives up whoever was to settle the handle. -/
def abandon (h : Handle) : Handle := (h.settle (.error abandoned)).2

end Handle

end SqlTree
