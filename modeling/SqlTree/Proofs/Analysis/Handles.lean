import SqlTree.Analysis.Handle

namespace SqlTree

/-- What is done with a handle: by the job, by whoever waits for its outcome, and by the guard that
goes with the job, when it is dropped. All clones of a handle share one slot, so calls through several clones,
from several threads, are one sequence of calls of one handle. -/
inductive HandleCall where
  | settle (outcome : AnalysisOutcome)
  | cancel
  | dropGuard
  | poll
  | isFinished
  | result

/-- What a call answers. The one that waits for an outcome has none as long as it waits. -/
inductive HandleReply where
  | wrote (now : Bool)
  | retrieved (outcome? : Option AnalysisOutcome)
  | finished (flag : Bool)

/-- The outcome that a call is to put in place. -/
def HandleCall.written? : HandleCall → Option AnalysisOutcome
  | settle outcome => some outcome
  | cancel => some (.error .cancelled)
  | dropGuard => some (.error Handle.abandoned)
  | poll | isFinished | result => none

namespace Handle

def reply (h : Handle) : HandleCall → HandleReply
  | .settle outcome => .wrote (h.settle outcome).1
  | .cancel => .wrote h.cancel.1
  | .dropGuard => .wrote (h.settle (.error abandoned)).1
  | .poll | .result => .retrieved h.outcome?
  | .isFinished => .finished h.isFinished

/-- A handle behind a call. -/
def behind (h : Handle) : HandleCall → Handle
  | .settle outcome => (h.settle outcome).2
  | .cancel => h.cancel.2
  | .dropGuard => h.abandon
  | .poll | .result | .isFinished => h

/-- A handle behind some calls. -/
def after (h : Handle) (calls : List HandleCall) : Handle := calls.foldl behind h

section

variable (h : Handle) (c : HandleCall) (outcome : AnalysisOutcome) (before later : List HandleCall)

@[simp]
theorem after_nil : h.after [] = h := rfl

@[simp]
theorem after_cons : h.after (c :: later) = (h.behind c).after later := rfl

@[simp]
theorem after_append : h.after (before ++ later) = (h.after before).after later := List.foldl_append

@[simp]
theorem settle_fst : (h.settle outcome).1 = h.outcome?.isNone := by
  cases found : h.outcome? <;> simp [settle, found]

/-- Whoever settles a handle does not overwrite what is there. -/
@[simp]
theorem settle_outcome? : (h.settle outcome).2.outcome? = h.outcome?.or (some outcome) := by
  cases found : h.outcome? <;> simp [settle, found]

@[simp]
theorem settle_stopRequested : (h.settle outcome).2.stopRequested = h.stopRequested := by
  cases found : h.outcome? <;> simp [settle, found]

@[simp]
theorem cancel_fst : h.cancel.1 = h.outcome?.isNone := settle_fst _ _

@[simp]
theorem cancel_outcome? : h.cancel.2.outcome? = h.outcome?.or (some (.error .cancelled)) :=
  settle_outcome? _ _

@[simp]
theorem cancel_stopRequested : h.cancel.2.stopRequested = true := settle_stopRequested _ _

/-- An outcome that is there stays; else there is the one that the call writes. -/
theorem behind_outcome? : (h.behind c).outcome? = h.outcome?.or c.written? := by
  cases c <;> simp [behind, HandleCall.written?, abandon]

/-- Only the first outcome that is written is ever there. -/
theorem after_outcome? :
    (h.after later).outcome? = h.outcome?.or (later.findSome? HandleCall.written?) := by
  induction later generalizing h with
  | nil => simp
  | cons c later ih =>
    rw [after_cons, ih, behind_outcome?, List.findSome?_cons, Option.or_assoc]
    cases c.written? <;> rfl

/-- An outcome that is there is there ever after. -/
theorem after_outcome?_of_some (found : h.outcome? = some outcome) :
    (h.after later).outcome? = some outcome := by
  rw [after_outcome?, found, Option.some_or]

theorem behind_stopRequested (asked : h.stopRequested = true) : (h.behind c).stopRequested = true := by
  cases c <;> simp [behind, abandon, asked]

/-- That somebody asked to stop is never forgotten. -/
theorem after_stopRequested (asked : h.stopRequested = true) :
    (h.after later).stopRequested = true := by
  induction later generalizing h with
  | nil => exact asked
  | cons c later ih => exact ih _ (h.behind_stopRequested c asked)

/-- A call that writes says whether nothing was written before. -/
theorem reply_of_written (writes : c.written? = some outcome) :
    h.reply c = .wrote h.outcome?.isNone := by
  cases c <;> simp_all [HandleCall.written?, reply]

end

/-- How a handle answers that nobody had used before some calls. -/
structure WritesOnce (before : List HandleCall) : Prop where
  /-- Of the calls that write, the first one says that it did, and no later one does. -/
  first : ∀ c outcome, c.written? = some outcome →
    (pending.after before).reply c = .wrote (before.all fun b => b.written?.isNone)
  /-- Nothing is there before that call. -/
  nothing : (∀ b ∈ before, b.written? = none) →
    (pending.after before).reply .poll = .retrieved none ∧
      (pending.after before).reply .result = .retrieved none
  /-- What that call wrote is there ever after. -/
  stays : ∀ earlier c outcome later, before = earlier ++ c :: later →
    (∀ b ∈ earlier, b.written? = none) → c.written? = some outcome →
      (pending.after before).reply .poll = .retrieved (some outcome) ∧
        (pending.after before).reply .result = .retrieved (some outcome)
  /-- It is finished when there is an outcome. -/
  finished : (pending.after before).reply .isFinished = .finished true ↔
    ∃ outcome, (pending.after before).reply .poll = .retrieved (some outcome)
  /-- To cancel writes just if nothing was there. -/
  cancels : (pending.after before).reply .cancel = .wrote true ↔
    (pending.after before).reply .poll = .retrieved none
  /-- After a cancel that has written nothing else is ever there. -/
  cancelled : (pending.after before).reply .cancel = .wrote true → ∀ later,
    (pending.after (before ++ .cancel :: later)).reply .poll = .retrieved (some (.error .cancelled)) ∧
      (pending.after (before ++ .cancel :: later)).reply .result =
        .retrieved (some (.error .cancelled))
  /-- To cancel asks the analysis to stop. -/
  asks : (pending.after (before ++ [.cancel])).stopRequested = true
  /-- That the analysis was asked to stop is never forgotten. -/
  asked : (pending.after before).stopRequested = true → ∀ later,
    (pending.after (before ++ later)).stopRequested = true
  /-- A guard that is dropped leaves an outcome behind, its own one only if there was none. -/
  guarded : (pending.after (before ++ [.dropGuard])).reply .poll =
    .retrieved (some (((pending.after before).outcome?).getD (.error abandoned)))

/-- A handle holds the first outcome that is written, whoever writes it and whatever else is done. -/
theorem writesOnce (before : List HandleCall) : WritesOnce before where
  first c outcome writes := by
    have none : (pending.after before).outcome?.isNone = before.all fun b => b.written?.isNone := by
      rw [Bool.eq_iff_iff, after_outcome?]
      simp [pending]
    rw [reply_of_written _ c outcome writes, none]
  nothing quiet := by
    have none : (pending.after before).outcome? = none := by
      simpa [after_outcome?, pending] using quiet
    simp [reply, none]
  stays := by
    rintro earlier c outcome later rfl quiet writes
    have none : earlier.findSome? HandleCall.written? = none := by simpa using quiet
    have there : (pending.after (earlier ++ c :: later)).outcome? = some outcome := by
      simp [after_outcome?, pending, none, behind_outcome?, writes]
    simp only [reply, there, and_self]
  finished := by simp [reply, isFinished, Option.isSome_iff_exists]
  cancels := by simp [reply]
  cancelled won later := by
    have none : (pending.after before).outcome? = none := by simpa [reply] using won
    have there : (pending.after (before ++ .cancel :: later)).outcome? = some (.error .cancelled) := by
      rw [after_append, after_cons]
      exact after_outcome?_of_some _ _ _ (by simp [behind, none])
    simp only [reply, there, and_self]
  asks := by rw [after_append, after_cons, after_nil, behind, cancel_stopRequested]
  asked set later := by
    rw [after_append]
    exact after_stopRequested _ _ set
  guarded := by
    simp only [after_append, after_cons, after_nil, behind, abandon, reply, settle_outcome?]
    cases (pending.after before).outcome? <;> rfl

end Handle

end SqlTree
