import SqlTree.Analysis.Handle

namespace SqlTree

/-- How far a job has come. It waits for a slot, asks for one once more since its handle was pending, parses
on a slot after some looks whether it was asked to stop, has parsed, is about to leave the slot, or is done. -/
inductive Phase where
  | queued
  | asking
  | parsing (passed : Nat)
  | parsed (outcome : AnalysisOutcome)
  | leaving
  | done

/-- Whether a job holds a slot. -/
def Phase.holds : Phase → Bool
  | parsing _ | parsed _ | leaving => true
  | queued | asking | done => false

/-- A text to be analysed, with the place for the outcome. -/
structure Job where
  case : AnalysisCase
  text : String
  handle : Handle
  phase : Phase

/-- The jobs in the order in which they came, for a number of slots. Each step of a job is one that may come
at any time, between two steps of another one or of somebody who cancels. -/
structure Scheduler where
  slots : Nat
  jobs : List Job
  isShut : Bool

namespace Job

/-- Nobody goes on with the job. -/
def abandon (j : Job) : Job := { j with handle := j.handle.abandon, phase := .done }

/-- A parse goes on from behind some looks whether it was asked to stop, to its end or to the next look. -/
def parseOn (j : Job) (passed : Nat) : Phase :=
  match j.case.runUntil (some passed) j.text with
  | .error .cancelled => if j.handle.stopRequested then .parsed (.error .cancelled) else .parsing (passed + 1)
  | outcome => .parsed outcome

/-- The next step of a job, which may take a slot if one is free. It takes or changes one thing that others
see as well: its handle, or a slot. A job that was settled while it waited takes no slot. -/
def step (j : Job) (slotFree : Bool) : Job :=
  match j.phase with
  | .queued => if j.handle.isFinished then j.abandon else { j with phase := .asking }
  | .asking => { j with phase := if slotFree then .parsing 0 else .queued }
  | .parsing passed => { j with phase := j.parseOn passed }
  | .parsed outcome => { j with handle := (j.handle.settle outcome).2, phase := .leaving }
  | .leaving => j.abandon
  | .done => j

/-- Settles a job that holds a slot and gives the slot back. -/
def settle (j : Job) (outcome : AnalysisOutcome) : Job :=
  { j with handle := (j.handle.settle outcome).2, phase := .done }

/-- The steps of a job as far as it comes while nobody else does anything. -/
def finish (j : Job) (slotFree : Bool) : Job :=
  let outcome (passed : Nat) := j.case.runUntil (if j.handle.stopRequested then some passed else none) j.text
  match j.phase with
  | .queued =>
    if j.handle.isFinished then j.abandon else if slotFree then j.settle (outcome 0) else j
  | .asking => if slotFree then j.settle (outcome 0) else { j with phase := .queued }
  | .parsing passed => j.settle (outcome passed)
  | .parsed outcome => j.settle outcome
  | .leaving => j.abandon
  | .done => j

end Job

namespace Scheduler

/-- Without jobs. -/
def withSlots (slots : Nat) : Scheduler := ⟨slots, [], false⟩

/-- At least one slot is there. -/
def capacity (s : Scheduler) : Nat := max s.slots 1

/-- How many jobs hold a slot. -/
def held (s : Scheduler) : Nat := s.jobs.countP fun j => j.phase.holds

/-- The number of a job; the first one has the number one. -/
def job? (s : Scheduler) (id : Nat) : Option Job :=
  match id with
  | 0 => none
  | index + 1 => s.jobs[index]?

/-- Changes the job with a number. -/
def modify (s : Scheduler) (id : Nat) (f : Job → Job) : Scheduler :=
  match id with
  | 0 => s
  | index + 1 => { s with jobs := s.jobs.modify index f }

/-- Takes a text to be analysed, and tells the number of its job. -/
def submit (s : Scheduler) (case : AnalysisCase) (text : String) : Nat × Scheduler :=
  let job : Job := ⟨case, text, .pending, .queued⟩
  (s.jobs.length + 1, { s with jobs := s.jobs ++ [if s.isShut then job.abandon else job] })

/-- The next step of the job with a number. -/
def step (s : Scheduler) (id : Nat) : Scheduler :=
  s.modify id fun j => j.step (s.held < s.capacity)

/-- The first half of cancelling the job with a number: it is asked to stop. -/
def request (s : Scheduler) (id : Nat) : Scheduler :=
  s.modify id fun j => { j with handle := j.handle.request }

/-- The second half of cancelling the job with a number: it is settled, and the answer says whether it was
pending. Other things may happen between the two halves. -/
def conclude (s : Scheduler) (id : Nat) : Bool × Scheduler :=
  match s.job? id with
  | some j =>
    ((j.handle.settle (.error .cancelled)).1,
      s.modify id fun j => { j with handle := (j.handle.settle (.error .cancelled)).2 })
  | none => (false, s)

/-- Cancels the job with a number while nobody else does anything; says whether it was pending. -/
def cancel (s : Scheduler) (id : Nat) : Bool × Scheduler := (s.request id).conclude id

/-- Brings the jobs to their end, one after the other: each takes a slot and gives it back. -/
def drive (s : Scheduler) : Scheduler :=
  (List.range s.jobs.length).foldl
    (fun s index => s.modify (index + 1) fun j => j.finish (s.held < s.capacity)) s

/-- Abandons all jobs, those to come as well. -/
def shutDown (s : Scheduler) : Scheduler :=
  { s with jobs := s.jobs.map Job.abandon, isShut := true }

end Scheduler

/-- A text to be analysed as soon as somebody starts it. -/
structure Analysis where
  case : AnalysisCase
  text : String
  job? : Option Nat

namespace Analysis

/-- Only the dialect that a case was found in prepares an analysis from it. -/
def prepare (d : Dialect) (case : AnalysisCase) (text : String) : Except AnalysisError Analysis :=
  if case.dialect = d then .ok ⟨case, text, none⟩
  else
    .error (.unsupported
      s!"analysis case belongs to dialect {case.dialect.name}, not {d.name}")

/-- Submits an analysis unless it was started before; tells the number of its job. -/
def start (a : Analysis) (s : Scheduler) : Nat × Analysis × Scheduler :=
  match a.job? with
  | some id => (id, a, s)
  | none =>
    let (id, s) := s.submit a.case a.text
    (id, { a with job? := some id }, s)

/-- How an analysis is listed. -/
def listing (a : Analysis) (s : Scheduler) : String :=
  let handle :=
    match a.job? with
    | none => "None"
    | some id =>
      let finished := ((s.job? id).map (·.handle.isFinished)).getD false
      "Some(AnalysisHandle \x7b id: " ++ toString id ++ ", finished: " ++
        (if finished then "true" else "false") ++ " \x7d)"
  "Analysis \x7b case: " ++ a.case.listing ++ ", handle: " ++ handle ++ " \x7d"

end Analysis

end SqlTree
