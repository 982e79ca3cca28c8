import SqlTree.Dialect.Builtin
import SqlTree.Proofs.Analysis.Jobs

namespace SqlTree

/-- What happens next: somebody starts an analysis, somebody begins to cancel a job and asks it to stop,
somebody who has begun settles the job and is told whether it was pending, or a job goes on. -/
inductive SessionEvent where
  | start (index : Nat)
  | cancel (id : Nat)
  | conclude (id : Nat)
  | step (id : Nat)
  deriving DecidableEq

/-- Analyses, the scheduler that they are started on, and the jobs that somebody has begun to cancel. -/
structure Session where
  scheduler : Scheduler
  analyses : List Analysis
  calls : List Nat

namespace Session

/-- Before anything has happened. -/
def opened (slots : Nat) (analyses : List Analysis) : Session := ⟨.withSlots slots, analyses, []⟩

/-- Starts an analysis; tells the number of its job. -/
def start (s : Session) (index : Nat) : Option Nat × Session :=
  match s.analyses[index]? with
  | some a =>
    let (id, a, scheduler) := a.start s.scheduler
    (some id, ⟨scheduler, s.analyses.set index a, s.calls⟩)
  | none => (none, s)

/-- Begins to cancel a job that is there. -/
def cancel (s : Session) (id : Nat) : Session :=
  match s.scheduler.job? id with
  | some _ => { s with scheduler := s.scheduler.request id, calls := id :: s.calls }
  | none => s

/-- Ends to cancel a job if somebody has begun to; tells whether it was pending. -/
def conclude (s : Session) (id : Nat) : Bool × Session :=
  if id ∈ s.calls then
    ((s.scheduler.conclude id).1,
      { s with scheduler := (s.scheduler.conclude id).2, calls := s.calls.erase id })
  else (false, s)

/-- What an event leaves behind. -/
def apply (s : Session) : SessionEvent → Session
  | .start index => (s.start index).2
  | .cancel id => s.cancel id
  | .conclude id => (s.conclude id).2
  | .step id => { s with scheduler := s.scheduler.step id }

/-- What some events leave behind. -/
def after (s : Session) (events : List SessionEvent) : Session := events.foldl apply s

/-- The number of the job of an analysis, once it was started. -/
def jobOf? (s : Session) (index : Nat) : Option Nat := s.analyses[index]?.bind (·.job?)

/-- The number that an event hands out if it starts an analysis for the first time. -/
def number? (s : Session) : SessionEvent → Option Nat
  | .start index => if (s.jobOf? index).isNone then (s.start index).1 else none
  | .cancel _ | .conclude _ | .step _ => none

/-- The numbers that are handed out, in the order in which analyses are started for the first time. -/
def numbers (s : Session) : List SessionEvent → List Nat
  | [] => []
  | e :: events => (s.number? e).toList ++ (s.apply e).numbers events

/-- Among some events there is one, and something held when it came. -/
def Happened (s : Session) (events : List SessionEvent) (e : SessionEvent) (held : Session → Prop) : Prop :=
  ∃ earlier later, events = earlier ++ e :: later ∧ held (s.after earlier)

/-- Somebody who cancelled the job was told that this settled it. -/
def Won (s : Session) (events : List SessionEvent) (id : Nat) : Prop :=
  s.Happened events (.conclude id) fun s => (s.conclude id).1 = true

/-- Somebody began to cancel the job while it was pending. -/
def Asked (s : Session) (events : List SessionEvent) (id : Nat) : Prop :=
  s.Happened events (.cancel id) fun s => ∃ j, s.scheduler.job? id = some j ∧ j.handle.outcome? = none

/-- What an event does to a job that is there. -/
def onward (s : Session) (e : SessionEvent) (id : Nat) (j : Job) : Job :=
  match e with
  | .start _ => j
  | .cancel other => if id = other then j.requested else j
  | .conclude other => if other ∈ s.calls then (if id = other then j.cancelled else j) else j
  | .step other => if id = other then j.step (s.scheduler.held < s.scheduler.capacity) else j

section

variable {s : Session} {e : SessionEvent} {events : List SessionEvent} {index id : Nat} {a : Analysis}
  {j : Job}

@[simp]
theorem after_nil : s.after [] = s := rfl

@[simp]
theorem after_cons : s.after (e :: events) = (s.apply e).after events := rfl

@[simp]
theorem after_append {later : List SessionEvent} :
    s.after (events ++ later) = (s.after events).after later := List.foldl_append

/-- To start an analysis again changes nothing. -/
theorem start_again (started : s.jobOf? index = some id) : s.start index = (some id, s) := by
  obtain ⟨a, found, job⟩ := Option.bind_eq_some_iff.mp started
  have same : s.analyses.set index a = s.analyses := by
    obtain ⟨inside, rfl⟩ := List.getElem?_eq_some_iff.mp found
    exact List.set_getElem_self inside
  simp only [start, found, Analysis.start, job, same]

theorem start_missing (missing : s.analyses[index]? = none) : s.start index = (none, s) := by
  simp only [start, missing]

/-- To start an analysis for the first time submits it. -/
theorem start_first (found : s.analyses[index]? = some a) (unstarted : a.job? = none) :
    s.start index = (some (s.scheduler.jobs.length + 1),
      ⟨(s.scheduler.submit a.case a.text).2,
        s.analyses.set index { a with job? := some (s.scheduler.jobs.length + 1) }, s.calls⟩) := by
  simp only [start, found, Analysis.start, unstarted]
  rfl

/-- All that it can do to start an analysis. -/
theorem start_cases (s : Session) (index : Nat) : (s.start index).2 = s ∨
    ∃ a, s.analyses[index]? = some a ∧ a.job? = none := by
  cases found : s.analyses[index]? with
  | none => exact .inl (by rw [start_missing found])
  | some a =>
    cases job : a.job? with
    | none => exact .inr ⟨a, rfl, job⟩
    | some id =>
      have started : s.jobOf? index = some id := by simp [jobOf?, found, job]
      exact .inl (by rw [start_again started])

/-- The number that is handed out is that of the analysis from then on. -/
theorem jobOf?_start (given : (s.start index).1 = some id) : (s.start index).2.jobOf? index = some id := by
  cases found : s.analyses[index]? with
  | none => simp [start_missing found] at given
  | some a =>
    cases job : a.job? with
    | none =>
      obtain ⟨inside, -⟩ := List.getElem?_eq_some_iff.mp found
      rw [start_first found job] at given ⊢
      simpa [jobOf?, List.getElem?_set_self inside] using given
    | some number =>
      have started : s.jobOf? index = some number := by simp [jobOf?, found, job]
      rw [start_again started] at given ⊢
      rw [started, ← given]

theorem submit_job?_of_some {case : AnalysisCase} {text : String} (found : s.scheduler.job? id = some j) :
    (s.scheduler.submit case text).2.job? id = some j := by
  obtain ⟨index, rfl, there⟩ := Scheduler.job?_eq_some.mp found
  exact (List.getElem?_append_left (List.getElem?_eq_some_iff.mp there).1).trans there

/-- To begin to cancel an analysis is to ask its job to stop. -/
theorem cancel_scheduler : (s.cancel id).scheduler = s.scheduler.modify id Job.requested := by
  cases found : s.scheduler.job? id with
  | none => simp only [cancel, found, Scheduler.modify_of_none found]
  | some j =>
    simp only [cancel, found]
    rfl

/-- To end cancelling an analysis is to settle its job, if somebody has begun to. -/
theorem conclude_scheduler : (s.conclude id).2.scheduler =
    if id ∈ s.calls then s.scheduler.modify id Job.cancelled else s.scheduler := by
  rw [conclude]
  split
  · exact Scheduler.conclude_snd
  · rfl

/-- What starts nothing hands out no number and changes at most one job. -/
theorem apply_modifies (s : Session) (e : SessionEvent) : (∃ index, e = .start index) ∨
    s.number? e = none ∧ ∃ id f, (s.apply e).scheduler = s.scheduler.modify id f := by
  cases e with
  | start index => exact .inl ⟨index, rfl⟩
  | cancel id => exact .inr ⟨rfl, id, _, cancel_scheduler⟩
  | conclude id =>
    by_cases called : id ∈ s.calls
    · exact .inr ⟨rfl, id, _, conclude_scheduler.trans (if_pos called)⟩
    · exact .inr ⟨rfl, 0, Job.cancelled, conclude_scheduler.trans (if_neg called)⟩
  | step id => exact .inr ⟨rfl, id, _, rfl⟩

/-- An event does to a job what it does to no other one. -/
theorem apply_job? (found : s.scheduler.job? id = some j) :
    (s.apply e).scheduler.job? id = some (s.onward e id j) := by
  cases e with
  | start index =>
    rcases s.start_cases index with same | ⟨a, there, unstarted⟩
    · rw [apply, same, found, onward]
    · rw [apply, start_first there unstarted]
      exact submit_job?_of_some found
  | cancel other =>
    rw [apply, cancel_scheduler]
    exact Scheduler.job?_modify found other Job.requested
  | conclude other =>
    rw [apply, conclude_scheduler, onward]
    split
    · exact Scheduler.job?_modify found other Job.cancelled
    · exact found
  | step other => exact Scheduler.job?_modify found other _

/-- A job that was not there before waits, and nobody has touched it yet. -/
theorem apply_job?_of_none (working : s.scheduler.isShut = false) (missing : s.scheduler.job? id = none)
    (found : (s.apply e).scheduler.job? id = some j) : j.handle = .pending ∧ j.phase = .queued := by
  rcases s.apply_modifies e with ⟨index, rfl⟩ | ⟨-, other, f, changed⟩
  · rcases s.start_cases index with same | ⟨a, there, unstarted⟩
    · simp [apply, same, missing] at found
    · rw [apply, start_first there unstarted] at found
      obtain ⟨place, rfl, there⟩ := Scheduler.job?_eq_some.mp found
      have short : s.scheduler.jobs.length ≤ place := by simpa [Scheduler.job?] using missing
      simp only [Scheduler.submit, working, Bool.false_eq_true, if_false] at there
      rw [List.getElem?_append_right short] at there
      obtain rfl := List.mem_singleton.mp (List.mem_of_getElem? there)
      exact ⟨rfl, rfl⟩
  · rw [changed, Scheduler.job?_modify_of_none missing] at found
    cases found

@[simp]
theorem apply_slots : (s.apply e).scheduler.slots = s.scheduler.slots := by
  rcases s.apply_modifies e with ⟨index, rfl⟩ | ⟨-, other, f, changed⟩
  · rcases s.start_cases index with same | ⟨a, found, unstarted⟩
    · rw [apply, same]
    · rw [apply, start_first found unstarted]
      rfl
  · rw [changed, Scheduler.modify_slots]

@[simp]
theorem apply_isShut : (s.apply e).scheduler.isShut = s.scheduler.isShut := by
  rcases s.apply_modifies e with ⟨index, rfl⟩ | ⟨-, other, f, changed⟩
  · rcases s.start_cases index with same | ⟨a, found, unstarted⟩
    · rw [apply, same]
    · rw [apply, start_first found unstarted]
      rfl
  · rw [changed, Scheduler.modify_isShut]

/-- No event takes a slot that is not free. -/
theorem apply_held (working : s.scheduler.isShut = false)
    (within : s.scheduler.held ≤ s.scheduler.capacity) :
    (s.apply e).scheduler.held ≤ s.scheduler.capacity := by
  cases e with
  | start index =>
    rcases s.start_cases index with same | ⟨a, found, unstarted⟩
    · rwa [apply, same]
    · rw [apply, start_first found unstarted]
      simpa [Scheduler.submit, Scheduler.held, Phase.holds, working] using within
  | cancel id =>
    rw [apply, cancel_scheduler, Scheduler.held_modify_of_phase Job.requested_phase]
    exact within
  | conclude id =>
    rw [apply, conclude_scheduler]
    split
    · rw [Scheduler.held_modify_of_phase Job.cancelled_phase]
      exact within
    · exact within
  | step id => exact Scheduler.step_held within

/-- What every step keeps, and everybody who cancels, is kept by whatever happens. -/
theorem after_job? {P : Job → Prop} (keptByStep : ∀ j free, P j → P (j.step free))
    (keptByRequest : ∀ j, P j → P j.requested) (keptByCancel : ∀ j, P j → P j.cancelled)
    (found : s.scheduler.job? id = some j) (holds : P j) :
    ∃ k, (s.after events).scheduler.job? id = some k ∧ P k := by
  induction events generalizing s j with
  | nil => exact ⟨j, found, holds⟩
  | cons e events ih =>
    refine ih (apply_job? found) ?_
    cases e with
    | start => exact holds
    | cancel other =>
      rw [onward]
      split
      · exact keptByRequest j holds
      · exact holds
    | conclude other =>
      rw [onward]
      split
      · split
        · exact keptByCancel j holds
        · exact holds
      · exact holds
    | step other =>
      rw [onward]
      split
      · exact keptByStep j _ holds
      · exact holds

/-- A job on a slot leaves it after so many of its steps, whatever else happens. -/
theorem after_leaves {n : Nat} (found : s.scheduler.job? id = some j) (leaves : j.Leaves n)
    (enough : n ≤ events.count (.step id)) :
    ∃ k, (s.after events).scheduler.job? id = some k ∧ k.phase = .done := by
  induction events generalizing s j n with
  | nil =>
    obtain rfl := Nat.le_zero.mp enough
    exact ⟨j, found, leaves.phase_done⟩
  | cons e events ih =>
    by_cases own : e = .step id
    · subst own
      have there : (s.apply (.step id)).scheduler.job? id =
          some (j.step (s.scheduler.held < s.scheduler.capacity)) := Scheduler.job?_modify_self found
      rw [List.count_cons_self] at enough
      have nearer : j.Leaves (n - 1 + 1) := leaves.mono (by omega)
      exact ih there nearer.step (by omega)
    · rw [List.count_cons_of_ne own] at enough
      refine ih (apply_job? found) ?_ enough
      cases e with
      | start => exact leaves
      | cancel other =>
        rw [onward]
        split <;> exact leaves
      | conclude other =>
        rw [onward]
        split
        · split <;> exact leaves
        · exact leaves
      | step other =>
        have apart : id ≠ other := fun same => own (same ▸ rfl)
        rw [onward, if_neg apart]
        exact leaves

/-- Who was told the number of a job keeps it. -/
theorem apply_jobOf? (started : s.jobOf? index = some id) : (s.apply e).jobOf? index = some id := by
  cases e with
  | start other =>
    rcases s.start_cases other with same | ⟨a, found, unstarted⟩
    · rwa [apply, same]
    · have apart : other ≠ index := fun same => by
        simp [jobOf?, ← same, found, unstarted] at started
      rw [apply, start_first found unstarted]
      simpa [jobOf?, List.getElem?_set_ne apart] using started
  | cancel other =>
    rw [apply, cancel]
    split <;> exact started
  | conclude other =>
    rw [apply, conclude]
    split <;> exact started
  | step => exact started

/-- Who was told the number of a job keeps it whatever happens. -/
theorem after_jobOf? (started : s.jobOf? index = some id) : (s.after events).jobOf? index = some id := by
  induction events generalizing s with
  | nil => exact started
  | cons e events ih => exact ih (apply_jobOf? started)

/-- An event that submits an analysis hands out the next number. -/
theorem number?_next (s : Session) (e : SessionEvent) : ∃ count,
    (s.apply e).scheduler.jobs.length = s.scheduler.jobs.length + count ∧
      (s.number? e).toList = List.range' (s.scheduler.jobs.length + 1) count := by
  rcases s.apply_modifies e with ⟨index, rfl⟩ | ⟨unnumbered, id, f, changed⟩
  · cases found : s.analyses[index]? with
    | none => exact ⟨0, by simp [number?, apply, start_missing found]⟩
    | some a =>
      cases job : a.job? with
      | none =>
        exact ⟨1, by simp [number?, apply, jobOf?, found, job, start_first found job, Scheduler.submit]⟩
      | some id =>
        have started : s.jobOf? index = some id := by simp [jobOf?, found, job]
        exact ⟨0, by simp [number?, apply, started, start_again started]⟩
  · exact ⟨0, by rw [changed, Scheduler.modify_length, Nat.add_zero], by rw [unnumbered]; rfl⟩

/-- The numbers that are handed out go on from the number of jobs that are there. -/
theorem numbers_next (s : Session) (events : List SessionEvent) : ∃ count,
    (s.after events).scheduler.jobs.length = s.scheduler.jobs.length + count ∧
      s.numbers events = List.range' (s.scheduler.jobs.length + 1) count := by
  induction events generalizing s with
  | nil => exact ⟨0, rfl, rfl⟩
  | cons e events ih =>
    obtain ⟨first, grown, given⟩ := number?_next s e
    obtain ⟨rest, total, later⟩ := ih (s.apply e)
    refine ⟨first + rest, by rw [after_cons, total, grown, Nat.add_assoc], ?_⟩
    rw [numbers, given, later, grown, Nat.add_right_comm, List.range'_append_1]

end

end Session

end SqlTree
