import Mathlib.Data.List.Induction
import SqlTree.Proofs.Analysis.Sessions

namespace SqlTree

namespace Session

/-- An analysis is of that case and text, and so is its job once it was started. -/
def Serves (s : Session) (index : Nat) (case : AnalysisCase) (text : String) : Prop :=
  ∃ a, s.analyses[index]? = some a ∧ a.case = case ∧ a.text = text ∧
    ∀ id, a.job? = some id → ∃ j, s.scheduler.job? id = some j ∧ j.case = case ∧ j.text = text

section

variable {s : Session} {slots : Nat} {analyses : List Analysis} {e : SessionEvent}
  {events : List SessionEvent} {index id : Nat} {case : AnalysisCase} {text : String} {j : Job}

theorem opened_isShut : ((opened slots analyses).after events).scheduler.isShut = false := by
  induction events using List.reverseRecOn with
  | nil => rfl
  | append_singleton events e ih => simpa using ih

theorem opened_slots : ((opened slots analyses).after events).scheduler.slots = slots := by
  induction events using List.reverseRecOn with
  | nil => rfl
  | append_singleton events e ih => simpa using ih

/-- At no moment are more slots taken than there are. -/
theorem opened_held : ((opened slots analyses).after events).scheduler.held ≤ max slots 1 := by
  induction events using List.reverseRecOn with
  | nil => exact Nat.zero_le _
  | append_singleton events e ih =>
    have within : ((opened slots analyses).after events).scheduler.held ≤
        ((opened slots analyses).after events).scheduler.capacity := by
      rwa [Scheduler.capacity, opened_slots]
    have kept := apply_held (e := e) opened_isShut within
    rw [Scheduler.capacity, opened_slots] at kept
    rwa [after_append]

/-- No event changes what is analysed. -/
theorem onward_subject : (s.onward e id j).case = j.case ∧ (s.onward e id j).text = j.text := by
  cases e with
  | start => exact ⟨rfl, rfl⟩
  | cancel =>
    rw [onward]
    split <;> exact ⟨rfl, rfl⟩
  | conclude =>
    rw [onward]
    split
    · split <;> exact ⟨rfl, rfl⟩
    · exact ⟨rfl, rfl⟩
  | step =>
    rw [onward]
    split
    · exact j.step_subject _
    · exact ⟨rfl, rfl⟩

/-- Each event keeps the jobs at what their analyses are of. -/
theorem apply_serves (working : s.scheduler.isShut = false) (serves : s.Serves index case text) :
    (s.apply e).Serves index case text := by
  obtain ⟨a, found, sort, source, job⟩ := serves
  have kept : ∀ id, a.job? = some id →
      ∃ j, (s.apply e).scheduler.job? id = some j ∧ j.case = case ∧ j.text = text := by
    intro id started
    obtain ⟨j, there, sort, source⟩ := job id started
    exact ⟨_, apply_job? there, onward_subject.1.trans sort, onward_subject.2.trans source⟩
  cases e with
  | start other =>
    rcases s.start_cases other with same | ⟨b, there, unstarted⟩
    · refine ⟨a, ?_, sort, source, kept⟩
      rwa [apply, same]
    · by_cases same : other = index
      · obtain rfl : a = b := Option.some.inj (found.symm.trans (same ▸ there))
        obtain ⟨inside, -⟩ := List.getElem?_eq_some_iff.mp found
        rw [apply, start_first there unstarted]
        refine ⟨{ a with job? := some (s.scheduler.jobs.length + 1) }, ?_, sort, source, ?_⟩
        · rw [same]
          exact List.getElem?_set_self inside
        · intro id started
          obtain rfl := Option.some.inj started
          refine ⟨⟨a.case, a.text, .pending, .queued⟩, ?_, sort, source⟩
          simp [Scheduler.job?, Scheduler.submit, working]
      · refine ⟨a, ?_, sort, source, kept⟩
        rw [apply, start_first there unstarted]
        simpa [List.getElem?_set_ne same] using found
  | cancel other =>
    refine ⟨a, ?_, sort, source, kept⟩
    rw [apply, cancel]
    split <;> exact found
  | conclude other =>
    refine ⟨a, ?_, sort, source, kept⟩
    rw [apply, conclude]
    split <;> exact found
  | step => exact ⟨a, found, sort, source, kept⟩

/-- Every job is about the case and the text of the analysis that was started. -/
theorem opened_serves {a : Analysis} (unstarted : ∀ a ∈ analyses, a.job? = none)
    (given : analyses[index]? = some a) :
    ((opened slots analyses).after events).Serves index a.case a.text := by
  induction events using List.reverseRecOn with
  | nil =>
    refine ⟨a, given, rfl, rfl, fun id job => ?_⟩
    simp [unstarted a (List.mem_of_getElem? given)] at job
  | append_singleton events e ih =>
    rw [after_append]
    exact apply_serves opened_isShut ih

/-- What happened among some events and one more did so before, or it is the last one. -/
theorem happened_append {last : SessionEvent} {held : Session → Prop} :
    s.Happened (events ++ [last]) e held ↔ s.Happened events e held ∨ last = e ∧ held (s.after events) := by
  constructor
  · rintro ⟨earlier, later, split, there⟩
    rcases List.eq_nil_or_concat later with rfl | ⟨later, other, rfl⟩
    · obtain ⟨rfl, same⟩ := List.append_inj' split rfl
      exact .inr ⟨List.singleton_inj.mp same, there⟩
    · rw [List.concat_eq_append, ← List.cons_append, ← List.append_assoc] at split
      exact .inl ⟨earlier, later, (List.append_inj' split rfl).1, there⟩
  · rintro (⟨earlier, later, rfl, there⟩ | ⟨rfl, there⟩)
    · exact ⟨earlier, later ++ [last], by simp, there⟩
    · exact ⟨events, [], rfl, there⟩

/-- What happened has happened whatever else does. -/
theorem Happened.later {held : Session → Prop} (happened : s.Happened events e held)
    (later : List SessionEvent) : s.Happened (events ++ later) e held := by
  obtain ⟨earlier, between, rfl, there⟩ := happened
  exact ⟨earlier, between ++ later, by simp, there⟩

theorem Happened.mem {held : Session → Prop} (happened : s.Happened events e held) : e ∈ events := by
  obtain ⟨earlier, later, rfl, -⟩ := happened
  exact List.mem_append_right earlier List.mem_cons_self

/-- Whoever is told that he settled a job had begun to cancel it and found it pending. -/
theorem conclude_fst (told : (s.conclude id).1 = true) : ∃ j, s.scheduler.job? id = some j ∧
    j.handle.outcome? = none ∧ id ∈ s.calls := by
  rw [conclude] at told
  split at told
  · next called =>
    cases found : s.scheduler.job? id with
    | none => simp [Scheduler.conclude_of_none found] at told
    | some j => exact ⟨j, rfl, by simpa [Scheduler.conclude_fst found] using told, called⟩
  · cases told

/-- Whatever happens to a job that was cancelled in time, it stays cancelled. -/
theorem Won.outcome (won : s.Won events id) : ∃ j, (s.after events).scheduler.job? id = some j ∧
    j.handle.outcome? = some (.error .cancelled) := by
  obtain ⟨earlier, later, rfl, told⟩ := won
  obtain ⟨j, found, pending, called⟩ := conclude_fst told
  rw [after_append, after_cons]
  refine after_job? (P := fun j => j.handle.outcome? = some (.error .cancelled))
    (fun j free settled => Job.step_outcome? settled) (fun j settled => settled)
    (fun j settled => Job.cancelled_outcome? settled) (apply_job? found) ?_
  rw [onward, if_pos called, if_pos rfl, Job.cancelled, Handle.settle_outcome?, pending]
  rfl

/-- A job that nobody cancelled in time is as if nobody had tried to, unless somebody had begun to, and the
others are as if they were not there. -/
theorem untouched (found : ((opened slots analyses).after events).scheduler.job? id = some j)
    (unwon : ¬ (opened slots analyses).Won events id) :
    j.Untouched ((opened slots analyses).Asked events id) := by
  induction events using List.reverseRecOn generalizing j with
  | nil => cases id <;> simp [opened, Scheduler.withSlots, Scheduler.job?] at found
  | append_singleton events e ih =>
    rw [Won, happened_append, not_or] at unwon
    rw [after_append, after_cons, after_nil] at found
    have later : (opened slots analyses).Asked events id → (opened slots analyses).Asked (events ++ [e]) id :=
      fun asked => asked.later [e]
    cases there : ((opened slots analyses).after events).scheduler.job? id with
    | none =>
      obtain ⟨pending, queued⟩ := apply_job?_of_none opened_isShut there found
      exact .pending (by rw [pending]; rfl) (by simp [pending, Handle.pending]) (by simp [queued])
        (by simp [queued]) (by simp [queued])
    | some k =>
      obtain rfl := Option.some.inj ((apply_job? there).symm.trans found)
      have before := ih there unwon.1
      cases e with
      | start => exact before.mono later
      | cancel other =>
        rw [onward]
        split
        · next same =>
          refine before.requested.mono ?_
          rintro (asked | pending)
          · exact later asked
          · exact happened_append.mpr (.inr ⟨same ▸ rfl, k, there, pending⟩)
        · exact before.mono later
      | conclude other =>
        rw [onward]
        split
        · next called =>
          split
          · next same =>
            -- Only a job that had left its outcome can tell who cancels it that it is too late.
            have settled : k.handle.outcome? ≠ none := by
              have late := unwon.2
              subst same
              simpa [conclude, called, Scheduler.conclude_fst there] using late
            exact (before.cancelled settled).mono later
          · exact before.mono later
        · exact before.mono later
      | step other =>
        rw [onward]
        split
        · exact before.step.mono later
        · exact before.mono later

/-- A job that waits is cancelled in time, if anybody cancels it. -/
theorem won_of_queued (found : ((opened slots analyses).after events).scheduler.job? id = some j)
    (waits : j.phase = .queued) (called : id ∈ ((opened slots analyses).after events).calls) :
    (opened slots analyses).Won (events ++ [.conclude id]) id := by
  rw [Won, happened_append]
  by_cases won : (opened slots analyses).Won events id
  · exact .inl won
  · refine .inr ⟨rfl, ?_⟩
    cases untouched found won with
    | pending none => rw [conclude, if_pos called, Scheduler.conclude_fst found, none, Option.isNone_none]
    | settled _ _ phase => simp [waits] at phase

theorem after_steps (s : Session) (steps : List Nat) :
    (s.after (steps.map .step)).scheduler = steps.foldl Scheduler.step s.scheduler := by
  induction steps generalizing s with
  | nil => rfl
  | cons id steps ih => exact ih _

end

/-- How a session goes in which some events have happened since it was opened. -/
structure Orderly (slots : Nat) (analyses : List Analysis) (events : List SessionEvent) : Prop where
  /-- No more jobs hold a slot than there are slots. -/
  bounded : ((opened slots analyses).after events).scheduler.held ≤ max slots 1
  /-- Who holds a slot is done after a number of its own steps, whatever else happens meanwhile. -/
  released : ∀ id j, ((opened slots analyses).after events).scheduler.job? id = some j →
    j.phase.holds = true → ∃ n, ∀ later, n ≤ later.count (.step id) →
      ∃ k, ((opened slots analyses).after (events ++ later)).scheduler.job? id = some k ∧ k.phase = .done
  /-- The last step of who holds a slot gives it back. -/
  given : ∀ id j, ((opened slots analyses).after events).scheduler.job? id = some j → j.phase = .leaving →
    ((opened slots analyses).after (events ++ [.step id])).scheduler.held + 1 =
      ((opened slots analyses).after events).scheduler.held
  /-- Who is done never takes a slot again. -/
  rests : ∀ id j later, ((opened slots analyses).after events).scheduler.job? id = some j →
    j.phase = .done →
      ∃ k, ((opened slots analyses).after (events ++ later)).scheduler.job? id = some k ∧
        k.phase = .done
  /-- Nobody holds a slot when all jobs are done. -/
  returned : ((opened slots analyses).after events).scheduler.Idle →
    ((opened slots analyses).after events).scheduler.held = 0
  /-- At any time steps can be taken behind which all jobs are done. -/
  ends : ∃ steps : List Nat,
    ((opened slots analyses).after (events ++ steps.map .step)).scheduler.Idle
  /-- A job that is cancelled while it waits never takes a slot, and its steps parse nothing: all
  that they change is that it is done. -/
  spared : ∀ id j later, ((opened slots analyses).after events).scheduler.job? id = some j →
    j.phase = .queued → id ∈ ((opened slots analyses).after events).calls →
      ∃ k, ((opened slots analyses).after (events ++ .conclude id :: later)).scheduler.job? id = some k ∧
        (k.phase = .queued ∨ k.phase = .done) ∧ (∀ free, k.step free = { k with phase := .done }) ∧
          k.handle.outcome? = some (.error .cancelled)
  /-- A job that is asked to stop before it has a slot may take one, but then its parse ends as cancelled
  when it looks for the first time, before it reads anything. -/
  stopped : ∀ id j later, ((opened slots analyses).after events).scheduler.job? id = some j →
    j.phase.holds = false →
      ∃ k, ((opened slots analyses).after (events ++ .cancel id :: later)).scheduler.job? id = some k ∧
        (∀ passed, k.phase = .parsing passed → passed = 0) ∧
          ∀ outcome, k.phase = .parsed outcome → outcome = .error .cancelled
  /-- An analysis that nobody cancelled in time gives what its text gives, unless somebody had begun to
  cancel it before it was settled: then it may be cancelled as well. -/
  settled : ((opened slots analyses).after events).scheduler.Idle →
    ∀ index a id, analyses[index]? = some a →
      ((opened slots analyses).after events).jobOf? index = some id →
        ¬ (opened slots analyses).Won events id →
          ∃ j, ((opened slots analyses).after events).scheduler.job? id = some j ∧
            (j.handle.outcome? = some (a.case.parse a.text) ∨
              j.handle.outcome? = some (.error .cancelled) ∧ (opened slots analyses).Asked events id)
  /-- The number that is handed out is that of the analysis from then on. -/
  numbered : ∀ index id, (((opened slots analyses).after events).start index).1 = some id →
    ((opened slots analyses).after (events ++ [.start index])).jobOf? index = some id
  /-- To start an analysis again gives the same number and submits nothing. -/
  again : ∀ index id later, ((opened slots analyses).after events).jobOf? index = some id →
    ((opened slots analyses).after (events ++ later)).start index =
      (some id, (opened slots analyses).after (events ++ later))
  /-- The numbers are handed out one after the other. -/
  counted : ∃ count, (opened slots analyses).numbers events = List.range' 1 count ∧
    ((opened slots analyses).after events).scheduler.jobs.length = count

/-- Whatever is started, cancelled and run in whatever order, analyses share the slots and give what
their texts give. -/
theorem orderly (slots : Nat) (analyses : List Analysis) (events : List SessionEvent)
    (prepared : ∀ a ∈ analyses, ∃ d, Analysis.prepare d a.case a.text = .ok a) :
    Orderly slots analyses events where
  bounded := opened_held
  released id j found holds := by
    obtain ⟨n, leaves⟩ := Job.exists_leaves holds
    exact ⟨n, fun later enough => after_append ▸ after_leaves found leaves enough⟩
  given id j found leaving := by
    rw [after_append]
    exact Scheduler.step_releases found leaving
  rests id j later found ended := by
    rw [after_append]
    exact after_job? (P := fun j => j.phase = .done)
      (fun j free ended => by rw [Job.step_done ended, ended]) (fun j ended => ended)
      (fun j ended => ended) found ended
  returned := Scheduler.Idle.held_eq_zero
  ends := by
    obtain ⟨_, ⟨steps, rfl⟩, idle⟩ := Scheduler.exists_idle ((opened slots analyses).after events).scheduler
    refine ⟨steps, ?_⟩
    rw [after_append, after_steps]
    exact idle
  spared id j later found waits called := by
    have won : (opened slots analyses).Won (events ++ .conclude id :: later) id := by
      have told := (won_of_queued found waits called).later later
      rwa [List.append_assoc] at told
    obtain ⟨k, there, cancelled⟩ := won.outcome
    have unheld : ∃ k, ((opened slots analyses).after (events ++ .conclude id :: later)).scheduler.job? id =
        some k ∧ k.Spared := by
      rw [after_append, after_cons]
      refine after_job? (fun j free spared => spared.step) (fun j spared => ⟨spared.1, spared.2⟩)
        (fun j spared => spared.cancelled) (apply_job? found) ?_
      rw [onward, if_pos called, if_pos rfl]
      exact Job.cancelled_spared waits
    obtain ⟨_, same, spared⟩ := unheld
    obtain rfl := Option.some.inj (there.symm.trans same)
    exact ⟨k, there, spared.waits, spared.step_eq, cancelled⟩
  stopped id j later found unheld := by
    rw [after_append, after_cons]
    have asked : (((opened slots analyses).after events).onward (.cancel id) id j).Stopped := by
      rw [onward, if_pos rfl]
      exact Job.requested_stopped unheld
    obtain ⟨k, there, stopped⟩ := after_job? (fun j free stopped => stopped.step)
      (fun j stopped => stopped.requested_again) (fun j stopped => stopped.cancelled) (apply_job? found) asked
    exact ⟨k, there, stopped.passed, stopped.parsed⟩
  settled idle index a id given started unwon := by
    have unstarted : ∀ a ∈ analyses, a.job? = none := by
      intro a mem
      obtain ⟨d, ok⟩ := prepared a mem
      rw [Analysis.prepare] at ok
      split at ok
      · rw [← Except.ok.inj ok]
      · simp at ok
    have serves : ((opened slots analyses).after events).Serves index a.case a.text :=
      opened_serves unstarted given
    obtain ⟨b, found, -, -, job⟩ := serves
    obtain ⟨j, there, sort, source⟩ := job id (by simpa [jobOf?, found] using started)
    refine ⟨j, there, ?_⟩
    cases untouched there unwon with
    | pending _ _ _ undone => exact absurd (idle id j there) undone
    | settled outcome gives =>
      rw [outcome, ← sort, ← source]
      exact gives.imp (congrArg some) fun late => ⟨congrArg some late.1, late.2⟩
  numbered index id given := by
    rw [after_append, after_cons, after_nil]
    exact jobOf?_start given
  again index id later started := by
    rw [after_append]
    exact start_again (after_jobOf? started)
  counted := by
    obtain ⟨count, total, given⟩ := numbers_next (opened slots analyses) events
    exact ⟨count, given, by simpa [opened, Scheduler.withSlots] using total⟩

/-- Of two analyses that share a slot, one is started twice and the other one is cancelled while it
waits. -/
theorem sqlite_queries_orderly :
    Orderly 0 [⟨⟨.sqlite, .statement, by decide⟩, "SELECT 1", none⟩,
        ⟨⟨.mysql, .select, by decide⟩, "SELECT a FROM t", none⟩]
      [.start 0, .start 1, .step 1, .step 2, .start 0, .cancel 2, .conclude 2, .step 1, .step 2] := by
  refine orderly _ _ _ fun a mem => ⟨a.case.dialect, ?_⟩
  have unstarted : a.job? = none := by
    simp only [List.mem_cons, List.not_mem_nil, or_false] at mem
    rcases mem with rfl | rfl <;> rfl
  rw [Analysis.prepare, if_pos rfl, ← unstarted]

/-- Outcomes do depend on when somebody cancels. An analysis that was asked to stop may be settled as cancelled
before whoever asked it comes to settle it, who is then told to be late. An analysis that has just seen that it
is pending takes a slot although it is cancelled before it does. -/
theorem sqlite_query_raced :
    let s := opened 1 [⟨⟨.sqlite, .statement, by decide⟩, "SELECT 1", none⟩]
    let asked : List SessionEvent := [.start 0, .step 1, .step 1, .cancel 1, .step 1, .step 1, .step 1]
    let late := asked ++ [.conclude 1]
    let early : List SessionEvent := [.start 0, .step 1, .cancel 1, .conclude 1]
    ((s.after late).scheduler.Idle ∧ (s.after late).jobOf? 0 = some 1 ∧ ¬ s.Won late 1 ∧
      ∃ j, (s.after late).scheduler.job? 1 = some j ∧ j.handle.outcome? = some (.error .cancelled) ∧
        j.handle.outcome? ≠ some (j.case.parse j.text)) ∧
    s.Won early 1 ∧ (s.after early).scheduler.held = 0 ∧ (s.after (early ++ [.step 1])).scheduler.held = 1 := by
  intro s asked late early
  refine ⟨⟨?idle, rfl, ?unwon, _, rfl, rfl, fun same => ?unlike⟩, ⟨[.start 0, .step 1, .cancel 1], [], rfl, rfl⟩,
    rfl, rfl⟩
  case idle =>
    intro id j found
    obtain ⟨index, -, there⟩ := Scheduler.job?_eq_some.mp found
    obtain rfl := List.mem_singleton.mp (List.mem_of_getElem? there)
    rfl
  case unwon =>
    intro won
    rcases happened_append.mp won with earlier | ⟨-, told⟩
    · exact absurd earlier.mem (by decide)
    · cases told
  case unlike => exact AnalysisCase.parse_ne_cancelled _ _ (Option.some.inj same).symm

end Session

end SqlTree
