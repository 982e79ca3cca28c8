import Mathlib.Logic.Relation
import SqlTree.Proofs.Tree.Along

namespace SqlTree

/-- A rule that is evaluated in a state, with so many levels of nesting below it. -/
structure Visit (Sym : Type → Type) where
  {α : Type}
  limit : Nat
  rule : Rule Sym α
  st : State

section

variable {Sym : Type → Type} (rules : LexicalRules) (body : ∀ α : Type, Sym α → Rule Sym α)

/-- The repetitions of a step that a loop goes through: each of them gave something and moved on. -/
inductive Rule.Repeating {σ : Type} (limit : Nat) (step : σ → Rule Sym (Option σ)) (x : σ) (st : State) :
    σ → State → Prop
  | start : Repeating limit step x st x st
  | next {y z mid after} : Repeating limit step x st y mid →
      (step y).eval rules (Rule.levels rules body limit) mid = (.ok (some z), after) →
      mid.position.offset < after.position.offset → Repeating limit step x st z after

/-- The rules that the evaluation of a rule evaluates directly. -/
inductive Visit.Starts : Visit Sym → Visit Sym → Prop
  | first {α β limit st} {first : Rule Sym α} {next : α → Rule Sym β} :
      Starts ⟨limit, .bind first next, st⟩ ⟨limit, first, st⟩
  | next {α β limit st value mid} {first : Rule Sym α} {next : α → Rule Sym β} :
      first.eval rules (Rule.levels rules body limit) st = (.ok value, mid) →
      Starts ⟨limit, .bind first next, st⟩ ⟨limit, next value, mid⟩
  | tried {α limit st checked} {rule : Rule Sym α} {other : Mismatch → Rule Sym α} :
      st.checkCancelled = (.ok (), checked) →
      Starts ⟨limit, .orElse rule other, st⟩ ⟨limit, rule, checked.mark.2⟩
  | other {α limit st checked m after} {rule : Rule Sym α} {other : Mismatch → Rule Sym α} :
      st.checkCancelled = (.ok (), checked) →
      rule.eval rules (Rule.levels rules body limit) checked.mark.2 = (.error (.mismatch m), after) →
      Starts ⟨limit, .orElse rule other, st⟩ ⟨limit, other m, after.rewind checked.mark.1⟩
  | lookahead {α limit st} {rule : Rule Sym α} :
      Starts ⟨limit, .lookahead rule, st⟩ ⟨limit, rule, st.mark.2⟩
  | reporting {α limit st} {rule : Rule Sym α} :
      Starts ⟨limit, .reporting rule, st⟩ ⟨limit, rule, st⟩
  | nested {α limit st} {rule : Rule Sym α} :
      Starts ⟨limit + 1, .nested rule, st⟩ ⟨limit, rule, st.enter⟩
  | step {σ limit st x mid} {step : σ → Rule Sym (Option σ)} {first : σ} :
      Rule.Repeating rules body limit step first st x mid →
      Starts ⟨limit, .loop step first, st⟩ ⟨limit, step x, mid⟩
  | call {α limit st} {name : Sym α} :
      Starts ⟨limit + 1, .call name, st⟩ ⟨limit, body α name, st.enter⟩

/-- A rule is evaluated on the way while another one is, or is that rule. -/
abbrev Visit.Covers : Visit Sym → Visit Sym → Prop := Relation.ReflTransGen (Visit.Starts rules body)

/-- A rule is evaluated on the way while another one is. -/
abbrev Visit.Inside : Visit Sym → Visit Sym → Prop := Relation.TransGen (Visit.Starts rules body)

end

section

variable {Sym : Type → Type} {rules : LexicalRules} {body : ∀ α : Type, Sym α → Rule Sym α}
  {v w : Visit Sym} {s : Tape} {text : List Char} {saved : List StateMark}

/-- What follows a rule that succeeds is evaluated behind it. -/
theorem Rule.eval_bind_ok {α β : Type} {first : Rule Sym α} {next : α → Rule Sym β}
    {levels : List (Level Sym)} {st after : State} {value : β}
    (eval : (first >>= next).eval rules levels st = (.ok value, after)) :
    ∃ x mid, first.eval rules levels st = (.ok x, mid) ∧
      (next x).eval rules levels mid = (.ok value, after) := by
  change (first.bind next).eval rules levels st = _ at eval
  rw [Rule.eval] at eval
  split at eval
  · rename_i x mid fits
    exact ⟨x, mid, fits, eval⟩
  · cases eval

/-- What an optional rule gives was given by the rule, which was evaluated on the way. -/
theorem Rule.eval_optional_some {α : Type} {rule : Rule Sym α} {limit : Nat} {st after : State}
    {value : α} (eval : rule.optional.eval rules (Rule.levels rules body limit) st =
      (.ok (some value), after)) :
    ∃ before behind, Visit.Inside rules body ⟨limit, rule.optional, st⟩ ⟨limit, rule, before⟩ ∧
      rule.eval rules (Rule.levels rules body limit) before = (.ok value, behind) := by
  change (orElse (rule.bind fun value => Rule.pure (some value)) fun m =>
    (Rule.note m).bind fun _ => Rule.pure none).eval rules _ st = _ at eval
  simp only [Rule.eval] at eval
  split at eval
  · cases eval
  · rename_i checked asked
    have inside : Visit.Inside rules body ⟨limit, rule.optional, st⟩ ⟨limit, rule, checked.mark.2⟩ :=
      .tail (.single (.tried asked)) .first
    rcases found : rule.eval rules (Rule.levels rules body limit) checked.mark.2 with
      ⟨⟨_ | _ | _ | _⟩ | value', behind⟩ <;> rw [found] at eval <;> cases eval
    exact ⟨_, behind, inside, found⟩

/-- The repetitions of a loop go on in the text. -/
theorem Rule.Repeating.tracks {σ : Type} {limit : Nat} {step : σ → Rule Sym (Option σ)} {x y : σ}
    {st mid : State} (repeating : Rule.Repeating rules body limit step x st y mid)
    (tracks : Tracks rules st s) : ∃ t, Tracks rules mid t ∧ s.Leads t := by
  induction repeating with
  | start => exact ⟨s, tracks, .refl s⟩
  | @next y z mid after _ eval _ ih =>
    obtain ⟨t, tracks', leads⟩ := ih
    have agrees := eval ▸ tracks'.agrees body limit (step y)
    exact ⟨_, agrees.tracks, leads.trans ((step y).read_leads (Rule.tapeLevels_forward body limit) t)⟩

/-- What is evaluated on the way stands further on in the text, or at the same place. -/
theorem Visit.Starts.tracks (starts : v.Starts rules body w) (tracks : Tracks rules v.st s) :
    ∃ t, Tracks rules w.st t ∧ s.Leads t := by
  have forward := Rule.tapeLevels_forward body
  cases starts with
  | first => exact ⟨s, tracks, .refl s⟩
  | @next _ _ limit _ _ _ first _ eval =>
    have agrees := eval ▸ tracks.agrees body limit first
    exact ⟨_, agrees.tracks, first.read_leads (forward limit) s⟩
  | tried checked =>
    have checks := checked ▸ tracks.checkCancelled
    exact ⟨_, checks.tracks.mark, s.leads_checkCancelled⟩
  | @other _ limit _ _ _ _ rule _ checked eval =>
    have checks := checked ▸ tracks.checkCancelled
    have agrees := eval ▸ checks.tracks.mark.agrees body limit rule
    have leads := rule.read_leads (forward limit) s.checkCancelled.2
    exact ⟨_, (checks.tracks.rewind agrees.tracks leads agrees.marks).1,
      s.leads_checkCancelled.trans leads.backTo⟩
  | lookahead => exact ⟨s, tracks.mark, .refl s⟩
  | reporting => exact ⟨s, tracks, .refl s⟩
  | nested => exact ⟨s, tracks.enter, .refl s⟩
  | step repeating => exact repeating.tracks tracks
  | call => exact ⟨s, tracks.enter, .refl s⟩

/-- All that is evaluated on the way stands further on in the text. -/
theorem Visit.Covers.tracks (covers : v.Covers rules body w) (tracks : Tracks rules v.st s) :
    ∃ t, Tracks rules w.st t ∧ s.Leads t := by
  induction covers with
  | refl => exact ⟨s, tracks, .refl s⟩
  | tail _ starts ih =>
    obtain ⟨t, tracks', leads⟩ := ih
    obtain ⟨u, tracks'', leads'⟩ := starts.tracks tracks'
    exact ⟨u, tracks'', leads.trans leads'⟩

/-- The states on the way are reachable. -/
theorem Visit.Starts.reachable (starts : v.Starts rules body w)
    (reach : Reachable rules text saved v.st) : ∃ saved', Reachable rules text saved' w.st := by
  cases starts with
  | first => exact ⟨_, reach⟩
  | @next _ _ limit _ _ _ first _ eval =>
    have later := reach.rule body limit first
    rw [eval] at later
    exact ⟨_, later⟩
  | tried checked =>
    have later := reach.checkCancelled.mark
    rw [checked] at later
    exact ⟨_, later⟩
  | @other _ limit _ _ _ _ rule _ checked eval =>
    have later := reach.checkCancelled.mark
    rw [checked] at later
    have behind := later.rule body limit rule
    rw [eval] at behind
    exact ⟨_, @Reachable.rewind _ _ [] _ _ _ behind⟩
  | lookahead => exact ⟨_, reach.mark⟩
  | reporting => exact ⟨_, reach⟩
  | nested => exact ⟨_, reach.enter⟩
  | @step _ limit _ _ _ step _ repeating =>
    refine ⟨saved, ?_⟩
    induction repeating with
    | start => exact reach
    | @next y z mid after _ eval _ ih =>
      have later := ih.rule body limit (step y)
      rwa [eval] at later
  | call => exact ⟨_, reach.enter⟩

/-- All states on the way are reachable. -/
theorem Visit.Covers.reachable (covers : v.Covers rules body w)
    (reach : Reachable rules text saved v.st) : ∃ saved', Reachable rules text saved' w.st := by
  induction covers with
  | refl => exact ⟨saved, reach⟩
  | tail _ starts ih =>
    obtain ⟨saved', reach'⟩ := ih
    exact starts.reachable reach'

end

/-- A rule that evaluates no other rule. -/
def Rule.Atomic {Sym : Type → Type} {α : Type} : Rule Sym α → Prop
  | bind _ _ | orElse _ _ | lookahead _ | reporting _ | nested _ | loop _ _ | call _ => False
  | _ => True

/-- A rule that takes a level of nesting. -/
def Rule.Deepens {Sym : Type → Type} {α : Type} : Rule Sym α → Prop
  | nested _ | call _ => True
  | _ => False

/-- An outcome with its mismatch put at the furthest place that any mismatch put aside has. -/
def State.reported {α : Type} : Outcome α → Outcome α
  | (.error (.mismatch m), after) =>
    let (furthest, after) := after.report m
    (.error (.mismatch furthest), after)
  | outcome => outcome

/-- What a rule gives if nothing bounds its evaluation. A rule that would nest without end, and one with a
loop that would go on without end, gives nothing. -/
inductive Rule.Results {Sym : Type → Type} (rules : LexicalRules) (body : ∀ α : Type, Sym α → Rule Sym α) :
    ∀ {α : Type}, Rule Sym α → State → Outcome α → Prop
  | atom {α : Type} {rule : Rule Sym α} {st} : rule.Atomic → Results rules body rule st (rule.eval rules [] st)
  | bind {α β : Type} {first : Rule Sym α} {next : α → Rule Sym β} {st value mid outcome} :
      Results rules body first st (.ok value, mid) → Results rules body (next value) mid outcome →
      Results rules body (.bind first next) st outcome
  | bindFails {α β : Type} {first : Rule Sym α} {next : α → Rule Sym β} {st failure after} :
      Results rules body first st (.error failure, after) →
      Results rules body (.bind first next) st (.error failure, after)
  | cancelled {α : Type} {rule : Rule Sym α} {other : Mismatch → Rule Sym α} {st failure after} :
      st.checkCancelled = (.error failure, after) →
      Results rules body (.orElse rule other) st (.error failure, after)
  | fits {α : Type} {rule : Rule Sym α} {other : Mismatch → Rule Sym α} {st checked value after} :
      st.checkCancelled = (.ok (), checked) →
      Results rules body rule checked.mark.2 (.ok value, after) →
      Results rules body (.orElse rule other) st (.ok value, after.release checked.mark.1)
  | other {α : Type} {rule : Rule Sym α} {other : Mismatch → Rule Sym α} {st checked m after outcome} :
      st.checkCancelled = (.ok (), checked) →
      Results rules body rule checked.mark.2 (.error (.mismatch m), after) →
      Results rules body (other m) (after.rewind checked.mark.1) outcome →
      Results rules body (.orElse rule other) st outcome
  | terminal {α : Type} {rule : Rule Sym α} {other : Mismatch → Rule Sym α} {st checked failure after} :
      st.checkCancelled = (.ok (), checked) →
      Results rules body rule checked.mark.2 (.error failure, after) → failure.isTerminal →
      Results rules body (.orElse rule other) st (.error failure, after.rewind checked.mark.1)
  | lookahead {α : Type} {rule : Rule Sym α} {st result after} :
      Results rules body rule st.mark.2 (result, after) →
      Results rules body (.lookahead rule) st (result, after.rewind st.mark.1)
  | reporting {α : Type} {rule : Rule Sym α} {st outcome} :
      Results rules body rule st outcome → Results rules body (.reporting rule) st (State.reported outcome)
  | nested {α : Type} {rule : Rule Sym α} {st outcome} :
      Results rules body rule st.enter outcome → Results rules body (.nested rule) st (State.leave outcome)
  | call {α : Type} {name : Sym α} {st outcome} :
      Results rules body (body α name) st.enter outcome →
      Results rules body (.call name) st (State.leave outcome)
  | loopGoesOn {σ : Type} {step : σ → Rule Sym (Option σ)} {x y st mid outcome} :
      Results rules body (step x) st (.ok (some y), mid) → Results rules body (.loop step y) mid outcome →
      Results rules body (.loop step x) st outcome
  | loopEnds {σ : Type} {step : σ → Rule Sym (Option σ)} {x st after} :
      Results rules body (step x) st (.ok none, after) → Results rules body (.loop step x) st (.ok x, after)
  | loopFails {σ : Type} {step : σ → Rule Sym (Option σ)} {x st failure after} :
      Results rules body (step x) st (.error failure, after) →
      Results rules body (.loop step x) st (.error failure, after)

section

variable {Sym : Type → Type} {rules : LexicalRules} {body : ∀ α : Type, Sym α → Rule Sym α}

/-- A rule that reports does so from the mismatches put aside. -/
theorem Rule.eval_reporting {α : Type} (rule : Rule Sym α) (levels : List (Level Sym)) (st : State) :
    (Rule.reporting rule).eval rules levels st = State.reported (rule.eval rules levels st) := by
  simp only [Rule.eval]
  rcases rule.eval rules levels st with ⟨⟨_ | _ | _ | _⟩ | value, after⟩ <;> rfl

/-- A rule gives one thing at most. -/
theorem Rule.Results.unique {α : Type} {rule : Rule Sym α} {st : State} {outcome other : Outcome α}
    (results : Rule.Results rules body rule st outcome) (again : Rule.Results rules body rule st other) :
    other = outcome := by
  induction results with
  | atom atomic =>
    cases again with
    | atom => rfl
    | _ => exact atomic.elim
  | bind _ _ ihFirst ihNext =>
    cases again with
    | atom atomic => exact atomic.elim
    | bind first next =>
      cases ihFirst first
      exact ihNext next
    | bindFails first => cases ihFirst first
  | bindFails _ ih =>
    cases again with
    | atom atomic => exact atomic.elim
    | bind first => cases ih first
    | bindFails first => cases ih first; rfl
  | cancelled checked =>
    cases again with
    | atom atomic => exact atomic.elim
    | cancelled checked' => cases checked.symm.trans checked'; rfl
    | fits checked' | other checked' | terminal checked' => cases checked.symm.trans checked'
  | fits checked _ ih =>
    cases again with
    | atom atomic => exact atomic.elim
    | cancelled checked' => cases checked.symm.trans checked'
    | fits checked' inner => cases checked.symm.trans checked'; cases ih inner; rfl
    | other checked' inner | terminal checked' inner =>
      cases checked.symm.trans checked'
      cases ih inner
  | other checked _ _ ih ihOther =>
    cases again with
    | atom atomic => exact atomic.elim
    | cancelled checked' => cases checked.symm.trans checked'
    | fits checked' inner => cases checked.symm.trans checked'; cases ih inner
    | other checked' inner rest =>
      cases checked.symm.trans checked'
      cases ih inner
      exact ihOther rest
    | terminal checked' inner final =>
      cases checked.symm.trans checked'
      cases ih inner
      cases final
  | terminal checked _ final ih =>
    cases again with
    | atom atomic => exact atomic.elim
    | cancelled checked' => cases checked.symm.trans checked'
    | fits checked' inner => cases checked.symm.trans checked'; cases ih inner
    | other checked' inner =>
      cases checked.symm.trans checked'
      cases ih inner
      cases final
    | terminal checked' inner => cases checked.symm.trans checked'; cases ih inner; rfl
  | lookahead _ ih =>
    cases again with
    | atom atomic => exact atomic.elim
    | lookahead inner => cases ih inner; rfl
  | reporting _ ih =>
    cases again with
    | atom atomic => exact atomic.elim
    | reporting inner => cases ih inner; rfl
  | nested _ ih =>
    cases again with
    | atom atomic => exact atomic.elim
    | nested inner => cases ih inner; rfl
  | call _ ih =>
    cases again with
    | atom atomic => exact atomic.elim
    | call inner => cases ih inner; rfl
  | loopGoesOn _ _ ihStep ihRest =>
    cases again with
    | atom atomic => exact atomic.elim
    | loopGoesOn step rest =>
      cases ihStep step
      exact ihRest rest
    | loopEnds step | loopFails step => cases ihStep step
  | loopEnds _ ih =>
    cases again with
    | atom atomic => exact atomic.elim
    | loopGoesOn step | loopFails step => cases ih step
    | loopEnds step => cases ih step; rfl
  | loopFails _ ih =>
    cases again with
    | atom atomic => exact atomic.elim
    | loopGoesOn step | loopEnds step => cases ih step
    | loopFails step => cases ih step; rfl

/-- Nothing bounds the evaluation of a rule: there is a level of nesting left wherever one is taken, and
the steps with which its loops go on move on in the text. -/
structure Visit.Unbounded (rules : LexicalRules) (body : ∀ α : Type, Sym α → Rule Sym α)
    (v : Visit Sym) : Prop where
  levels : ∀ w, v.Covers rules body w → w.rule.Deepens → 0 < w.limit
  moves : ∀ {σ : Type} {limit step} {x y z : σ} {st mid after},
    v.Covers rules body ⟨limit, .loop step x, st⟩ →
    Rule.Repeating rules body limit step x st y mid →
    (step y).eval rules (Rule.levels rules body limit) mid = (.ok (some z), after) →
    mid.position.offset < after.position.offset

section

variable {v w : Visit Sym} {s : Tape}

/-- If nothing bounds a rule, nothing bounds what it evaluates. -/
theorem Visit.Unbounded.starts (unbounded : v.Unbounded rules body) (starts : v.Starts rules body w) :
    w.Unbounded rules body :=
  ⟨fun _ covers => unbounded.levels _ (.head starts covers),
    fun covers => unbounded.moves (.head starts covers)⟩

/-- A loop that moves on with each step ends of itself: the characters left are never used up before. -/
theorem Rule.Repeating.results {σ : Type} {limit : Nat} {step : σ → Rule Sym (Option σ)} {x y : σ}
    {st mid : State} {left : List Char} (repeating : Rule.Repeating rules body limit step x st y mid)
    (steps : ∀ {y mid}, Rule.Repeating rules body limit step x st y mid →
      Rule.Results rules body (step y) mid ((step y).eval rules (Rule.levels rules body limit) mid))
    (moves : ∀ {y z mid after}, Rule.Repeating rules body limit step x st y mid →
      (step y).eval rules (Rule.levels rules body limit) mid = (.ok (some z), after) →
      mid.position.offset < after.position.offset)
    (tracks : Tracks rules mid s) (supply : mid.reader.cursor.rest.length ≤ left.length) :
    Rule.Results rules body (.loop step y) mid
      (State.iterate (fun y => (step y).eval rules (Rule.levels rules body limit)) left y mid) := by
  induction left generalizing y mid s with
  | nil =>
    have done := steps repeating
    unfold State.iterate
    split <;> rename_i eval <;> rw [eval] at done
    · exact .loopFails done
    · exact .loopEnds done
    · obtain ⟨_, -, fewer⟩ := tracks.fewer eval (moves repeating eval)
      exact absurd (Nat.lt_of_lt_of_le fewer supply) (Nat.not_lt_zero _)
  | cons _ left ih =>
    have done := steps repeating
    unfold State.iterate
    split <;> rename_i eval <;> rw [eval] at done
    · exact .loopFails done
    · exact .loopEnds done
    · have further := moves repeating eval
      obtain ⟨s', tracks', fewer⟩ := tracks.fewer eval further
      rw [if_pos further]
      exact .loopGoesOn done (ih (.next repeating eval further) tracks'
        (Nat.le_of_lt_succ (Nat.lt_of_lt_of_le fewer supply)))

/-- Where nothing bounds the evaluation of a rule, it gives what the rule gives without bounds. -/
theorem Visit.Unbounded.results {limit : Nat} {α : Type} {rule : Rule Sym α} {st : State}
    (unbounded : Visit.Unbounded rules body ⟨limit, rule, st⟩) (tracks : Tracks rules st s) :
    Rule.Results rules body rule st (rule.eval rules (Rule.levels rules body limit) st) := by
  -- on the levels, for what a name stands for, and within a level on the rule
  induction limit using Nat.strongRecOn generalizing α rule st s with
  | ind limit ihLimit =>
    induction rule generalizing st s with
    | bind first next ihFirst ihNext =>
      have head := ihFirst (unbounded.starts .first) tracks
      simp only [Rule.eval]
      split <;> rename_i eval <;> rw [eval] at head
      · have starts : Visit.Starts rules body ⟨limit, .bind first next, st⟩ _ := .next eval
        obtain ⟨t, tracks', -⟩ := starts.tracks tracks
        exact .bind head (ihNext _ (unbounded.starts starts) tracks')
      · exact .bindFails head
    | orElse rule other ihRule ihOther =>
      simp only [Rule.eval]
      split
      · rename_i failure after asked
        exact .cancelled asked
      · rename_i checked asked
        have checks := asked ▸ tracks.checkCancelled
        have inner := ihRule (unbounded.starts (.tried asked)) checks.tracks.mark
        split <;> rename_i eval <;> rw [eval] at inner
        · exact .fits asked inner
        · have starts : Visit.Starts rules body ⟨limit, .orElse rule other, st⟩ _ := .other asked eval
          obtain ⟨t, tracks', -⟩ := starts.tracks tracks
          exact .other asked inner (ihOther _ (unbounded.starts starts) tracks')
        · rename_i failure after terminal
          refine .terminal asked inner ?_
          cases failure with
          | mismatch m => exact (terminal m rfl).elim
          | _ => rfl
    | lookahead rule ih => exact .lookahead (ih (unbounded.starts .lookahead) tracks.mark)
    | reporting rule ih =>
      have inner := Rule.Results.reporting (ih (unbounded.starts .reporting) tracks)
      rwa [← Rule.eval_reporting] at inner
    | nested rule =>
      cases limit with
      | zero => exact absurd (unbounded.levels _ .refl trivial) (Nat.lt_irrefl 0)
      | succ limit =>
        exact .nested (ihLimit limit (Nat.lt_succ_self limit) (unbounded.starts .nested) tracks.enter)
    | loop step first ih =>
      refine Rule.Repeating.results .start (fun repeating => ?_)
        (fun repeating eval => unbounded.moves .refl repeating eval) tracks (Nat.le_refl _)
      obtain ⟨t, tracks', -⟩ := repeating.tracks tracks
      exact ih _ (unbounded.starts (.step repeating)) tracks'
    | call name =>
      cases limit with
      | zero => exact absurd (unbounded.levels _ .refl trivial) (Nat.lt_irrefl 0)
      | succ limit =>
        exact .call (ihLimit limit (Nat.lt_succ_self limit) (unbounded.starts .call) tracks.enter)
    | _ => exact .atom trivial

end

end

end SqlTree
