import SqlTree.Proofs.Reading.Moves

namespace SqlTree

/-- Whatever a rule gives from a tape fits, as the tape that it leaves does. -/
def Rule.Yields {Sym : Type → Type} {α : Type} (rule : Rule Sym α) (levels : List (TapeLevel Sym))
    (s : Tape) (post : α → Tape → Prop) : Prop :=
  ∀ value after, rule.read levels s = (.ok value, after) → post value after

namespace Rule

section

variable {Sym : Type → Type} {α β : Type} {levels : List (TapeLevel Sym)} {s : Tape}
  {post : α → Tape → Prop}

theorem Yields.mono {rule : Rule Sym α} {weaker : α → Tape → Prop} (yields : rule.Yields levels s post)
    (weaken : ∀ value after, post value after → weaker value after) :
    rule.Yields levels s weaker :=
  fun value after read => weaken value after (yields value after read)

theorem yields_pure (value : α) : (Pure.pure value : Rule Sym α).Yields levels s post ↔ post value s := by
  constructor
  · intro yields
    exact yields value s rfl
  · intro holds v after read
    cases read
    exact holds

/-- What a sequence gives fits if its rest makes it so behind all that its first rule gives. -/
theorem yields_bind {first : Rule Sym β} {next : β → Rule Sym α} :
    (first >>= next).Yields levels s post ↔
      first.Yields levels s fun value after => (next value).Yields levels after post := by
  constructor
  · intro yields b mid readFirst a after readNext
    refine yields a after ?_
    change (first.bind next).read levels s = _
    rw [Rule.read, readFirst]
    exact readNext
  · intro yields a after read
    change (first.bind next).read levels s = _ at read
    rw [Rule.read] at read
    split at read
    · rename_i b mid readFirst
      exact yields b mid readFirst a after read
    · cases read

/-- Whatever a rule gives, it fits. -/
theorem yields_of_forall {rule : Rule Sym α} (all : ∀ value after, post value after) :
    rule.Yields levels s post :=
  fun value after _ => all value after

/-- Whatever the first rule gives, what follows it fits. -/
theorem yields_then {first : Rule Sym β} {next : β → Rule Sym α}
    (all : ∀ value after, (next value).Yields levels after post) :
    (first >>= next).Yields levels s post :=
  yields_bind.mpr (yields_of_forall all)

theorem yields_fail (failure : Failure) : (fail failure : Rule Sym α).Yields levels s post ↔ True :=
  ⟨fun _ => trivial, fun _ _ _ read => by cases read⟩

theorem yields_peek {post : Token → Tape → Prop} :
    (peek : Rule Sym Token).Yields levels s post ↔ ∀ t, s.peek = .ok t → post t s := by
  constructor
  · intro yields t shown
    exact yields t s (Prod.ext shown rfl)
  · intro holds t after read
    obtain ⟨shown, rfl⟩ := Prod.mk.inj read
    exact holds t shown

theorem yields_lastEnd {post : Position → Tape → Prop} :
    (lastEnd : Rule Sym Position).Yields levels s post ↔ post s.lastEnd s :=
  ⟨fun yields => yields _ _ rfl, fun holds _ _ read => by cases read; exact holds⟩

/-- What is consumed is the next token. -/
theorem yields_bump {post : Token → Tape → Prop} :
    (bump : Rule Sym Token).Yields levels s post ↔ ∀ t, s.bump.1 = .ok t → post t s.bump.2 := by
  constructor
  · intro yields t shown
    exact yields t _ (Prod.ext shown rfl)
  · intro holds t after read
    have same : s.bump = (.ok t, after) := read
    have := holds t (by rw [same])
    rwa [same] at this

theorem yields_start {post : Position → Tape → Prop} :
    (start : Rule Sym Position).Yields levels s post ↔
      ∀ t, s.peek = .ok t → post t.span.start s := by
  simp only [start, yields_bind, yields_peek, yields_pure]

theorem yields_spanFrom {post : Span → Tape → Prop} (p : Position) :
    (spanFrom p : Rule Sym Span).Yields levels s post ↔ post ⟨p, s.lastEnd.later p⟩ s := by
  simp only [spanFrom, yields_bind, yields_lastEnd, yields_pure]

theorem yields_failAny (expected : List String) :
    (failAny expected : Rule Sym α).Yields levels s post ↔ True := by
  simp only [failAny, yields_bind, yields_peek, yields_fail, implies_true]

theorem yields_check {post : Bool → Tape → Prop} (kind : TokenKind) :
    (check kind : Rule Sym Bool).Yields levels s post ↔
      ∀ t, s.peek = .ok t → post (t.kind.sameKind kind) s := by
  simp only [check, yields_bind, yields_peek, yields_pure]

theorem yields_checkKeyword {post : Bool → Tape → Prop} (k : Keyword) :
    (checkKeyword k : Rule Sym Bool).Yields levels s post ↔
      ∀ t, s.peek = .ok t → post (t.spells k) s := by
  simp only [checkKeyword, yields_bind, yields_peek, yields_pure]

/-- To look ahead leaves the place where one looks. -/
theorem yields_lookahead {rule : Rule Sym α}
    (yields : rule.Yields levels s fun value after => post value (after.backTo s)) :
    (lookahead rule).Yields levels s post := by
  intro value after read
  obtain ⟨answer, rfl⟩ := Prod.mk.inj read
  exact yields value _ (Prod.ext answer rfl)

theorem yields_reporting {rule : Rule Sym α} (yields : rule.Yields levels s post) :
    (reporting rule).Yields levels s post := by
  intro value after read
  simp only [Rule.read] at read
  split at read
  · cases read
  · exact yields value after read

/-- Both alternatives are tried from the same place, though perhaps with one check less before the
analysis is to be left. -/
theorem yields_orElse {rule : Rule Sym α} {other : Mismatch → Rule Sym α}
    (first : ∀ checked, s.Moves [] checked → checked.params = s.params →
      rule.Yields levels checked post)
    (second : ∀ m checked, s.Moves [] checked → checked.params = s.params →
      (other m).Yields levels checked post)
    (forward : ∀ level ∈ levels, level.Forward) :
    (orElse rule other).Yields levels s post := by
  intro value after read
  have stays := s.moves_checkCancelled
  simp only [Rule.read] at read
  split at read
  · cases read
  · rename_i checked eq
    rw [eq] at stays
    have leads := rule.read_leads forward checked
    split at read
    · rename_i eq
      cases read
      exact first checked stays.1 stays.2 value _ eq
    · rename_i m tried eq
      rw [eq] at leads
      have back : checked.Moves [] (tried.backTo checked) := .of_place leads.text leads.stop rfl rfl
      exact second m _ (stays.1.trans back) stays.2 value after read
    · cases read

/-- No rule is called where nothing may nest any more. -/
theorem yields_tooDeep {body : ∀ α : Type, Sym α → Rule Sym α} {name : Sym α} :
    (call name).Yields (tapeLevels body 0) s post := by
  intro value after read
  have deep : (s.tooDeep : Reading α) = (.ok value, after) := read
  unfold Tape.tooDeep at deep
  split at deep <;> cases deep

end

end Rule

/-- Repetitions of a step until it gives nothing or moves nowhere. -/
inductive Runs {σ : Type} (step : σ → Tape → Reading (Option σ)) : σ → Tape → σ → Tape → Prop
  | stop {x s after} : step x s = (.ok none, after) → Runs step x s x after
  | stay {x y s after} : step x s = (.ok (some y), after) →
      ¬ s.lastEnd.offset < after.lastEnd.offset → Runs step x s y after
  | next {x y z s mid after} : step x s = (.ok (some y), mid) →
      s.lastEnd.offset < mid.lastEnd.offset → Runs step y mid z after → Runs step x s z after

/-- No repetition is cut short by a lack of fuel: there is enough for each move that is left. -/
theorem runs_of_iterate {σ : Type} {step : σ → Tape → Reading (Option σ)}
    (forward : ∀ x (s : Tape), s.Leads (step x s).2) {fuel : Nat} {x y : σ} {s after : Tape}
    (enough : s.ahead ≤ fuel) (eq : Tape.iterate step fuel x s = (.ok y, after)) :
    Runs step x s y after := by
  induction fuel generalizing x s with
  | zero =>
    rcases first : step x s with ⟨_ | _ | next, mid⟩
    · rw [Tape.iterate_error first] at eq
      cases eq
    · rw [Tape.iterate_none first] at eq
      cases eq
      exact .stop first
    · by_cases further : s.lastEnd.offset < mid.lastEnd.offset
      · have leads := forward x s
        rw [first] at leads
        have : mid.ahead < s.ahead := leads.ahead_lt further
        omega
      · rw [Tape.iterate_stay first further] at eq
        cases eq
        exact .stay first further
  | succ fuel ih =>
    rcases first : step x s with ⟨_ | _ | next, mid⟩
    · rw [Tape.iterate_error first] at eq
      cases eq
    · rw [Tape.iterate_none first] at eq
      cases eq
      exact .stop first
    · by_cases further : s.lastEnd.offset < mid.lastEnd.offset
      · have leads := forward x s
        rw [first] at leads
        have : mid.ahead < s.ahead := leads.ahead_lt further
        rw [Tape.iterate_next first further] at eq
        exact .next first further (ih (by omega) eq)
      · rw [Tape.iterate_stay first further] at eq
        cases eq
        exact .stay first further

/-- What a loop gives is what its repetitions come to. -/
theorem Rule.yields_loop {Sym : Type → Type} {σ : Type} {levels : List (TapeLevel Sym)} {s : Tape}
    {step : σ → Rule Sym (Option σ)} {first : σ} {post : σ → Tape → Prop}
    (forward : ∀ level ∈ levels, level.Forward)
    (runs : ∀ value after, Runs (fun x => (step x).read levels) first s value after → post value after) :
    (loop step first).Yields levels s post := by
  intro value after read
  exact runs value after
    (runs_of_iterate (fun x s => (step x).read_leads forward s) s.ahead_le read)

/-- What holds at the start of a loop and is kept by its step holds of what the loop gives. -/
theorem Rule.yields_loop_of_kept {Sym : Type → Type} {σ : Type} {levels : List (TapeLevel Sym)}
    {s : Tape} {step : σ → Rule Sym (Option σ)} {first : σ} (kept : σ → Tape → Prop)
    (forward : ∀ level ∈ levels, level.Forward) (start : kept first s)
    (keeps : ∀ x s, kept x s →
      (step x).Yields levels s fun next after => kept (next.getD x) after) :
    (loop step first).Yields levels s kept := by
  refine yields_loop forward fun value after runs => ?_
  induction runs with
  | stop read => exact keeps _ _ start _ _ read
  | stay read => exact keeps _ _ start _ _ read
  | next read _ _ ih => exact ih (keeps _ _ start _ _ read)

/-- What holds at the start of a loop and is kept by each step that moves on is there when the last
step is taken, provided that no step stays where it is. -/
theorem Rule.yields_loop_until {Sym : Type → Type} {σ : Type} {levels : List (TapeLevel Sym)}
    {s : Tape} {step : σ → Rule Sym (Option σ)} {first : σ} (kept done : σ → Tape → Prop)
    (forward : ∀ level ∈ levels, level.Forward) (start : kept first s)
    (keeps : ∀ x s, kept x s → (step x).Yields levels s fun next after =>
      match next with
      | none => done x after
      | some y => kept y after ∧ s.lastEnd.offset < after.lastEnd.offset) :
    (loop step first).Yields levels s done := by
  refine yields_loop forward fun value after runs => ?_
  induction runs with
  | stop read => exact keeps _ _ start _ _ read
  | stay read stays => exact absurd (keeps _ _ start _ _ read).2 stays
  | next read _ _ ih => exact ih (keeps _ _ start _ _ read).1

open Rule in
/-- Puts one more item in front of those that were read, if there is one. -/
def manyStep {Sym : Type → Type} {α : Type} (rule : Rule Sym α) (items : List α) :
    Rule Sym (Option (List α)) := do
  return (← optional rule).map (· :: items)

/-- A repetition is a loop that collects its items, the last one first. -/
theorem Rule.many_eq {Sym : Type → Type} {α : Type} (rule : Rule Sym α) : many rule = (do
    return (← loop (manyStep rule) []).reverse) := rfl

end SqlTree
