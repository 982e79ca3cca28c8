import SqlTree.Proofs.Reading.Yields

namespace SqlTree

/-- A rule gives a value from a tape, and the value fits, as the tape that it leaves does. -/
def Rule.Succeeds {Sym : Type → Type} {α : Type} (rule : Rule Sym α) (levels : List (TapeLevel Sym))
    (s : Tape) (post : α → Tape → Prop) : Prop :=
  ∃ value after, rule.read levels s = (.ok value, after) ∧ post value after

/-- A rule finds something else than what it looks for where it begins, and has consumed nothing then. -/
def Rule.Refuses {Sym : Type → Type} {α : Type} (rule : Rule Sym α) (levels : List (TapeLevel Sym))
    (s : Tape) : Prop :=
  ∃ m, rule.read levels s = (.error (.mismatch m), s) ∧
    ∀ t, s.peek = .ok t → m.position = t.span.start

theorem Tape.checkCancelled_of_none {s : Tape} (calm : s.cancelAfter = none) :
    s.checkCancelled = (.ok (), s) := by
  unfold Tape.checkCancelled
  rw [calm]

namespace Rule

section

variable {Sym : Type → Type} {α β : Type} {levels : List (TapeLevel Sym)} {s : Tape}
  {post : α → Tape → Prop} {t : Token}

theorem Succeeds.mono {rule : Rule Sym α} {weaker : α → Tape → Prop}
    (succeeds : rule.Succeeds levels s post)
    (weaken : ∀ value after, post value after → weaker value after) :
    rule.Succeeds levels s weaker := by
  obtain ⟨value, after, read, holds⟩ := succeeds
  exact ⟨value, after, read, weaken value after holds⟩

theorem succeeds_pure (value : α) :
    (Pure.pure value : Rule Sym α).Succeeds levels s post ↔ post value s := by
  constructor
  · rintro ⟨v, after, read, holds⟩
    cases read
    exact holds
  · intro holds
    exact ⟨value, s, rfl, holds⟩

/-- A sequence succeeds if its first rule does, with a value behind which its rest does. -/
theorem succeeds_bind {first : Rule Sym β} {next : β → Rule Sym α} :
    (first >>= next).Succeeds levels s post ↔
      first.Succeeds levels s fun value after => (next value).Succeeds levels after post := by
  constructor
  · rintro ⟨a, after, read, holds⟩
    change (first.bind next).read levels s = _ at read
    rw [Rule.read] at read
    split at read
    · rename_i b mid readFirst
      exact ⟨b, mid, readFirst, a, after, read, holds⟩
    · cases read
  · rintro ⟨b, mid, readFirst, a, after, readNext, holds⟩
    refine ⟨a, after, ?_, holds⟩
    change (first.bind next).read levels s = _
    rw [Rule.read, readFirst]
    exact readNext

theorem succeeds_ite {rule other : Rule Sym α} {c : Prop} [Decidable c] :
    (if c then rule else other).Succeeds levels s post ↔
      if c then rule.Succeeds levels s post else other.Succeeds levels s post := by
  split <;> rfl

theorem succeeds_peek {post : Token → Tape → Prop} (shown : s.peek = .ok t) :
    (peek : Rule Sym Token).Succeeds levels s post ↔ post t s := by
  constructor
  · rintro ⟨u, after, read, holds⟩
    obtain ⟨same, rfl⟩ := Prod.mk.inj read
    rw [shown] at same
    cases same
    exact holds
  · intro holds
    exact ⟨t, s, Prod.ext shown rfl, holds⟩

theorem succeeds_start {post : Position → Tape → Prop} (shown : s.peek = .ok t) :
    (start : Rule Sym Position).Succeeds levels s post ↔ post t.span.start s := by
  simp only [start, succeeds_bind, succeeds_peek shown, succeeds_pure]

theorem succeeds_check {post : Bool → Tape → Prop} (shown : s.peek = .ok t) (kind : TokenKind) :
    (check kind : Rule Sym Bool).Succeeds levels s post ↔ post (t.kind.sameKind kind) s := by
  simp only [check, succeeds_bind, succeeds_peek shown, succeeds_pure]

theorem succeeds_checkKeyword {post : Bool → Tape → Prop} (shown : s.peek = .ok t) (k : Keyword) :
    (checkKeyword k : Rule Sym Bool).Succeeds levels s post ↔ post (t.spells k) s := by
  simp only [checkKeyword, succeeds_bind, succeeds_peek shown, succeeds_pure]

theorem succeeds_spanFrom {post : Span → Tape → Prop} (p : Position) :
    (spanFrom p : Rule Sym Span).Succeeds levels s post ↔ post ⟨p, s.lastEnd.later p⟩ s := by
  constructor
  · rintro ⟨span, after, read, holds⟩
    cases read
    exact holds
  · intro holds
    exact ⟨_, s, rfl, holds⟩

theorem refuses_failAny (shown : s.peek = .ok t) (expected : List String) :
    (failAny expected : Rule Sym α).Refuses levels s := by
  refine ⟨⟨t.span.start, expected, t.describe⟩, ?_, fun u same => ?_⟩
  · change (bind peek _).read levels s = _
    simp only [Rule.read, shown]
  · rw [shown] at same
    cases same
    rfl

/-- What follows a rule that refuses is not asked. -/
theorem Refuses.bind {first : Rule Sym β} (refuses : first.Refuses levels s)
    (next : β → Rule Sym α) : (first >>= next).Refuses levels s := by
  obtain ⟨m, read, place⟩ := refuses
  refine ⟨m, ?_, place⟩
  change (first.bind next).read levels s = _
  rw [Rule.read, read]

theorem refuses_start {next : Position → Rule Sym α} (shown : s.peek = .ok t)
    (refuses : (next t.span.start).Refuses levels s) : (start >>= next).Refuses levels s := by
  obtain ⟨m, read, place⟩ := refuses
  obtain ⟨p, after, readStart, rfl, rfl⟩ : (start : Rule Sym Position).Succeeds levels s
      fun p after => p = t.span.start ∧ after = s := (succeeds_start shown).mpr ⟨rfl, rfl⟩
  refine ⟨m, ?_, place⟩
  change (start.bind next).read levels _ = _
  rw [Rule.read, readStart]
  exact read

/-- What follows a rule that consumes nothing refuses in its place. -/
theorem refuses_then {first : Rule Sym β} {next : β → Rule Sym α} {value : β}
    (read : first.read levels s = (.ok value, s)) (refuses : (next value).Refuses levels s) :
    (first >>= next).Refuses levels s := by
  obtain ⟨m, fails, place⟩ := refuses
  refine ⟨m, ?_, place⟩
  change (first.bind next).read levels s = _
  rw [Rule.read, read]
  exact fails

/-- A word that is not there is not consumed. -/
theorem eatKeyword_read {k : Keyword} (shown : s.peek = .ok t) (other : t.spells k = false) :
    (eatKeyword k : Rule Sym Bool).read levels s = (.ok false, s) := by
  obtain ⟨_, _, read, rfl, rfl⟩ : (eatKeyword k : Rule Sym Bool).Succeeds levels s
      fun found after => found = false ∧ after = s := by
    simp only [eatKeyword, succeeds_bind, succeeds_checkKeyword shown, succeeds_ite, other,
      succeeds_pure]
    exact ⟨trivial, trivial⟩
  exact read

/-- A rule that has to find something fails where it is not. -/
theorem refuses_of_missing {ask : Rule Sym Bool} {rule : Rule Sym α}
    (missing : ask.Succeeds levels s fun found after => found = false ∧ after = s)
    (shown : s.peek = .ok t) (expected : List String) :
    (do if ← ask then rule else failAny expected : Rule Sym α).Refuses levels s := by
  obtain ⟨found, after, read, rfl, rfl⟩ := missing
  obtain ⟨m, refuses, place⟩ : (failAny expected : Rule Sym α).Refuses levels _ :=
    refuses_failAny shown expected
  refine ⟨m, ?_, place⟩
  change (ask.bind _).read levels _ = _
  simp only [Rule.read, read, Bool.false_eq_true, if_false, refuses]

theorem expect_refuses {kind : TokenKind} (shown : s.peek = .ok t)
    (other : t.kind.sameKind kind = false) : (expect kind : Rule Sym Token).Refuses levels s :=
  refuses_of_missing ((succeeds_check shown kind).mpr ⟨other, rfl⟩) shown _

/-- To expect a word refuses what spells it not. -/
theorem expectKeyword_refuses {k : Keyword} (shown : s.peek = .ok t) (other : t.spells k = false) :
    (expectKeyword k : Rule Sym Token).Refuses levels s :=
  refuses_of_missing ((succeeds_checkKeyword shown k).mpr ⟨other, rfl⟩) shown _

/-- The first alternative is taken where it fits. -/
theorem Succeeds.orElse {rule : Rule Sym α} (succeeds : rule.Succeeds levels s post)
    (calm : s.cancelAfter = none) (other : Mismatch → Rule Sym α) :
    (orElse rule other).Succeeds levels s post := by
  obtain ⟨value, after, read, holds⟩ := succeeds
  refine ⟨value, after, ?_, holds⟩
  simp only [Rule.read, Tape.checkCancelled_of_none calm, read]

/-- The other alternative is taken where the first one does not fit. -/
theorem Refuses.orElse {rule : Rule Sym α} (refuses : rule.Refuses levels s)
    (calm : s.cancelAfter = none) (other : Mismatch → Rule Sym α) :
    ∃ m, (∀ t, s.peek = .ok t → m.position = t.span.start) ∧
      (orElse rule other).read levels s = (other m).read levels s := by
  obtain ⟨m, read, place⟩ := refuses
  refine ⟨m, place, ?_⟩
  have back : s.backTo s = s := rfl
  simp only [Rule.read, Tape.checkCancelled_of_none calm, read, back]

/-- An optional rule gives what fits. -/
theorem Succeeds.optional {rule : Rule Sym α} {post : Option α → Tape → Prop}
    (succeeds : rule.Succeeds levels s fun value after => post (some value) after)
    (calm : s.cancelAfter = none) : (optional rule).Succeeds levels s post := by
  refine Succeeds.orElse ?_ calm _
  exact succeeds_bind.mpr (succeeds.mono fun value after holds => (succeeds_pure _).mpr holds)

/-- An optional rule that does not fit gives nothing, and puts the mismatch aside. -/
theorem Refuses.optional {rule : Rule Sym α} {post : Option α → Tape → Prop}
    (refuses : rule.Refuses levels s) (calm : s.cancelAfter = none)
    (left : ∀ m, post none (s.note m)) : (optional rule).Succeeds levels s post := by
  obtain ⟨m, -, read⟩ := (refuses.bind fun value => Pure.pure (some value)).orElse calm fun m => do
    note m
    return none
  exact ⟨none, s.note m, read.trans rfl, left m⟩

end

end Rule

/-- Repetitions that end are run to their end. -/
theorem Runs.iterate {σ : Type} {step : σ → Tape → Reading (Option σ)}
    (forward : ∀ x (s : Tape), s.Leads (step x s).2) {x y : σ} {s after : Tape}
    (runs : Runs step x s y after) {fuel : Nat} (enough : s.ahead ≤ fuel) :
    Tape.iterate step fuel x s = (.ok y, after) := by
  induction runs generalizing fuel with
  | stop read => exact Tape.iterate_none read
  | stay read stays => exact Tape.iterate_stay read stays
  | @next x y z s mid after read further rest ih =>
    have leads := forward x s
    rw [read] at leads
    have : mid.ahead < s.ahead := leads.ahead_lt further
    obtain ⟨fuel, rfl⟩ := Nat.exists_eq_succ_of_ne_zero (by omega : fuel ≠ 0)
    rw [Tape.iterate_next read further]
    exact ih (by omega)

/-- A loop succeeds if its repetitions come to an end that fits. -/
theorem Rule.succeeds_loop {Sym : Type → Type} {σ : Type} {levels : List (TapeLevel Sym)} {s : Tape}
    {step : σ → Rule Sym (Option σ)} {first : σ} {post : σ → Tape → Prop}
    (forward : ∀ level ∈ levels, level.Forward)
    (runs : ∃ value after, Runs (fun x => (step x).read levels) first s value after ∧
      post value after) : (loop step first).Succeeds levels s post := by
  obtain ⟨value, after, runs, holds⟩ := runs
  exact ⟨value, after, runs.iterate (fun x s => (step x).read_leads forward s) s.ahead_le, holds⟩

end SqlTree
