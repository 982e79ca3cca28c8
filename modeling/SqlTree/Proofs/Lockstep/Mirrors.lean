import SqlTree.Proofs.Lockstep.Sheet
import SqlTree.Proofs.Reading.Yields

namespace SqlTree

section

variable {L : Likeness} (texts : Facing L)

/-- Mismatches at corresponding places, if failures are compared. -/
inductive Mismatch.Like : Mismatch → Mismatch → Prop
  | at {i expected found} : i ≤ texts.left.length →
      Like ⟨texts.left.startAt i, expected, found⟩ ⟨texts.right.startAt i, expected, found⟩
  | any {m m'} : ¬ texts.exact → Like m m'

inductive Failure.Like : Failure → Failure → Prop
  | mismatch {m m'} : m.Like texts m' → Like (.mismatch m) (.mismatch m')
  | tooDeep {i} : i ≤ texts.left.length →
      Like (.tooDeep (texts.left.startAt i)) (.tooDeep (texts.right.startAt i))

/-- Tapes over two texts that have put corresponding mismatches aside. -/
structure Tape.Beside (s s' : Tape) : Prop where
  left : s.Over texts.left
  right : s'.Over texts.right
  furthest : texts.exact → Option.Rel (Mismatch.Like texts) s.furthest s'.furthest

/-- Tapes over two texts that stand at corresponding places. -/
structure Tape.Abreast (i : Nat) (s s' : Tape) : Prop where
  left : s.At texts.left i
  right : s'.At texts.right i
  params : s.params = s'.params + L.shift
  furthest : texts.exact → Option.Rel (Mismatch.Like texts) s.furthest s'.furthest

/-- Readings that say the same: values at corresponding places, or failures. -/
inductive Reading.Echoes {α : Type} (post : Nat → α → α → Prop) : Reading α → Reading α → Prop
  | ok {j v v' t t'} : t.Abreast texts j t' → post j v v' → Echoes post (.ok v, t) (.ok v', t')
  | error {failure failure' t t'} : failure.Like texts failure' → t.Beside texts t' →
      Echoes post (.error failure, t) (.error failure', t')

/-- Behind the first `i` tokens of both texts two rules come to readings that say the same. -/
def Rule.Mirrors {Sym : Type → Type} {α : Type} (levels : List (TapeLevel Sym)) (i : Nat)
    (rule rule' : Rule Sym α) (post : Nat → α → α → Prop) : Prop :=
  ∀ s s' : Tape, s.Abreast texts i s' →
    Reading.Echoes texts post (rule.read levels s) (rule'.read levels s')

end

/-- Which of two mismatches is further on does not depend on the text. -/
theorem Mismatch.Like.merge {L : Likeness} {texts : Facing L} {m m' n n' : Mismatch}
    (first : m.Like texts m') (second : n.Like texts n') : (m.merge n).Like texts (m'.merge n') := by
  by_cases exact : texts.exact
  case neg => exact .any exact
  obtain ⟨hi⟩ | inexact := first
  case any => exact absurd exact inexact
  obtain ⟨hj⟩ | inexact := second
  case any => exact absurd exact inexact
  have hi' := texts.length ▸ hi
  have hj' := texts.length ▸ hj
  simp only [Mismatch.merge, texts.left.startAt_lt_iff hi hj, texts.left.startAt_lt_iff hj hi,
    texts.right.startAt_lt_iff hi' hj', texts.right.startAt_lt_iff hj' hi']
  split
  · exact .at hi
  · split
    · exact .at hj
    · exact .at hi

namespace Tape

variable {L : Likeness} {texts : Facing L} {i : Nat} {s s' t t' : Tape} {m m' : Mismatch}

/-- Tapes that stand at corresponding places have put corresponding mismatches aside. -/
theorem Abreast.beside (abreast : s.Abreast texts i s') : s.Beside texts s' :=
  ⟨abreast.left.toOver, abreast.right.toOver, abreast.furthest⟩

/-- Going back from a failure. -/
theorem Beside.backTo (beside : t.Beside texts t') (abreast : s.Abreast texts i s') :
    (t.backTo s).Abreast texts i (t'.backTo s') where
  left := { text := beside.left.text, stop := beside.left.stop, cancelAfter := beside.left.cancelAfter,
            within := abreast.left.within, tokens := abreast.left.tokens, lastEnd := abreast.left.lastEnd }
  right := { text := beside.right.text, stop := beside.right.stop,
             cancelAfter := beside.right.cancelAfter, within := abreast.right.within,
             tokens := abreast.right.tokens, lastEnd := abreast.right.lastEnd }
  params := abreast.params
  furthest := beside.furthest

theorem At.checked {sheet : Sheet} (here : s.At sheet i) : s.checkCancelled = (.ok (), s) := by
  unfold checkCancelled
  rw [here.cancelAfter]

/-- Putting corresponding mismatches aside. -/
theorem Abreast.note (abreast : s.Abreast texts i s') (like : m.Like texts m') :
    (s.note m).Abreast texts i (s'.note m') := by
  refine ⟨{ abreast.left with }, { abreast.right with }, abreast.params, fun exact => ?_⟩
  have furthest := abreast.furthest exact
  unfold Tape.note
  cases first : s.furthest <;> cases second : s'.furthest <;> rw [first, second] at furthest
  · exact .some like
  · cases furthest
  · cases furthest
  · cases furthest with
    | some noted => exact .some (noted.merge like)

/-- Both runs consume the next token. -/
theorem Abreast.bump (abreast : s.Abreast texts i s') (lt : i < texts.left.length) :
    s.bump.1 = .ok (texts.left.tokenAt i) ∧ s'.bump.1 = .ok (texts.right.tokenAt i) ∧
      s.bump.2.Abreast texts (i + 1) s'.bump.2 := by
  obtain ⟨shown, moved, params, furthest⟩ := abreast.left.bump lt
  obtain ⟨shown', moved', params', furthest'⟩ := abreast.right.bump (texts.length ▸ lt)
  refine ⟨shown, shown', moved, moved', ?_, ?_⟩
  · rw [params, params', abreast.params]
  · rw [furthest, furthest']
    exact abreast.furthest

theorem Over.report {sheet : Sheet} (whole : s.Over sheet) (m : Mismatch) :
    (s.report m).2.Over sheet := by
  unfold Tape.report
  split
  · exact { whole with }
  · exact whole

/-- Where a failure is raised both tapes give the mismatch that is furthest. -/
theorem Beside.report (beside : s.Beside texts s') (like : m.Like texts m') :
    (s.report m).1.Like texts (s'.report m').1 ∧
      (s.report m).2.Beside texts (s'.report m').2 := by
  by_cases exact : texts.exact
  case neg =>
    exact ⟨.any exact, beside.left.report m, beside.right.report m', fun holds => absurd holds exact⟩
  have furthest := beside.furthest exact
  unfold Tape.report
  cases first : s.furthest <;> cases second : s'.furthest <;> rw [first, second] at furthest
  · exact ⟨like, beside⟩
  · cases furthest
  · cases furthest
  · cases furthest with
    | some noted => exact ⟨noted.merge like, { beside.left with }, { beside.right with }, fun _ => .none⟩

end Tape

namespace Rule

section

variable {Sym : Type → Type} {α β : Type} {L : Likeness} {texts : Facing L}
  {levels : List (TapeLevel Sym)} {i : Nat} {post : Nat → α → α → Prop} {rule rule' : Rule Sym α}

/-- What both rules come to says anything that follows from it. -/
theorem Mirrors.mono {weaker : Nat → α → α → Prop} (mirrors : Mirrors texts levels i rule rule' post)
    (weaken : ∀ j v v', post j v v' → weaker j v v') : Mirrors texts levels i rule rule' weaker := by
  intro s s' abreast
  have echoes := mirrors s s' abreast
  revert echoes
  generalize rule.read levels s = reading
  generalize rule'.read levels s' = reading'
  rintro (⟨abreast, holds⟩ | ⟨failure, beside⟩)
  · exact .ok abreast (weaken _ _ _ holds)
  · exact .error failure beside

/-- Rules that consume nothing and give what they were given. -/
theorem mirrors_pure {v v' : α} (holds : post i v v') :
    Mirrors texts levels i (Pure.pure v : Rule Sym α) (Pure.pure v') post :=
  fun _ _ abreast => .ok abreast holds

/-- One rule behind another one on both sides. -/
theorem Mirrors.bind {first first' : Rule Sym β} {next next' : β → Rule Sym α}
    {mid : Nat → β → β → Prop} (mirrors : Mirrors texts levels i first first' mid)
    (rest : ∀ j v v', mid j v v' → Mirrors texts levels j (next v) (next' v') post) :
    Mirrors texts levels i (first >>= next) (first' >>= next') post := by
  intro s s' abreast
  have echoes := mirrors s s' abreast
  change Reading.Echoes _ _ ((first.bind next).read levels s) ((first'.bind next').read levels s')
  simp only [Rule.read]
  revert echoes
  generalize first.read levels s = reading
  generalize first'.read levels s' = reading'
  rintro (⟨abreast, holds⟩ | ⟨failure, beside⟩)
  · exact rest _ _ _ holds _ _ abreast
  · exact .error failure beside

/-- Both runs see tokens with the same number. -/
theorem mirrors_peek {post : Nat → Token → Token → Prop}
    (holds : post i (texts.left.tokenAt i) (texts.right.tokenAt i)) :
    Mirrors texts levels i (peek : Rule Sym Token) peek post := by
  intro s s' abreast
  simp only [Rule.read, abreast.left.peek, abreast.right.peek]
  exact .ok abreast holds

/-- Both runs consume tokens with the same number. -/
theorem mirrors_bump {post : Nat → Token → Token → Prop}
    (notEof : (texts.left.tokenAt i).isEof = false)
    (holds : post (i + 1) (texts.left.tokenAt i) (texts.right.tokenAt i)) :
    Mirrors texts levels i (bump : Rule Sym Token) bump post := by
  intro s s' abreast
  have lt := texts.lt_of_notEof abreast.left.within notEof
  obtain ⟨shown, shown', moved⟩ := abreast.bump lt
  simp only [Rule.read]
  rw [show s.bump = (.ok (texts.left.tokenAt i), s.bump.2) from Prod.ext shown rfl,
    show s'.bump = (.ok (texts.right.tokenAt i), s'.bump.2) from Prod.ext shown' rfl]
  exact .ok moved holds

/-- The numbers of placeholders stay apart by the same amount. -/
theorem mirrors_nextParam {post : Nat → Nat → Nat → Prop} (holds : ∀ n, post i (n + L.shift) n) :
    Mirrors texts levels i (nextParam : Rule Sym Nat) nextParam post := by
  intro s s' abreast
  have params := abreast.params
  simp only [Rule.read]
  rw [show s.params + 1 = s'.params + 1 + L.shift by omega]
  exact .ok ⟨{ abreast.left with }, { abreast.right with }, rfl, abreast.furthest⟩ (holds _)

theorem mirrors_lastEnd {post : Nat → Position → Position → Prop}
    (holds : post i (texts.left.stopAt i) (texts.right.stopAt i)) :
    Mirrors texts levels i (lastEnd : Rule Sym Position) lastEnd post := by
  intro s s' abreast
  simp only [Rule.read, abreast.left.lastEnd, abreast.right.lastEnd]
  exact .ok abreast holds

/-- What is cut out of both texts need not be the same; what matters about it is shown of the pieces. -/
theorem mirrors_slice {span span' : Span} {post : Nat → String → String → Prop}
    (holds : post i
      (String.ofList ((sliceBytes texts.left.text span.start.offset span.stop.offset).getD []))
      (String.ofList ((sliceBytes texts.right.text span'.start.offset span'.stop.offset).getD []))) :
    Mirrors texts levels i (slice span : Rule Sym String) (slice span') post := by
  intro s s' abreast
  simp only [Rule.read, abreast.left.text, abreast.right.text]
  exact .ok abreast holds

/-- Failures that correspond. -/
theorem mirrors_fail {failure failure' : Failure} (like : failure.Like texts failure') :
    Mirrors texts levels i (fail failure : Rule Sym α) (fail failure') post :=
  fun _ _ abreast => .error like abreast.beside

theorem mirrors_note {m m' : Mismatch} {post : Nat → Unit → Unit → Prop} (like : m.Like texts m')
    (holds : post i () ()) : Mirrors texts levels i (note m : Rule Sym Unit) (note m') post :=
  fun _ _ abreast => .ok (abreast.note like) holds

/-- Both runs try the other rule, or neither does. -/
theorem Mirrors.orElse {other other' : Mismatch → Rule Sym α}
    (mirrors : Mirrors texts levels i rule rule' post)
    (mirrors' : ∀ m m', m.Like texts m' → Mirrors texts levels i (other m) (other' m') post) :
    Mirrors texts levels i (orElse rule other) (Rule.orElse rule' other') post := by
  intro s s' abreast
  simp only [Rule.read, abreast.left.checked, abreast.right.checked]
  have echoes := mirrors s s' abreast
  revert echoes
  generalize rule.read levels s = reading
  generalize rule'.read levels s' = reading'
  rintro (⟨abreast', holds⟩ | ⟨_ | _, beside⟩)
  · exact .ok abreast' holds
  · rename_i like
    exact mirrors' _ _ like _ _ (beside.backTo abreast)
  · rename_i within
    exact .error (.tooDeep within) (beside.backTo abreast).beside

/-- Both runs go back to where they were. -/
theorem Mirrors.lookahead {back : Nat → α → α → Prop}
    (mirrors : Mirrors texts levels i rule rule' back)
    (holds : ∀ j v v', back j v v' → post i v v') :
    Mirrors texts levels i (lookahead rule) (Rule.lookahead rule') post := by
  intro s s' abreast
  simp only [Rule.read]
  have echoes := mirrors s s' abreast
  revert echoes
  generalize rule.read levels s = reading
  generalize rule'.read levels s' = reading'
  rintro (⟨abreast', found⟩ | ⟨failure, beside⟩)
  · exact .ok (abreast'.beside.backTo abreast) (holds _ _ _ found)
  · exact .error failure (beside.backTo abreast).beside

theorem Mirrors.reporting (mirrors : Mirrors texts levels i rule rule' post) :
    Mirrors texts levels i (reporting rule) (Rule.reporting rule') post := by
  intro s s' abreast
  simp only [Rule.read]
  have echoes := mirrors s s' abreast
  revert echoes
  generalize rule.read levels s = reading
  generalize rule'.read levels s' = reading'
  rintro (⟨abreast', holds⟩ | ⟨_ | _, beside⟩)
  · exact .ok abreast' holds
  · rename_i like
    obtain ⟨reported, left⟩ := beside.report like
    exact .error (.mismatch reported) left
  · rename_i within
    exact .error (.tooDeep within) beside

/-- No level of nesting is left on either side. -/
theorem echoes_tooDeep {s s' : Tape} (abreast : s.Abreast texts i s') :
    Reading.Echoes texts post (s.tooDeep : Reading α) (s'.tooDeep : Reading α) := by
  simp only [Tape.tooDeep, abreast.left.peek, abreast.right.peek]
  exact .error (.tooDeep abreast.left.within) abreast.beside

/-- What one step of two loops comes to: both stop where they are, or both go on. -/
inductive Paces {σ : Type} (kept : Nat → σ → σ → Prop) (x x' : σ) (k : Nat) :
    Option σ → Option σ → Prop
  | stop : kept k x x' → Paces kept x x' k none none
  | next {y y'} : kept k y y' → Paces kept x x' k (some y) (some y')

/-- What one step of two loops comes to if they end with something else than what they go on with. They end
as well where a step consumes nothing. -/
inductive Turns {σ : Type} (kept gone : Nat → σ → σ → Prop) (x x' : σ) (j k : Nat) :
    Option σ → Option σ → Prop
  | stop : gone k x x' → Turns kept gone x x' j k none none
  | next {y y'} : kept k y y' → (k ≤ j → gone k y y') → Turns kept gone x x' j k (some y) (some y')

/-- Repetitions end at the same time: on both sides a step moves on if it consumes a token. Neither side
is cut short, whatever is left of its text. -/
theorem Mirrors.loop_until {σ : Type} {step step' : σ → Rule Sym (Option σ)} {x x' : σ}
    (kept gone : Nat → σ → σ → Prop) (start : kept i x x')
    (keeps : ∀ j x x', kept j x x' →
      Mirrors texts levels j (step x) (step' x') fun k => Turns kept gone x x' j k) :
    Mirrors texts levels i (loop step x) (Rule.loop step' x') gone := by
  intro s s' abreast
  have enough : texts.left.length - i ≤ s.tokens.length + 1 := Nat.le_succ_of_le abreast.left.length_le
  have enough' : texts.left.length - i ≤ s'.tokens.length + 1 :=
    Nat.le_succ_of_le (texts.length ▸ abreast.right.length_le)
  simp only [Rule.read]
  generalize s.tokens.length + 1 = fuel at enough ⊢
  generalize s'.tokens.length + 1 = fuel' at enough' ⊢
  -- On the tokens that are left: a step that is followed by another one consumes at least one of them.
  induction left : texts.left.length - i using Nat.strongRecOn generalizing i x x' s s' fuel fuel' with
  | _ ahead ih =>
    have echoes := keeps i x x' start s s' abreast
    rw [Tape.iterate.eq_def, Tape.iterate.eq_def _ fuel']
    revert echoes
    generalize (step x).read levels s = reading
    generalize (step' x').read levels s' = reading'
    rintro (⟨abreast', holds⟩ | ⟨failure, beside⟩)
    · cases holds with
      | stop holds => exact .ok abreast' holds
      | next holds ends =>
        have further := texts.left.stopAt_lt_iff abreast.left.within abreast'.left.within
        have further' := texts.right.stopAt_lt_iff abreast.right.within abreast'.right.within
        simp only [abreast.left.lastEnd, abreast'.left.lastEnd, abreast.right.lastEnd,
          abreast'.right.lastEnd, further, further']
        split
        · rename_i lt
          have within := abreast'.left.within
          obtain ⟨fuel, rfl⟩ := Nat.exists_eq_succ_of_ne_zero (by omega : fuel ≠ 0)
          obtain ⟨fuel', rfl⟩ := Nat.exists_eq_succ_of_ne_zero (by omega : fuel' ≠ 0)
          exact ih _ (by omega) holds _ _ abreast' _ (by omega) _ (by omega) rfl
        · rename_i stays
          exact .ok abreast' (ends (Nat.le_of_not_lt stays))
    · exact .error failure beside

/-- Repetitions that keep what holds of what both runs have so far. -/
theorem Mirrors.loop {σ : Type} {step step' : σ → Rule Sym (Option σ)} {x x' : σ}
    {kept : Nat → σ → σ → Prop} (start : kept i x x')
    (keeps : ∀ j x x', kept j x x' →
      Mirrors texts levels j (step x) (step' x') fun k => Paces kept x x' k) :
    Mirrors texts levels i (Rule.loop step x) (Rule.loop step' x') kept := by
  refine loop_until kept kept start fun j x x' holds => (keeps j x x' holds).mono ?_
  rintro k _ _ (holds | holds)
  · exact .stop holds
  · exact .next holds fun _ => holds

/-- What is made of the result of a loop. -/
theorem Mirrors.loop_bind {σ : Type} {step step' : σ → Rule Sym (Option σ)} {x x' : σ}
    {next next' : σ → Rule Sym α} (kept : Nat → σ → σ → Prop) (start : kept i x x')
    (keeps : ∀ j x x', kept j x x' →
      Mirrors texts levels j (step x) (step' x') fun k => Paces kept x x' k)
    (rest : ∀ j x x', kept j x x' → Mirrors texts levels j (next x) (next' x') post) :
    Mirrors texts levels i (Rule.loop step x >>= next) (Rule.loop step' x' >>= next') post :=
  (Mirrors.loop start keeps).bind rest

end

end Rule

end SqlTree
