import SqlTree.Proofs.Binding.Powers
import SqlTree.Proofs.Diverging.Boundaries
import SqlTree.Proofs.Scripts.Front

namespace SqlTree

open Rule SqlRule

/-- Expressions are read the same, whatever was read before them. -/
theorem SqlRule.prefixed_plain : prefixed.Plain := by
  refine Blames.plain ?_
  simp only [prefixed, blames_bind, blames_start, blames_peek, true_and]
  intro _ _ t _
  split <;> simp

theorem SqlRule.infixOp?_plain (f : Features) : (infixOp? f).Plain := (infixOp?_blames f).plain

theorem SqlRule.infixed_plain (op : InfixOp) (left : Expr) : (infixed op left).Plain :=
  (infixed_blames op left).plain

section

variable {f : Features} {tokens : List Token} {limit limit' power : Nat} {s after : Tape} {e : Expr}

/-- What an expression has come to it comes to with more levels of nesting, too, where nobody asks to
leave. -/
theorem Chain.calm (chain : Chain f (sqlLevels f limit) power s e after) (le : limit ≤ limit') :
    Chain f (sqlLevels f limit') power s.calm e after.calm := by
  induction chain with
  | first read => exact .first (prefixed_plain.reads le read)
  | next _ ahead enough read peek ih =>
    exact ih.next ((infixOp?_plain f).reads le ahead) enough ((infixed_plain _ _).reads le read) peek

namespace Diverging

variable {q : Diverging f}

/-- Both texts come to the same expression, and the second one goes on with whatever follows it there. -/
theorem chain_follows (parts : ¬ q.rejoins) (along : s.Along tokens) (here : s.At q.left 0)
    (nonempty : 0 < q.spot) (chain : Chain f (sqlLevels f limit) power s e after) :
    ∃ j, after.At q.left j ∧ (j ≤ q.spot → ∀ s' : Tape, s'.At q.right 0 → q.Counts s s' →
      ∃ e' after', after'.At q.right j ∧ q.Counts after after' ∧ q.Quoted e e' ∧
        ∀ post, (loop (further f 0 (q.right.startAt 0)) e').Succeeds (sqlLevels f limit) after' post →
          (expressionBody f 0).Succeeds (sqlLevels f limit) s' post) := by
  have keep := q.callsKeep limit
  have opens := q.start_placed 0 (Nat.zero_le _) (.inl nonempty)
  induction chain with
  | @first e after read =>
    obtain ⟨j, step⟩ := prefixed_holds keep True 0 s here e after read
    refine ⟨j, step.place, fun le s' here' counts => ?_⟩
    have kept : q.Kept True 0 j e := ⟨fun _ => trivial, .inl (.inl le)⟩
    obtain ⟨e', after', read', there, counts', quoted⟩ := step.right trivial kept s' here' counts
    refine ⟨e', after', there, counts', quoted, fun post goes => ?_⟩
    rw [expressionBody_eq]
    exact succeeds_bind.mpr ((succeeds_start here'.peek).mpr (succeeds_bind.mpr ⟨e', after', read', goes⟩))
  | @next left mid op kind after t chain ahead enough read peek ih =>
    obtain ⟨k, place, right⟩ := ih
    have found : infixAt f (q.left.tokenAt k) (q.left.tokenAt (k + 1)) = some op :=
      ((comes_infixOp? q.isEof place.within mid place).yields _ _ ahead).1.symm
    have notEof : (∃ o, op = .binary o) → (q.left.tokenAt k).isEof = false := by
      rintro ⟨o, rfl⟩
      exact Token.isEof_of_binaryOp? (Token.binaryOp?_of_infixAt found)
    have lacks : True → q.Lacks left := fun _ _ shows => absurd shows.rejoins parts
    have follows {left' : Expr} (quoted : q.Quoted left left') :=
      infixed_follows keep op lacks quoted notEof mid place kind after read
    obtain ⟨_, alike⟩ := q.exists_quoted left
    obtain ⟨j, step⟩ := follows alike
    refine ⟨j, step.place, fun le s' here' counts => ?_⟩
    obtain ⟨left', mid', place', counts', quoted, begins⟩ := right (Nat.le_trans step.le le) s' here' counts
    obtain ⟨j', step'⟩ := follows quoted
    obtain rfl := step'.place.same step.place
    obtain ⟨asked, looked, looks, rfl, place'', same⟩ := comes_infixOp? q.isEof_right place'.within mid' place'
    have kept : q.Kept True k j' kind := ⟨fun _ => trivial, .inl (.inl le)⟩
    have counts'' : q.Counts mid looked := by rwa [Counts, same]
    obtain ⟨kind', after', read', there, counts₃, quoted'⟩ := step'.right trivial kept looked place'' counts''
    have clean : q.Clean k := step'.need trivial kept
    have found' : infixAt f (q.right.tokenAt k) (q.right.tokenAt (k + 1)) = some op := by
      rcases q.infixAt_right limit place.within clean.inside.reads with same | ⟨-, odd⟩
      · exact same.trans found
      · rcases odd op found with rfl | never
        · exact absurd rfl clean.ne
        · exact (never left' looked place'' kind' after' read').elim
    have further : mid'.lastEnd.offset < after'.lastEnd.offset := by
      have passes := ((chain.reached along).next (calls f tokens (Nat.le_succ limit)) (Nat.lt_succ_self limit)
        along peek ahead enough read).2
      rw [place.lastEnd, step.place.lastEnd, q.left.stopAt_lt_iff place.within step.place.within] at passes
      rw [place'.lastEnd, there.lastEnd]
      exact q.right.stopAt_lt passes there.within
    have start : t.span.start = q.left.startAt 0 := by
      rw [here.peek] at peek
      rw [← Except.ok.inj peek]
      rfl
    have spans := q.stop_placed 0 (Nat.zero_le _) _ opens _ step.place.within (.inl le)
    rw [← step.place.lastEnd, ← there.lastEnd] at spans
    have span : q.Quoted (⟨q.left.startAt 0, after.lastEnd.later (q.left.startAt 0)⟩ : Span)
        ⟨q.right.startAt 0, after'.lastEnd.later (q.right.startAt 0)⟩ := congrArg₂ Span.mk opens spans
    rw [start]
    refine ⟨⟨kind', ⟨q.right.startAt 0, after'.lastEnd.later (q.right.startAt 0)⟩⟩, after', there, counts₃,
      ?_,
      fun post goes => begins post
        (succeeds_loop_of_step (sqlLevels_forward f limit) (succeeds_bind.mpr ⟨_, looked, looks, ?_⟩))⟩
    · simp_all [Quoted]
    · simp only [found', Nat.not_lt_zero, if_false]
      refine succeeds_bind.mpr ⟨kind', after', read', ?_⟩
      simp only [succeeds_bind, succeeds_spanFrom, succeeds_pure, further, if_true]
      exact goes

/-- An expression that ends where the second text does is an expression there. -/
theorem chain_whole (parts : ¬ q.rejoins) (along : s.Along tokens) (here : s.At q.left 0)
    (nonempty : 0 < q.spot) (chain : Chain f (sqlLevels f limit) power s e after)
    (there : after.At q.left q.spot) {s' : Tape} (here' : s'.At q.right 0) (counts : q.Counts s s') :
    (expressionBody f 0).Succeeds (sqlLevels f limit) s' fun e' after' =>
      after'.At q.right q.spot ∧ q.Quoted e e' := by
  obtain ⟨j, place, right⟩ := chain_follows parts along here nonempty chain
  obtain rfl := place.same there
  obtain ⟨e', after', place', -, quoted, begins⟩ := right (Nat.le_refl _) s' here' counts
  refine begins _ (succeeds_loop_of_step (sqlLevels_forward f limit) ?_)
  obtain ⟨_, ended, looks, rfl, stays, -⟩ := comes_infixOp? q.isEof_right place'.within after' place'
  refine succeeds_bind.mpr ⟨_, ended, looks, ?_⟩
  rw [infixAt_spot]
  exact (succeeds_pure none).mpr ⟨stays, quoted⟩

end Diverging

end

end SqlTree
