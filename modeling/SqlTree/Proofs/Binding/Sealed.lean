import SqlTree.Proofs.Binding.Edges
import SqlTree.Proofs.Tree.Queries
import SqlTree.Proofs.Tree.Spans

namespace SqlTree

open Rule SqlRule

/-- An expression that leaves no operator open, to neither side. -/
structure Expr.Sealed (tokens : List Token) (e : Expr) : Prop where
  left : e.infix? = none
  right : e.lastOperand? = none
  power : e.rightPower? tokens = none

section

variable {f : Features} {tokens : List Token} {limit : Nat} {s : Tape}

/-- A call ends with its parenthesis. -/
theorem functionCall_sealed (name : Ident) (start : Position) :
    (functionCall name start).Yields (sqlLevels f limit) s fun e _ => e.Sealed tokens := by
  refine yields_then fun _ _ => yields_then fun _ _ => yields_then fun _ _ => ?_
  refine yields_then fun _ _ => yields_then fun _ _ => ?_
  exact (yields_pure _).mpr ⟨rfl, rfl, rfl⟩

theorem nameExpression_sealed :
    nameExpression.Yields (sqlLevels f limit) s fun e _ => e.Sealed tokens := by
  refine yields_then fun _ _ => yields_then fun _ _ => yields_then fun _ _ => ?_
  rw [yields_ite]
  split
  · exact functionCall_sealed _ _
  · simp only [yields_bind, yields_ite, yields_spanFrom, yields_pure]
    refine yields_of_forall fun dot _ => ?_
    split
    · refine yields_of_forall fun star _ => ?_
      split
      · exact ⟨rfl, rfl, rfl⟩
      · exact yields_of_forall fun _ _ => ⟨rfl, rfl, rfl⟩
    · exact ⟨rfl, rfl, rfl⟩

/-- A case ends with its last word. -/
theorem caseExpression_sealed :
    caseExpression.Yields (sqlLevels f limit) s fun e _ => e.Sealed tokens := by
  refine yields_then fun _ _ => yields_then fun _ _ => yields_then fun _ _ => yields_then fun _ _ => ?_
  rw [yields_ite]
  split
  · exact (yields_failAny _).mpr trivial
  · refine yields_then fun _ _ => yields_then fun _ _ => yields_then fun _ _ => ?_
    exact (yields_pure _).mpr ⟨rfl, rfl, rfl⟩

/-- A cast by its word starts in front of its operand. -/
theorem castExpression_sealed (along : s.Along tokens) :
    castExpression.Yields (sqlLevels f limit) s fun e _ => e.Sealed tokens := by
  have row := Lays.refl (f := f) limit along
  simp only [castExpression, yields_bind, yields_start, yields_spanFrom, yields_pure]
  intro first peek
  refine row.expectKeyword fun cast s row => ?_
  refine row.expect rfl fun paren s row => ?_
  refine ((callsAt f tokens limit).any s row.along).mono fun e s ⟨used, _, rest⟩ => ?_
  refine yields_of_forall fun _ _ => yields_of_forall fun _ _ => yields_of_forall fun _ _ => ?_
  refine ⟨if_neg fun same => ?_, rfl, rfl⟩
  obtain ⟨t, more, split, peek'⟩ := row.moves.peek (by simp)
  rw [peek] at peek'
  cases peek'
  obtain ⟨rfl, -⟩ := List.cons.inj split
  obtain ⟨-, size, gap, size', -⟩ := row.start.ordered_used row.moves
  have behind := ((rest.laid.spans (row.along.ordered_used rest.moves)).1 _ List.mem_cons_self).1
  rw [row.moves.lastEnd] at behind
  simp only [List.nil_append, List.cons_append, endBehind_cons, endBehind_nil, Node.span, ← same] at behind
  omega

theorem existsExpression_sealed (along : s.Along tokens) :
    existsExpression.Yields (sqlLevels f limit) s fun e _ => e.Sealed tokens := by
  simp only [existsExpression, yields_bind, yields_start, yields_spanFrom, yields_pure, expectKeyword,
    yields_checkKeyword]
  intro first peek t peek'
  rw [peek] at peek'
  cases peek'
  cases spells : first.spells .EXISTS with
  | false => exact (yields_failAny _).mpr trivial
  | true =>
    refine yields_of_forall fun _ _ => yields_of_forall fun _ _ => ?_
    refine yields_of_forall fun _ _ => yields_of_forall fun _ _ => ⟨rfl, rfl, if_neg ?_⟩
    rintro ⟨u, mem, same, spells'⟩
    have notEof := Token.isEof_of_spells spells
    obtain ⟨rest, eq⟩ := along.tokens_of_peek peek notEof
    have mem' := along.mem (by rw [eq]; exact List.mem_cons_self : first ∈ s.tokens)
    obtain rfl := along.ordered.eq_of_start mem mem' same
    rw [Token.not_spells_of_spells spells rfl] at spells'
    cases spells'

theorem keywordForm_sealed (along : s.Along tokens) {form : SqlRule Expr} (reserved : Bool)
    (sealing : Always f tokens limit form fun _ e _ => e.Sealed tokens) :
    (keywordForm reserved form).Yields (sqlLevels f limit) s fun e _ => e.Sealed tokens := by
  unfold keywordForm
  split
  · exact sealing s along
  · have steady : Steady tokens fun _ (e : Expr) (_ : Tape) => e.Sealed tokens :=
      fun _ _ _ _ _ _ _ sealed => sealed
    refine always_choice steady ?_ s along
    simp only [List.forall_mem_cons, List.not_mem_nil, false_implies, implies_true, and_true]
    exact ⟨sealing, fun _ _ => nameExpression_sealed⟩

/-- What begins with a word leaves no operator open. -/
theorem wordExpression_sealed (along : s.Along tokens) (start : Position) :
    (wordExpression start).Yields (sqlLevels f limit) s fun e _ => e.Sealed tokens := by
  simp only [wordExpression, yields_bind, yields_peek, yields_checkKeyword, yields_ite]
  intro u _ _ _
  split
  · exact keywordForm_sealed along _ fun _ _ => caseExpression_sealed
  intro _ _
  split
  · exact keywordForm_sealed along _ fun _ along => castExpression_sealed along
  intro _ _
  split
  · exact keywordForm_sealed along _ fun _ along => existsExpression_sealed along
  refine yields_of_forall fun value s => ?_
  cases value with
  | some value => exact yields_then fun _ _ => (yields_pure _).mpr ⟨rfl, rfl, rfl⟩
  | none =>
    refine yields_then fun token _ => ?_
    split
    · rw [yields_ite]
      split
      · exact yields_then fun _ _ => functionCall_sealed _ _
      · exact (yields_failAny _).mpr trivial
    · exact nameExpression_sealed

/-- An expression without operators around its parts leaves none open. -/
theorem primary_sealed (along : s.Along tokens) :
    primary.Yields (sqlLevels f limit) s fun e _ => e.Sealed tokens := by
  have alone (start : Position) {kind : ExprKind} (sealed : ∀ span, (Expr.mk kind span).Sealed tokens) :
      (single start kind).Yields (sqlLevels f limit) s fun e _ => e.Sealed tokens :=
    yields_then fun _ _ => yields_then fun span _ => (yields_pure _).mpr (sealed span)
  simp only [primary, yields_bind, yields_start, yields_peek]
  intro t _ u _
  split
  · exact alone _ fun _ => ⟨rfl, rfl, rfl⟩
  · exact alone _ fun _ => ⟨rfl, rfl, rfl⟩
  · exact alone _ fun _ => ⟨rfl, rfl, rfl⟩
  · exact alone _ fun _ => ⟨rfl, rfl, rfl⟩
  · exact alone _ fun _ => ⟨rfl, rfl, rfl⟩
  · exact yields_then fun _ _ => yields_then fun _ _ => yields_then fun _ _ =>
      (yields_pure _).mpr ⟨rfl, rfl, rfl⟩
  · exact yields_then fun _ _ => yields_then fun _ _ => yields_then fun _ _ =>
      (yields_pure _).mpr ⟨rfl, rfl, rfl⟩
  · simp only [yields_bind, yields_checkKeyword, yields_ite, yields_spanFrom, yields_pure]
    refine yields_of_forall fun _ _ _ _ => ?_
    split
    · exact yields_of_forall fun _ _ => yields_of_forall fun _ _ => ⟨rfl, rfl, rfl⟩
    · exact yields_of_forall fun _ _ => yields_of_forall fun _ _ => ⟨rfl, rfl, rfl⟩
  · exact wordExpression_sealed along _
  · exact wordExpression_sealed along _
  · exact (yields_failAny _).mpr trivial

end

end SqlTree
