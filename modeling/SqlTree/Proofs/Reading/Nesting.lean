import SqlTree.Dialect.Builtin
import SqlTree.Proofs.Reading.Terminal

namespace SqlTree

/-- A rule leaves the level of nesting at which it began, whatever it ends in. -/
theorem Rule.eval_nesting {Sym : Type → Type} {α : Type} (rules : LexicalRules)
    (body : ∀ α : Type, Sym α → Rule Sym α) (limit : Nat) (rule : Rule Sym α) (st : State) :
    (rule.eval rules (Rule.levels rules body limit) st).2.nesting = st.nesting := by
  rw [← rule.logWithin_outcome]
  exact (rule.logWithin_orderly rules body limit st).nesting

namespace SqlRule

/-- A text as a model of some kind, with a limit of nesting. -/
def runWithin (limit : Nat) (d : Dialect) (kind : ModelKind) (text : List Char) : Except Failure Model :=
  (evalWithin limit d.lexical d.features (entry d.features kind).run (.ofText text)).1

/-- Such an evaluation with its log. -/
def logOf (limit : Nat) (d : Dialect) (kind : ModelKind) (text : List Char) : Logged Model :=
  (entry d.features kind).run.logWithin d.lexical (Symbol.body d.features) limit (.ofText text)

/-- With more levels of nesting a text has the same model or error, unless there were too few. -/
theorem runWithin_eq_of_le (d : Dialect) (kind : ModelKind) (text : List Char) {limit limit' : Nat}
    (le : limit ≤ limit') :
    (∃ p, runWithin limit d kind text = .error (.tooDeep p)) ∨
      runWithin limit' d kind text = runWithin limit d kind text := by
  have cut := run_cutsShort False True d.lexical d.features kind le (.inr trivial) (.ofText text) none
    rfl (.inr rfl)
  have asked : (State.ofText text).askedAfter none = .ofText text := rfl
  rw [asked] at cut
  rcases cut with ⟨none, -⟩ | ⟨-, deep⟩ | ⟨-, _, -, same⟩
  · exact none.elim
  · exact .inl deep
  · have results := congrArg Prod.fst same
    exact .inr results.symm

/-- The limit of nesting only cuts: more levels change nothing but an answer that said that there were
too few, and give that answer nowhere else. -/
theorem limit_only_cuts (d : Dialect) (kind : ModelKind) (text : List Char) {limit limit' : Nat}
    (le : limit ≤ limit') :
    ((∀ p, runWithin limit d kind text ≠ .error (.tooDeep p)) →
        runWithin limit' d kind text = runWithin limit d kind text) ∧
      (∀ p', runWithin limit' d kind text = .error (.tooDeep p') →
        ∃ p, runWithin limit d kind text = .error (.tooDeep p)) ∧
      (logOf limit d kind text).outcome.1 = runWithin limit d kind text ∧
      (∀ e ∈ (logOf limit d kind text).log, e.state.nesting ≤ limit) ∧
      ∀ {α : Type} (rule : SqlRule α) (st : State),
        (evalWithin limit d.lexical d.features rule st).2.nesting = st.nesting := by
  have cut := runWithin_eq_of_le d kind text le
  refine ⟨fun enough => ?_, fun p' deep => ?_, ?_, ?_, ?_⟩
  · exact cut.resolve_left fun ⟨p, deep⟩ => enough p deep
  · rcases cut with few | same
    · exact few
    · exact ⟨p', same ▸ deep⟩
  · exact congrArg Prod.fst (Rule.logWithin_outcome ..)
  · have orderly := (entry d.features kind).run.logWithin_orderly d.lexical (Symbol.body d.features)
      limit (.ofText text)
    exact fun e mem => Nat.le_trans (orderly.within e mem) (Nat.le_of_eq (Nat.zero_add limit))
  · exact fun rule st => rule.eval_nesting d.lexical (Symbol.body d.features) limit st

/-- Two levels are enough for a number between parentheses, and one is not. -/
theorem limit_only_cuts_parenthesized :
    (∃ p, runWithin 1 Dialect.sqlite .expression "(1)".toList = .error (.tooDeep p)) ∧
      2 ≤ maxNesting ∧
      (∀ p, runWithin 2 Dialect.sqlite .expression "(1)".toList ≠ .error (.tooDeep p)) ∧
      runWithin maxNesting Dialect.sqlite .expression "(1)".toList =
        runWithin 2 Dialect.sqlite .expression "(1)".toList := by
  have few : runWithin 1 Dialect.sqlite .expression "(1)".toList = .error (.tooDeep ⟨1, 1, 2⟩) := rfl
  have enough : ∀ p, runWithin 2 Dialect.sqlite .expression "(1)".toList ≠ .error (.tooDeep p) := by
    intro p deep
    have number : (runWithin 2 Dialect.sqlite .expression "(1)".toList).toOption.isSome = true := rfl
    rw [deep] at number
    cases number
  have le : 2 ≤ maxNesting := by decide
  exact ⟨⟨_, few⟩, le, enough, (limit_only_cuts Dialect.sqlite .expression _ le).1 enough⟩

end SqlRule

end SqlTree
