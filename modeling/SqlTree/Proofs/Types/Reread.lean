import SqlTree.Proofs.Diverging.Boundaries
import SqlTree.Proofs.Lexing.Words
import SqlTree.Proofs.Types.Written

namespace SqlTree

open Rule SqlRule

section

variable {sheet : Sheet} {i j k : Nat} {used rest : List Token} {t : Token}

/-- What is left of a sheet begins with its next token. -/
theorem Sheet.of_drop_cons (split : sheet.tokens.drop i = t :: rest) :
    i < sheet.length ∧ sheet.tokenAt i = t ∧ sheet.tokens.drop (i + 1) = rest := by
  have lt : i < sheet.length := by
    by_contra ge
    rw [List.drop_eq_nil_of_le (Nat.le_of_not_lt ge)] at split
    cases split
  rw [sheet.drop_of_lt lt] at split
  obtain ⟨same, rest⟩ := List.cons.inj split
  exact ⟨lt, same, rest⟩

namespace Rule

section

variable {levels : List (TapeLevel Symbol)} {σ : Type} {step : σ → SqlRule (Option σ)} {x y z : σ}

/-- Repetitions stop with a step that gives nothing. -/
theorem Comes.loop_stop (forward : ∀ level ∈ levels, level.Forward)
    (last : (step x).Comes levels sheet i none k) : (loop step x).Comes levels sheet i x k := by
  refine fun s here => succeeds_loop_of_step forward ((last s here).mono ?_)
  rintro _ after ⟨rfl, there, params⟩
  exact ⟨rfl, there, params⟩

theorem Comes.loop_next (forward : ∀ level ∈ levels, level.Forward)
    (first : (step x).Comes levels sheet i (some y) k) (lt : i < k)
    (rest : (loop step y).Comes levels sheet k z j) : (loop step x).Comes levels sheet i z j := by
  refine fun s here => succeeds_loop_of_step forward ((first s here).mono ?_)
  rintro _ mid ⟨rfl, there, params⟩
  have further : s.lastEnd.offset < mid.lastEnd.offset := by
    rw [here.lastEnd, there.lastEnd]
    exact sheet.stopAt_lt lt there.within
  dsimp only
  rw [if_pos further]
  exact (rest mid there).mono fun _ _ ⟨same, place, params'⟩ => ⟨same, place, params'.trans params⟩

end

end Rule

variable {f : Features} {limit : Nat}

/-- One token of the arguments is taken as it changes the depth. -/
theorem comes_balancedStep (lt : i < sheet.length) (depth : Nat) :
    (balancedStep depth).Comes (sqlLevels f limit) sheet i (depthBehind depth (sheet.tokenAt i)) (i + 1) := by
  have notEof : (sheet.tokenAt i).kind ≠ .eof := by
    rw [sheet.tokenAt_of_lt lt]
    exact beq_eq_false_iff_ne.mp (sheet.notEof _ (List.getElem_mem lt))
  have take (next : Option Nat) : (do let _ ← bump; return next : SqlRule (Option Nat)).Comes
      (sqlLevels f limit) sheet i next (i + 1) := (comes_bump lt).bind (comes_pure next)
  refine comes_peek.bind ?_
  unfold depthBehind
  revert notEof
  cases (sheet.tokenAt i).kind with
  | eof => exact fun notEof => absurd rfl notEof
  | _ => exact fun _ => take _

/-- The tokens of an argument are taken up to the one that closes the last parenthesis. -/
theorem comes_balancedSteps {depth : Nat} (enclosed : Enclosed depth used)
    (split : sheet.tokens.drop i = used ++ rest) :
    ∃ last, (loop balancedStep depth).Comes (sqlLevels f limit) sheet i last (i + used.length) := by
  induction enclosed generalizing i with
  | last notEof closes =>
    obtain ⟨lt, rfl, -⟩ := Sheet.of_drop_cons split
    exact ⟨_, .loop_stop (sqlLevels_forward f limit) (closes ▸ comes_balancedStep lt _)⟩
  | next notEof goesOn _ ih =>
    obtain ⟨lt, rfl, behind⟩ := Sheet.of_drop_cons split
    obtain ⟨last, comes⟩ := ih behind
    refine ⟨last, .loop_next (sqlLevels_forward f limit) (goesOn ▸ comes_balancedStep lt _)
      (Nat.lt_succ_self i) ?_⟩
    rwa [List.length_cons, Nat.add_comm _ 1, ← Nat.add_assoc]

theorem comes_balanced (enclosed : Enclosed 0 used) (split : sheet.tokens.drop i = used ++ rest) :
    balanced.Comes (sqlLevels f limit) sheet i () (i + used.length) := by
  obtain ⟨last, comes⟩ := comes_balancedSteps enclosed split
  exact comes.bind (comes_pure ())

/-- The words behind the first one, up to what is none. -/
theorem comes_furtherWords {words : List String} (further : FurtherWords used words) (first : String)
    (split : sheet.tokens.drop i = used ++ rest)
    (ends : (sheet.tokenAt (i + used.length)).typeWord? false = none) :
    (loop furtherWord first).Comes (sqlLevels f limit) sheet i (joined first words) (i + used.length) := by
  induction further generalizing i first with
  | nil =>
    have ended : (sheet.tokenAt i).typeWord? false = none := ends
    refine .loop_stop (sqlLevels_forward f limit) ((comes_typeWord? false).bind ?_)
    rw [ended]
    exact comes_pure none
  | @cons t word used words found _ ih =>
    obtain ⟨lt, rfl, behind⟩ := Sheet.of_drop_cons split
    have place : i + (sheet.tokenAt i :: used).length = i + 1 + used.length := by
      rw [List.length_cons, Nat.add_comm _ 1, ← Nat.add_assoc]
    rw [place] at ends ⊢
    refine .loop_next (sqlLevels_forward f limit) ((comes_typeWord? false).bind ?_) (Nat.lt_succ_self i)
      (ih (s!"{first} {word}") behind ends)
    rw [found]
    exact (comes_bump lt).bind (comes_pure _)

/-- The words of a type at the end of a text. -/
theorem comes_words {words : List String} (further : FurtherWords used words) (first : String)
    (split : sheet.tokens.drop i = used) (isEof : sheet.closing.isEof = true) :
    (customType first).Comes (sqlLevels f limit) sheet i (.custom (joined first words)) (i + used.length) := by
  have ended : (sheet.tokenAt (i + used.length)).kind = .eof := by
    have ge : sheet.length ≤ i + used.length := by
      have := congrArg List.length split
      rw [List.length_drop] at this
      change sheet.tokens.length ≤ _
      omega
    rw [sheet.tokenAt_of_ge ge]
    simpa [Token.isEof] using isEof
  have ends : (sheet.tokenAt (i + used.length)).typeWord? false = none := by rw [Token.typeWord?, ended]
  rw [customType_eq]
  refine (comes_furtherWords further first (split.trans (List.append_nil used).symm) ends).bind
    ((comes_check _).bind ?_)
  rw [ended]
  exact comes_pure _

/-- The words of a type with its arguments. -/
theorem comes_arguments {words : List String} {args : List Token} (further : FurtherWords used words)
    (first : String) (split : sheet.tokens.drop i = used ++ t :: args) (left : t.kind = .leftParen)
    (enclosed : Enclosed 0 (t :: args)) :
    (customType first).Comes (sqlLevels f limit) sheet i (.custom (joined first words ++
      sheet.written (i + used.length) (i + (used ++ t :: args).length))) (i + (used ++ t :: args).length) := by
  have split' : sheet.tokens.drop (i + used.length) = t :: args := by
    rw [← List.drop_drop, split, List.drop_left]
  obtain ⟨lt, here, -⟩ := Sheet.of_drop_cons split'
  have ends : (sheet.tokenAt (i + used.length)).typeWord? false = none := by
    rw [here, Token.typeWord?, left]
  rw [customType_eq]
  refine (comes_furtherWords further first split ends).bind ((comes_check _).bind ?_)
  rw [here, left]
  have opened := List.append_nil (t :: args) ▸ split'
  refine comes_start.bind ((comes_balanced enclosed opened).bind ?_)
  rw [List.length_append, ← Nat.add_assoc]
  intro s there
  have lt' : i + used.length < i + used.length + (t :: args).length := by simp
  refine (Diverging.succeeds_written _ lt' there).mono ?_
  rintro _ _ ⟨rfl, rfl⟩
  exact ⟨rfl, there, rfl⟩

/-- The first word of a type, and what it goes on with. -/
theorem comes_dataType {first : String} {type : DataType} (lt : i < sheet.length)
    (found : (sheet.tokenAt i).typeWord? true = some first)
    (verbatim : DataType.argumentsOf first = .verbatim)
    (behind : (customType first).Comes (sqlLevels f limit) sheet (i + 1) type k) :
    dataType.Comes (sqlLevels f limit) sheet i type k := by
  refine (comes_typeWord? true).bind ?_
  rw [found]
  refine (comes_bump lt).bind ?_
  rw [typeName_of_verbatim verbatim]
  refine (comes_pure first).bind ?_
  rw [verbatim]
  exact behind

end

end SqlTree
