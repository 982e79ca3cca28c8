import SqlTree.Token

namespace SqlTree

/-- How many parentheses are open behind some tokens if `depth` are open in front of them, as long as
none is closed that is not open. -/
def openBehind (depth : Nat) : List Token → Option Nat
  | [] => some depth
  | t :: tokens =>
    match t.kind with
    | .leftParen => openBehind (depth + 1) tokens
    | .rightParen => if depth = 0 then none else openBehind (depth - 1) tokens
    | _ => openBehind depth tokens

/-- Every parenthesis among the tokens is closed among them. -/
def Nested (tokens : List Token) : Prop := ∀ depth, openBehind depth tokens = some depth

section

variable {depth : Nat} {t : Token} {tokens more : List Token}

theorem openBehind_left (left : t.kind = .leftParen) :
    openBehind depth (t :: tokens) = openBehind (depth + 1) tokens := by
  simp [openBehind, left]

theorem openBehind_right (right : t.kind = .rightParen) :
    openBehind (depth + 1) (t :: tokens) = openBehind depth tokens := by
  simp [openBehind, right]

theorem openBehind_other (left : t.kind ≠ .leftParen) (right : t.kind ≠ .rightParen) :
    openBehind depth (t :: tokens) = openBehind depth tokens := by
  rw [openBehind]
  split
  · exact absurd ‹_› left
  · exact absurd ‹_› right
  · rfl

/-- What is open behind some tokens is open in front of those that follow. -/
theorem openBehind_append (depth : Nat) (tokens more : List Token) :
    openBehind depth (tokens ++ more) = (openBehind depth tokens).bind (openBehind · more) := by
  induction tokens generalizing depth with
  | nil => rfl
  | cons t tokens ih =>
    simp only [List.cons_append, openBehind]
    split
    · exact ih _
    · split
      · rfl
      · exact ih _
    · exact ih _

/-- What is open in front of the rest of nested tokens is closed behind it. -/
theorem Nested.drop (nested : Nested tokens) (i : Nat) :
    ∃ depth, openBehind depth (tokens.drop i) = some 0 := by
  have whole := nested 0
  rw [← List.take_append_drop i tokens, openBehind_append] at whole
  obtain ⟨depth, -, rest⟩ := Option.bind_eq_some_iff.mp whole
  exact ⟨depth, rest⟩

end

end SqlTree
