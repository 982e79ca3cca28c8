import SqlTree.Grammar.TypeName
import SqlTree.Proofs.Lexing.Parentheses
import SqlTree.Proofs.Lexing.Pieces

namespace SqlTree

open SqlRule

/-- The word of the name of a type that a token is. -/
def Token.typeWord? (isFirst : Bool) (t : Token) : Option String :=
  match t.kind with
  | .identifier name =>
    if (if t.isQuoted then isFirst else isTypeWord name) then some name else none
  | .keyword k => if typeKeywords.contains k then some t.text else none
  | _ => none

/-- Tokens with the further words of the name of a type that they are. -/
abbrev FurtherWords : List Token → List String → Prop :=
  List.Forall₂ fun t word => t.typeWord? false = some word

/-- Tokens with the words of the name of a type that they are, the first of which may be quoted. -/
inductive TypeWords : List Token → List String → Prop
  | cons {t first tokens words} : t.typeWord? true = some first → FurtherWords tokens words →
      TypeWords (t :: tokens) (first :: words)

/-- Words one behind the other, with blanks between them. -/
def joined (first : String) (words : List String) : String :=
  words.foldl (fun name word => s!"{name} {word}") first

/-- How many parentheses are open behind a token of the arguments of a type, unless it closes the last one. -/
def depthBehind (depth : Nat) (t : Token) : Option Nat :=
  match t.kind with
  | .leftParen => some (depth + 1)
  | .rightParen => if depth ≤ 1 then none else some (depth - 1)
  | _ => if depth = 0 then none else some depth

/-- Tokens up to the one that closes the last parenthesis. -/
inductive Enclosed : Nat → List Token → Prop
  | last {depth t} : t.isEof = false → depthBehind depth t = none → Enclosed depth [t]
  | next {depth further t tokens} : t.isEof = false → depthBehind depth t = some further →
      Enclosed further tokens → Enclosed depth (t :: tokens)

/-- A type with arguments that are kept as they are written. Behind the first `h` tokens of a text stand the
words of its name, and behind the first `i` ones its arguments, from a parenthesis to the one that closes it,
up to the end of the first `j` ones. -/
structure TypeTokens (tokens : List Token) (words : List String) (h i j : Nat) : Prop where
  named : TypeWords ((tokens.take i).drop h) words
  opens : ∃ t, tokens[i]? = some t ∧ t.kind = .leftParen
  encloses : Enclosed 0 ((tokens.take j).drop i)
  within : j ≤ tokens.length

section

variable {t t' : Token} {tokens tokens' : List Token} {first word : String} {depth further : Nat}

/-- Tokens that are written alike are the same word of a type. -/
theorem Token.Like.typeWord? (like : t.Like t') (isFirst : Bool) :
    t'.typeWord? isFirst = t.typeWord? isFirst := by
  simp only [Token.typeWord?, like.kind, like.text, like.isQuoted]

/-- The end of a text is no word. -/
theorem Token.isEof_of_typeWord? {isFirst : Bool} (found : t.typeWord? isFirst = some word) :
    t.isEof = false := by
  rw [Token.isEof, beq_eq_false_iff_ne]
  intro isEof
  simp only [Token.typeWord?, isEof] at found
  cases found

/-- One more word behind the others. -/
theorem joined_append (first : String) (words : List String) (word : String) :
    joined first (words ++ [word]) = s!"{joined first words} {word}" := by
  rw [joined, List.foldl_append]
  rfl

theorem joined_toList (first : String) (words : List String) :
    (joined first words).toList = first.toList ++ words.flatMap fun word => ' ' :: word.toList := by
  induction words generalizing first with
  | nil => simp [joined]
  | cons word words ih =>
    have first : (s!"{first} {word}").toList = first.toList ++ ' ' :: word.toList := by
      rw [show s!"{first} {word}" = first ++ " " ++ word from rfl, String.toList_append, String.toList_append,
        List.append_assoc]
      rfl
    rw [joined, List.foldl_cons, ← joined, ih, first, List.flatMap_cons, List.append_assoc]

/-- The words of a name with blanks between them. -/
theorem joined_eq (first : String) (words : List String) :
    joined first words = " ".intercalate (first :: words) := by
  rw [← String.toList_inj, joined_toList, String.toList_intercalate]
  induction words generalizing first with
  | nil => simp
  | cons word words ih =>
    rw [List.flatMap_cons, List.map_cons, List.map_cons, List.intercalate_cons_cons, ← List.map_cons, ← ih,
      List.append_assoc]
    rfl

/-- A name that takes any arguments is none that is known. -/
theorem not_sameWord_of_verbatim (verbatim : DataType.argumentsOf first = .verbatim)
    (known : DataType.argumentsOf word ≠ .verbatim) : sameWord first word = false := by
  rw [Bool.eq_false_iff]
  intro same
  rw [DataType.argumentsOf, upperCase_eq_of_sameWord same] at verbatim
  exact known verbatim

/-- A name that takes any arguments is its first word alone. -/
theorem typeName_of_verbatim (verbatim : DataType.argumentsOf first = .verbatim) :
    typeName first = Pure.pure first := by
  rw [typeName, not_sameWord_of_verbatim verbatim (by decide), not_sameWord_of_verbatim verbatim (by decide)]
  rfl

/-- Parentheses are counted alike in texts that are written alike. -/
theorem depthBehind_like (like : t.Like t') (depth : Nat) : depthBehind depth t' = depthBehind depth t := by
  rw [depthBehind, like.kind, depthBehind]

/-- A token of the arguments leaves at least one parenthesis open, unless it is the last one. -/
theorem depthBehind_pos (goesOn : depthBehind depth t = some further) : 0 < further := by
  unfold depthBehind at goesOn
  split at goesOn
  · cases goesOn
    omega
  · split at goesOn <;> cases goesOn
    omega
  · split at goesOn <;> cases goesOn
    omega

/-- What is open around the arguments stays open. -/
theorem openBehind_of_depthBehind (goesOn : depthBehind depth t = some further) (outer : Nat) :
    openBehind (outer + depth) (t :: tokens) = openBehind (outer + further) tokens := by
  unfold depthBehind at goesOn
  split at goesOn
  · rename_i left
    cases goesOn
    exact openBehind_left left
  · rename_i right
    split at goesOn <;> cases goesOn
    obtain ⟨further, rfl⟩ := Nat.exists_eq_succ_of_ne_zero (by omega : depth ≠ 0)
    exact openBehind_right right
  · rename_i left right
    split at goesOn <;> cases goesOn
    exact openBehind_other left right

/-- Arguments that are written alike end alike. -/
theorem Enclosed.like (enclosed : Enclosed depth tokens) (likes : List.Forall₂ Token.Like tokens tokens') :
    Enclosed depth tokens' := by
  induction enclosed generalizing tokens' with
  | last notEof closes =>
    obtain ⟨t', _, like, none, rfl⟩ := List.forall₂_cons_left_iff.mp likes
    cases none
    exact .last (by rwa [Token.isEof, like.kind]) ((depthBehind_like like _).trans closes)
  | next notEof goesOn _ ih =>
    obtain ⟨t', rest, like, others, rfl⟩ := List.forall₂_cons_left_iff.mp likes
    exact .next (by rwa [Token.isEof, like.kind]) ((depthBehind_like like _).trans goesOn) (ih others)

/-- Arguments have at least one token. -/
theorem Enclosed.lt {i j : Nat} (enclosed : Enclosed depth ((tokens.take j).drop i)) :
    i < j ∧ i < tokens.length := by
  have inside : i < (tokens.take j).length := by
    by_contra le
    rw [List.drop_eq_nil_of_le (Nat.le_of_not_lt le)] at enclosed
    cases enclosed
  rw [List.length_take] at inside
  exact Nat.lt_min.mp inside

/-- More tokens behind a type change nothing about it. -/
theorem TypeTokens.append {words : List String} {h i j : Nat} (written : TypeTokens tokens words h i j)
    (more : List Token) : TypeTokens (tokens ++ more) words h i j := by
  have inside := written.encloses.lt
  refine ⟨?_, ?_, ?_, ?_⟩
  · rw [List.take_append_of_le_length (Nat.le_of_lt inside.2)]
    exact written.named
  · rw [List.getElem?_append_left inside.2]
    exact written.opens
  · rw [List.take_append_of_le_length written.within]
    exact written.encloses
  · rw [List.length_append]
    exact Nat.le_add_right_of_le written.within

end

end SqlTree
