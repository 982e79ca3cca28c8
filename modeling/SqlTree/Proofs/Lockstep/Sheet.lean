import SqlTree.Proofs.Lockstep.Like
import SqlTree.Proofs.Reading.Moves
import SqlTree.Proofs.Types.Named

namespace SqlTree

/-- Tokens of a text behind a place, one behind the other, with the tokens that are left of the text
behind them, and the end of the text. -/
structure Sheet where
  text : List Char
  before : Position
  tokens : List Token
  rest : List Token
  eof : Token
  ordered : Ordered before.offset tokens
  notEof : ∀ t ∈ tokens, t.isEof = false
  behind : (endBehind before tokens).offset ≤ (rest.headD eof).span.start.offset

namespace Sheet

variable (sheet : Sheet) {i j : Nat}

abbrev length : Nat := sheet.tokens.length

/-- The token with which the tokens of a sheet end: the next one of the text, or the end of it. -/
def closing : Token := sheet.rest.headD sheet.eof

/-- The token behind the first `i` ones. -/
def tokenAt (i : Nat) : Token := sheet.tokens.getD i sheet.closing

def startAt (i : Nat) : Position := (sheet.tokenAt i).span.start

/-- The end of the first `i` tokens. -/
def stopAt (i : Nat) : Position := endBehind sheet.before (sheet.tokens.take i)

/-- The tokens from one place to another. -/
def between (i j : Nat) : List Token := (sheet.tokens.take j).drop i

/-- The text from the start of a token to the end of the first `j` ones. -/
def written (i j : Nat) : String :=
  String.ofList ((sliceBytes sheet.text (sheet.startAt i).offset (sheet.stopAt j).offset).getD [])

/-- Within a sheet the tokens are its own. -/
theorem tokenAt_of_lt (lt : i < sheet.length) : sheet.tokenAt i = sheet.tokens[i] := by
  simp [tokenAt, List.getD_eq_getElem?_getD, show i < sheet.tokens.length from lt]

/-- Behind a sheet there is only the token that closes it. -/
theorem tokenAt_of_ge (ge : sheet.length ≤ i) : sheet.tokenAt i = sheet.closing := by
  simp [tokenAt, List.getD_eq_getElem?_getD, List.getElem?_eq_none ge]

theorem tokenAt_length : sheet.tokenAt sheet.length = sheet.closing :=
  sheet.tokenAt_of_ge (Nat.le_refl _)

/-- What is left of the tokens begins with the next one. -/
theorem drop_of_lt (lt : i < sheet.length) :
    sheet.tokens.drop i = sheet.tokenAt i :: sheet.tokens.drop (i + 1) := by
  rw [sheet.tokenAt_of_lt lt]
  exact List.drop_eq_getElem_cons lt

theorem between_self (i : Nat) : sheet.between i i = [] :=
  List.drop_eq_nil_of_le (List.length_take_le i sheet.tokens)

/-- Going on by one token adds it to those that were passed. -/
theorem between_succ (le : i ≤ j) (lt : j < sheet.length) :
    sheet.between i (j + 1) = sheet.between i j ++ [sheet.tokenAt j] := by
  have before : i ≤ (sheet.tokens.take j).length := by
    rw [List.length_take]
    exact Nat.le_min.mpr ⟨le, Nat.le_trans le (Nat.le_of_lt lt)⟩
  rw [between, between, sheet.tokenAt_of_lt lt, ← List.drop_append_of_le_length before,
    List.take_append_getElem]

theorem between_of_lt (lt : i < j) (inside : i < sheet.length) :
    sheet.between i j = sheet.tokenAt i :: sheet.between (i + 1) j := by
  have before : i < (sheet.tokens.take j).length := by
    rw [List.length_take]
    exact Nat.lt_min.mpr ⟨lt, inside⟩
  rw [between, List.drop_eq_getElem_cons before, List.getElem_take, between, sheet.tokenAt_of_lt inside]

/-- A token that was consumed is the last one. -/
theorem stopAt_succ (lt : i < sheet.length) : sheet.stopAt (i + 1) = (sheet.tokenAt i).span.stop := by
  have last : sheet.tokens.take (i + 1) = sheet.tokens.take i ++ [sheet.tokenAt i] := by
    rw [sheet.tokenAt_of_lt lt, List.take_append_getElem]
  rw [stopAt, last, endBehind_append]
  rfl

/-- The last token that was consumed ends where the sheet says. -/
theorem endBehind_between (lt : i < j) (within : j ≤ sheet.length) :
    endBehind (sheet.tokenAt i).span.stop (sheet.between (i + 1) j) = sheet.stopAt j := by
  have whole : sheet.tokens.take j = (sheet.tokens.take j).take i ++ sheet.between i j :=
    (List.take_append_drop i (sheet.tokens.take j)).symm
  rw [sheet.between_of_lt lt (Nat.lt_of_lt_of_le lt within)] at whole
  rw [stopAt, whole, endBehind_append, endBehind_cons]

/-- The tokens behind the first `i` ones lie behind their end. -/
theorem ordered_drop : Ordered (sheet.stopAt i).offset (sheet.tokens.drop i) := by
  have ordered := sheet.ordered
  rw [← List.take_append_drop i sheet.tokens] at ordered
  exact ordered.split.2

/-- No token starts in front of the end of the one before it. -/
theorem stopAt_le_startAt (within : i ≤ sheet.length) :
    (sheet.stopAt i).offset ≤ (sheet.startAt i).offset := by
  rcases Nat.lt_or_eq_of_le within with lt | rfl
  · have ordered := sheet.ordered_drop (i := i)
    rw [sheet.drop_of_lt lt] at ordered
    exact ordered.1
  · rw [startAt, tokenAt_length, stopAt, length, List.take_length]
    exact sheet.behind

theorem startAt_lt_stopAt_succ (lt : i < sheet.length) :
    (sheet.startAt i).offset < (sheet.stopAt (i + 1)).offset := by
  have ordered := sheet.ordered_drop (i := i)
  rw [sheet.drop_of_lt lt] at ordered
  rw [sheet.stopAt_succ lt]
  exact ordered.2.1

/-- Tokens take up space. -/
theorem startAt_lt_stopAt (lt : i < j) (within : j ≤ sheet.length) :
    (sheet.startAt i).offset < (sheet.stopAt j).offset := by
  induction j with
  | zero => omega
  | succ j ih =>
    rcases Nat.lt_or_eq_of_le (Nat.le_of_lt_succ lt) with lt | rfl
    · have := ih lt (by omega)
      have := sheet.stopAt_le_startAt (i := j) (by omega)
      have := sheet.startAt_lt_stopAt_succ (i := j) within
      omega
    · exact sheet.startAt_lt_stopAt_succ within

/-- Tokens start one behind the other. -/
theorem startAt_lt (lt : i < j) (within : j ≤ sheet.length) :
    (sheet.startAt i).offset < (sheet.startAt j).offset :=
  Nat.lt_of_lt_of_le (sheet.startAt_lt_stopAt lt within) (sheet.stopAt_le_startAt within)

/-- Tokens end one behind the other. -/
theorem stopAt_lt (lt : i < j) (within : j ≤ sheet.length) :
    (sheet.stopAt i).offset < (sheet.stopAt j).offset :=
  Nat.lt_of_le_of_lt (sheet.stopAt_le_startAt (by omega)) (sheet.startAt_lt_stopAt lt within)

theorem stopAt_le (le : i ≤ j) (within : j ≤ sheet.length) :
    (sheet.stopAt i).offset ≤ (sheet.stopAt j).offset := by
  rcases Nat.lt_or_eq_of_le le with lt | rfl
  · exact Nat.le_of_lt (sheet.stopAt_lt lt within)
  · exact Nat.le_refl _

/-- Tokens are counted in the order of the text. -/
theorem startAt_lt_iff (hi : i ≤ sheet.length) (hj : j ≤ sheet.length) :
    (sheet.startAt i).offset < (sheet.startAt j).offset ↔ i < j := by
  constructor
  · intro before
    by_contra notLt
    rcases Nat.lt_or_eq_of_le (Nat.le_of_not_lt notLt) with lt | rfl
    · have := sheet.startAt_lt lt hi
      omega
    · exact Nat.lt_irrefl _ before
  · exact fun lt => sheet.startAt_lt lt hj

theorem stopAt_lt_iff (hi : i ≤ sheet.length) (hj : j ≤ sheet.length) :
    (sheet.stopAt i).offset < (sheet.stopAt j).offset ↔ i < j := by
  constructor
  · intro before
    by_contra notLt
    rcases Nat.lt_or_eq_of_le (Nat.le_of_not_lt notLt) with lt | rfl
    · have := sheet.stopAt_lt lt hi
      omega
    · exact Nat.lt_irrefl _ before
  · exact fun lt => sheet.stopAt_lt lt hj

end Sheet

/-- A tape over the tokens of a sheet that nobody asks to leave. -/
structure Tape.Over (sheet : Sheet) (s : Tape) : Prop where
  text : s.text = sheet.text
  stop : s.stop = .ok sheet.eof
  cancelAfter : s.cancelAfter = none

/-- A tape over the tokens of a sheet that stands behind the first `i` ones. -/
structure Tape.At (sheet : Sheet) (i : Nat) (s : Tape) : Prop extends s.Over sheet where
  within : i ≤ sheet.length
  tokens : s.tokens = sheet.tokens.drop i ++ sheet.rest
  lastEnd : s.lastEnd = sheet.stopAt i

namespace Tape.At

variable {sheet : Sheet} {i : Nat} {s : Tape}

/-- The next token is the one with the number of those that were consumed. -/
theorem peek (here : s.At sheet i) : s.peek = .ok (sheet.tokenAt i) := by
  unfold Tape.peek
  rcases Nat.lt_or_eq_of_le here.within with lt | rfl
  · rw [here.tokens, sheet.drop_of_lt lt]
    rfl
  · rw [here.tokens, here.stop, sheet.tokenAt_length, Sheet.length, List.drop_length, Sheet.closing]
    cases sheet.rest <;> rfl

/-- Consuming the next token leads to the place behind it. -/
theorem bump (here : s.At sheet i) (lt : i < sheet.length) :
    s.bump.1 = .ok (sheet.tokenAt i) ∧ s.bump.2.At sheet (i + 1) ∧
      s.bump.2.params = s.params ∧ s.bump.2.furthest = s.furthest := by
  unfold Tape.bump
  rw [here.tokens, sheet.drop_of_lt lt, List.cons_append]
  refine ⟨rfl, ⟨⟨here.text, here.stop, here.cancelAfter⟩, lt, rfl, ?_⟩, rfl, rfl⟩
  rw [sheet.stopAt_succ lt]

/-- A tape has at least the tokens that are left of its sheet. -/
theorem length_le (here : s.At sheet i) : sheet.length - i ≤ s.tokens.length := by
  rw [here.tokens, List.length_append, List.length_drop]
  exact Nat.le_add_right ..

end Tape.At

/-- Two texts whose tokens are written alike, and whose places correspond. The second one may go on
behind a semicolon where the first one ends, if every parenthesis of the first one is closed. -/
structure Facing (L : Likeness) where
  left : Sheet
  right : Sheet
  /-- Whether what fails on both sides is compared, too. -/
  exact : Prop
  tokens : List.Forall₂ Token.Like left.tokens right.tokens
  isEof : left.closing.isEof = true
  closing : left.closing.Like right.closing ∨
    right.closing.kind = .semicolon ∧ Nested left.tokens ∧ ¬ exact
  start : ∀ i ≤ left.length, L.place (left.startAt i) (right.startAt i)
  stop : ∀ i ≤ left.length, ∀ j ≤ left.length,
    L.place ((left.stopAt j).later (left.startAt i)) ((right.stopAt j).later (right.startAt i))
  written : ∀ words h i j, TypeTokens left.tokens words h i j →
    L.written words (left.written i j) (right.written i j)

/-- Tokens that no rule for a part of a statement tells apart: they are written alike, or one is the
end of its text and the other one a semicolon. -/
inductive Token.Meets (t t' : Token) : Prop
  | like : t.Like t' → Meets t t'
  | closing : t.kind = .eof → t'.kind = .semicolon → Meets t t'

namespace Facing

variable {L : Likeness} (texts : Facing L) {i : Nat}

/-- Both texts end together. -/
def Closed : Prop := texts.left.closing.Like texts.right.closing

theorem length : texts.right.length = texts.left.length := texts.tokens.length_eq.symm

/-- Within both texts tokens with the same number are written alike. -/
theorem like_of_lt (lt : i < texts.left.length) :
    (texts.left.tokenAt i).Like (texts.right.tokenAt i) := by
  have lt' : i < texts.right.length := texts.length ▸ lt
  rw [texts.left.tokenAt_of_lt lt, texts.right.tokenAt_of_lt lt']
  exact texts.tokens.get lt lt'

/-- Tokens with the same number are written alike everywhere if both texts end together. -/
theorem like (closed : texts.Closed) (i : Nat) :
    (texts.left.tokenAt i).Like (texts.right.tokenAt i) := by
  rcases Nat.lt_or_ge i texts.left.length with lt | ge
  · exact texts.like_of_lt lt
  · rw [texts.left.tokenAt_of_ge ge, texts.right.tokenAt_of_ge (texts.length ▸ ge)]
    exact closed

/-- Whatever closes them, no rule for a part of a statement tells the tokens apart. -/
theorem meets (i : Nat) : (texts.left.tokenAt i).Meets (texts.right.tokenAt i) := by
  rcases Nat.lt_or_ge i texts.left.length with lt | ge
  · exact .like (texts.like_of_lt lt)
  · rw [texts.left.tokenAt_of_ge ge, texts.right.tokenAt_of_ge (texts.length ▸ ge)]
    rcases texts.closing with like | ⟨semicolon, -, -⟩
    · exact .like like
    · exact .closing (by simpa [Token.isEof] using texts.isEof) semicolon

theorem closed_of_exact (exact : texts.exact) : texts.Closed :=
  texts.closing.resolve_right fun open_ => open_.2.2 exact

/-- A token that is not the end of the text is one of the tokens of both. -/
theorem lt_of_notEof (within : i ≤ texts.left.length) (notEof : (texts.left.tokenAt i).isEof = false) :
    i < texts.left.length := by
  refine Nat.lt_of_le_of_ne within ?_
  rintro rfl
  rw [texts.left.tokenAt_length, texts.isEof] at notEof
  cases notEof

/-- A token covers corresponding stretches of both texts. -/
theorem span (lt : i < texts.left.length) :
    (texts.left.tokenAt i).span.Like L (texts.right.tokenAt i).span := by
  have lt' : i < texts.right.length := texts.length ▸ lt
  refine ⟨texts.start i (Nat.le_of_lt lt), ?_⟩
  have stop := texts.stop i (Nat.le_of_lt lt) (i + 1) lt
  rwa [Position.later_of_lt (texts.left.startAt_lt_stopAt_succ lt), texts.left.stopAt_succ lt,
    Position.later_of_lt (texts.right.startAt_lt_stopAt_succ lt'), texts.right.stopAt_succ lt'] at stop

end Facing

end SqlTree
