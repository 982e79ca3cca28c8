import SqlTree.Rule.State

namespace SqlTree

/-- A rule that reads an `α` from a text, or fails. The rules that may be called again from inside
themselves have names in `Sym`; all others are written out where they are used. -/
inductive Rule (Sym : Type → Type) : Type → Type 1 where
  | pure {α : Type} (value : α) : Rule Sym α
  | bind {α β : Type} (first : Rule Sym α) (next : α → Rule Sym β) : Rule Sym β
  /-- Fails. -/
  | fail {α : Type} (failure : Failure) : Rule Sym α
  /-- The next token, which stays. -/
  | peek : Rule Sym Token
  /-- Consumes the next token. -/
  | bump : Rule Sym Token
  /-- The end of the last token that was consumed. -/
  | lastEnd : Rule Sym Position
  /-- The text under a span. -/
  | slice (span : Span) : Rule Sym String
  /-- Counts one more positional placeholder. -/
  | nextParam : Rule Sym Nat
  /-- Puts a mismatch aside. -/
  | note (m : Mismatch) : Rule Sym Unit
  /-- Fails if the analysis is to be left. -/
  | checkCancelled : Rule Sym Unit
  /-- Sets after how many checks the analysis is to be left. -/
  | setCancelAfter (checks : Option Nat) : Rule Sym Unit
  /-- Tries a rule. If it fails, everything that it consumed is restored, and a mismatch gives
  way to `other`. -/
  | orElse {α : Type} (rule : Rule Sym α) (other : Mismatch → Rule Sym α) : Rule Sym α
  /-- The answer of a rule, with everything that it consumed restored. -/
  | lookahead {α : Type} (rule : Rule Sym α) : Rule Sym α
  /-- Reports a mismatch of the rule at the furthest place that any mismatch put aside has. -/
  | reporting {α : Type} (rule : Rule Sym α) : Rule Sym α
  /-- A rule one level of nesting deeper; fails where no level is left. -/
  | nested {α : Type} (rule : Rule Sym α) : Rule Sym α
  /-- Repeats `step` until it gives nothing or consumes nothing. -/
  | loop {σ : Type} (step : σ → Rule Sym (Option σ)) (first : σ) : Rule Sym σ
  /-- The rule with a name, one level of nesting deeper. -/
  | call {α : Type} (name : Sym α) : Rule Sym α

namespace Rule

variable {Sym : Type → Type} {α : Type}

instance : Monad (Rule Sym) where
  pure := Rule.pure
  bind := Rule.bind

/-- Where the next token starts. -/
def start : Rule Sym Position := do
  return (← peek).span.start

/-- From `start` to the end of the last token consumed since. -/
def spanFrom (start : Position) : Rule Sym Span := do
  return ⟨start, (← lastEnd).later start⟩

/-- Fails at the next token, where one of `expected` was to stand. -/
def failAny (expected : List String) : Rule Sym α := do
  let token ← peek
  fail (.mismatch ⟨token.span.start, expected, token.describe⟩)

/-- Whether the next token is of a kind, whatever its value. -/
def check (kind : TokenKind) : Rule Sym Bool := do
  return (← peek).kind.sameKind kind

/-- Whether the next token is a word, reserved or not. -/
def checkKeyword (k : Keyword) : Rule Sym Bool := do
  return (← peek).spells k

/-- Consumes the next token if it is of a kind. -/
def eat (kind : TokenKind) : Rule Sym Bool := do
  if ← check kind then
    let _ ← bump
    return true
  else return false

/-- Consumes the next token if it is a word. -/
def eatKeyword (k : Keyword) : Rule Sym Bool := do
  if ← checkKeyword k then
    let _ ← bump
    return true
  else return false

/-- Consumes the next token, which has to be of a kind. -/
def expect (kind : TokenKind) : Rule Sym Token := do
  if ← check kind then bump else failAny [kind.describe]

/-- Consumes the next token, which has to be a word. -/
def expectKeyword (k : Keyword) : Rule Sym Token := do
  if ← checkKeyword k then bump else failAny [k.spelling]

/-- Tries a rule. If it fails, everything that it consumed is restored. -/
def attempt (rule : Rule Sym α) : Rule Sym α :=
  orElse rule fun m => fail (.mismatch m)

/-- The first alternative that fits, when the ones before have failed as `failure` says. -/
def choiceAfter : Option Mismatch → List (Rule Sym α) → Rule Sym α
  | some m, [] => fail (.mismatch m)
  | none, [] => failAny []
  | failure, rule :: rules =>
    orElse rule fun m =>
      match failure with
      | some previous => choiceAfter (some (previous.merge m)) rules
      | none => choiceAfter (some m) rules

/-- The first alternative that fits. If none does, the mismatches are merged. -/
def choice (rules : List (Rule Sym α)) : Rule Sym α := choiceAfter none rules

/-- A rule that may be left out. -/
def optional (rule : Rule Sym α) : Rule Sym (Option α) :=
  orElse (do return some (← rule)) fun m => do
    note m
    return none

/-- A rule as often as it fits. A fit that consumed nothing is the last one. -/
def many (rule : Rule Sym α) : Rule Sym (List α) := do
  let step (items : List α) : Rule Sym (Option (List α)) := do
    return (← optional rule).map (· :: items)
  return (← loop step []).reverse

/-- One or more, with commas between them. -/
def commaSeparated (rule : Rule Sym α) : Rule Sym (List α) := do
  let first ← rule
  let rest ← many do
    let _ ← expect .comma
    rule
  return first :: rest

/-- One or more between parentheses, with commas between them. -/
def parenthesizedList (rule : Rule Sym α) : Rule Sym (List α) := do
  let _ ← expect .leftParen
  let items ← commaSeparated rule
  let _ ← expect .rightParen
  return items

/-- A rule that has to consume the whole text, up to one semicolon. -/
def complete (entry : Rule Sym α) : Rule Sym α := do
  let value ← attempt entry
  let _ ← eat .semicolon
  if ← check .eof then return value else failAny [TokenKind.eof.describe]

/-- A rule for a whole text. A mismatch is reported at the furthest place reached. -/
def run (entry : Rule Sym α) : Rule Sym α := reporting (complete entry)

end Rule

end SqlTree
