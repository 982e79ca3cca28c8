import SqlTree.Rule.Eval

namespace SqlTree

/-- All tokens of a text that are left, so that nothing is read twice and nothing is remembered, what ends
them, and what the evaluation of rules carries along. -/
structure Tape where
  text : List Char
  tokens : List Token
  /-- The end of the text, or the lexical error that stands in the way. -/
  stop : Except LexError Token
  /-- The end of the last token that was consumed. -/
  lastEnd : Position
  params : Nat
  furthest : Option Mismatch
  cancelAfter : Option Nat

/-- What a rule gives over a tape: its value or a failure, and the tape it leaves. -/
abbrev Reading (α : Type) := Except Failure α × Tape

/-- What the named rules do over a tape one level of nesting deeper. -/
abbrev TapeLevel (Sym : Type → Type) := ∀ α : Type, Sym α → Tape → Reading α

namespace Tape

/-- The next token, which stays. -/
def peek (s : Tape) : Except Failure Token :=
  match s.tokens with
  | t :: _ => .ok t
  | [] => s.stop.mapError .lexical

/-- Consumes the next token. -/
def bump (s : Tape) : Reading Token :=
  match s.tokens with
  | t :: tokens => (.ok t, { s with tokens := tokens, lastEnd := t.span.stop })
  | [] =>
    match s.stop with
    | .ok eof => (.ok eof, { s with lastEnd := eof.span.stop })
    | .error e => (.error (.lexical e), s)

/-- Restores what is consumed and counted, and keeps the rest. -/
def backTo (s saved : Tape) : Tape :=
  { s with tokens := saved.tokens, lastEnd := saved.lastEnd, params := saved.params }

def note (s : Tape) (m : Mismatch) : Tape :=
  let furthest :=
    match s.furthest with
    | some previous => previous.merge m
    | none => m
  { s with furthest := some furthest }

def checkCancelled (s : Tape) : Reading Unit :=
  match s.cancelAfter with
  | none => (.ok (), s)
  | some 0 => (.error .cancelled, s)
  | some (n + 1) => (.ok (), { s with cancelAfter := some n })

def report (s : Tape) (m : Mismatch) : Mismatch × Tape :=
  match s.furthest with
  | some furthest => (furthest.merge m, { s with furthest := none })
  | none => (m, s)

def tooDeep {α : Type} (s : Tape) : Reading α :=
  match s.peek with
  | .ok token => (.error (.tooDeep token.span.start), s)
  | .error failure => (.error failure, s)

/-- Repeats `step` until it gives nothing or moves nowhere, or until `fuel` is used up. -/
def iterate {σ : Type} (step : σ → Tape → Reading (Option σ)) (fuel : Nat) (x : σ) (s : Tape) :
    Reading σ :=
  match step x s with
  | (.error failure, after) => (.error failure, after)
  | (.ok none, after) => (.ok x, after)
  | (.ok (some x), after) =>
    if s.lastEnd.offset < after.lastEnd.offset then
      match fuel with
      | 0 => (.ok x, after)
      | fuel + 1 => iterate step fuel x after
    else (.ok x, after)

end Tape

namespace Rule

/-- Evaluates a rule over a tape. -/
def read {Sym : Type → Type} {α : Type} : Rule Sym α → List (TapeLevel Sym) → Tape → Reading α
  | pure value, _, s => (.ok value, s)
  | bind first next, levels, s =>
    match first.read levels s with
    | (.ok value, s) => (next value).read levels s
    | (.error failure, s) => (.error failure, s)
  | fail failure, _, s => (.error failure, s)
  | peek, _, s => (s.peek, s)
  | bump, _, s => s.bump
  | lastEnd, _, s => (.ok s.lastEnd, s)
  | slice span, _, s =>
    (.ok (String.ofList ((sliceBytes s.text span.start.offset span.stop.offset).getD [])), s)
  | nextParam, _, s => (.ok (s.params + 1), { s with params := s.params + 1 })
  | note m, _, s => (.ok (), s.note m)
  | checkCancelled, _, s => s.checkCancelled
  | setCancelAfter checks, _, s => (.ok (), { s with cancelAfter := checks })
  | orElse rule other, levels, s =>
    match s.checkCancelled with
    | (.error failure, s) => (.error failure, s)
    | (.ok _, s) =>
      match rule.read levels s with
      | (.ok value, after) => (.ok value, after)
      | (.error (.mismatch m), after) => (other m).read levels (after.backTo s)
      | (.error failure, after) => (.error failure, after.backTo s)
  | lookahead rule, levels, s =>
    let (result, after) := rule.read levels s
    (result, after.backTo s)
  | reporting rule, levels, s =>
    match rule.read levels s with
    | (.error (.mismatch m), s) =>
      let (furthest, s) := s.report m
      (.error (.mismatch furthest), s)
    | reading => reading
  | nested rule, levels, s =>
    match levels with
    | [] => s.tooDeep
    | _ :: deeper => rule.read deeper s
  | loop step first, levels, s =>
    Tape.iterate (fun x => (step x).read levels) (s.tokens.length + 1) first s
  | call name, levels, s =>
    match levels with
    | [] => s.tooDeep
    | level :: _ => level _ name s

/-- The levels of nesting below a limit over a tape. -/
def tapeLevels {Sym : Type → Type} (body : ∀ α : Type, Sym α → Rule Sym α) :
    Nat → List (TapeLevel Sym)
  | 0 => []
  | limit + 1 =>
    let deeper := tapeLevels body limit
    (fun α name => (body α name).read deeper) :: deeper

end Rule

end SqlTree
