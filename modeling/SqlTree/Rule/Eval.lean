import SqlTree.Rule.Basic

namespace SqlTree

/-- What a rule gives: its value or a failure, and the state it leaves. -/
abbrev Outcome (α : Type) := Except Failure α × State

/-- What the named rules do one level of nesting deeper. -/
abbrev Level (Sym : Type → Type) := ∀ α : Type, Sym α → State → Outcome α

namespace State

/-- One level of nesting deeper. -/
def enter (st : State) : State := { st with nesting := st.nesting + 1 }

/-- Back from a level of nesting. -/
def leave {α : Type} (outcome : Outcome α) : Outcome α :=
  (outcome.1, { outcome.2 with nesting := outcome.2.nesting - 1 })

/-- Fails since no level of nesting is left. -/
def tooDeep {α : Type} (rules : LexicalRules) (st : State) : Outcome α :=
  match st.peek rules with
  | (.ok token, st) => (.error (.tooDeep token.span.start), st)
  | (.error failure, st) => (.error failure, st)

/-- Repeats `step` until it gives nothing or moves nowhere. Each repetition takes a character, so
the characters `left` at the start count enough of them, and the step at the end of the text is
one more. -/
def iterate {σ : Type} (step : σ → State → Outcome (Option σ)) (left : List Char) (s : σ)
    (st : State) : Outcome σ :=
  match step s st with
  | (.error failure, after) => (.error failure, after)
  | (.ok none, after) => (.ok s, after)
  | (.ok (some s), after) =>
    if st.position.offset < after.position.offset then
      match left with
      | [] => (.ok s, after)
      | _ :: left => iterate step left s after
    else (.ok s, after)

end State

namespace Rule

/-- Evaluates a rule. There are as many levels of nesting left as `levels` has members; the
first one serves the calls of this level. -/
def eval {Sym : Type → Type} (rules : LexicalRules) {α : Type} :
    Rule Sym α → List (Level Sym) → State → Outcome α
  | pure value, _, st => (.ok value, st)
  | bind first next, levels, st =>
    match first.eval rules levels st with
    | (.ok value, st) => (next value).eval rules levels st
    | (.error failure, st) => (.error failure, st)
  | fail failure, _, st => (.error failure, st)
  | peek, _, st => st.peek rules
  | bump, _, st => st.bump rules
  | lastEnd, _, st => (.ok st.lastEnd, st)
  | slice span, _, st => (.ok (String.ofList (st.reader.slice span.start span.stop)), st)
  | nextParam, _, st => (.ok (st.params + 1), { st with params := st.params + 1 })
  | note m, _, st => (.ok (), st.note m)
  | checkCancelled, _, st => st.checkCancelled
  | setCancelAfter checks, _, st => (.ok (), { st with cancelAfter := checks })
  | orElse rule other, levels, st =>
    match st.checkCancelled with
    | (.error failure, st) => (.error failure, st)
    | (.ok _, st) =>
      let (m, st) := st.mark
      match rule.eval rules levels st with
      | (.ok value, st) => (.ok value, st.release m)
      | (.error (.mismatch failure), st) => (other failure).eval rules levels (st.rewind m)
      | (.error failure, st) => (.error failure, st.rewind m)
  | lookahead rule, levels, st =>
    let (m, st) := st.mark
    let (result, st) := rule.eval rules levels st
    (result, st.rewind m)
  | reporting rule, levels, st =>
    match rule.eval rules levels st with
    | (.error (.mismatch failure), st) =>
      let (furthest, st) := st.report failure
      (.error (.mismatch furthest), st)
    | outcome => outcome
  | nested rule, levels, st =>
    match levels with
    | [] => st.tooDeep rules
    | _ :: deeper => State.leave (rule.eval rules deeper st.enter)
  | loop step first, levels, st =>
    State.iterate (fun s => (step s).eval rules levels) st.reader.cursor.rest first st
  | call name, levels, st =>
    match levels with
    | [] => st.tooDeep rules
    | level :: _ => State.leave (level _ name st.enter)

/-- The levels of nesting below a limit, where `body` says what the names stand for. -/
def levels {Sym : Type → Type} (rules : LexicalRules) (body : ∀ α : Type, Sym α → Rule Sym α) :
    Nat → List (Level Sym)
  | 0 => []
  | limit + 1 =>
    let deeper := levels rules body limit
    (fun α name => (body α name).eval rules deeper) :: deeper

end Rule

end SqlTree
