import SqlTree.Rule.Eval

namespace SqlTree

/-- What happens while a rule is evaluated. -/
inductive Event where
  | begins (st : State)
  | ends (failure? : Option Failure) (st : State)

namespace Event

def state : Event → State
  | begins st | ends _ st => st

/-- A rule ends in a failure. -/
def EndsIn (failure : Failure) (e : Event) : Prop := ∃ st, e = .ends (some failure) st

/-- The mismatch in which a rule ends. -/
def mismatch? : Event → Option Mismatch
  | ends (some (.mismatch m)) _ => some m
  | _ => none

theorem mismatch?_eq_some {e : Event} {m : Mismatch} :
    e.mismatch? = some m ↔ e.EndsIn (.mismatch m) := by
  rcases e with _ | ⟨_ | failure, st⟩
  · simp [mismatch?, EndsIn]
  · simp [mismatch?, EndsIn]
  · cases failure <;> simp [mismatch?, EndsIn]

end Event

/-- An outcome and what happened before it. -/
structure Logged (α : Type) where
  outcome : Outcome α
  log : List Event

/-- What the named rules do one level of nesting deeper, with a log of it. -/
abbrev LogLevel (Sym : Type → Type) := ∀ α : Type, Sym α → State → Logged α

namespace Logged

variable {α : Type}

def failure? (l : Logged α) : Option Failure :=
  match l.outcome.1 with
  | .ok _ => none
  | .error failure => some failure

/-- The evaluation of a rule that began at a state, when `l` is what was done for it. -/
def within (st : State) (l : Logged α) : Logged α :=
  { l with log := .begins st :: l.log ++ [.ends l.failure? l.outcome.2] }

/-- A single step. -/
def step (st : State) (outcome : Outcome α) : Logged α := within st ⟨outcome, []⟩

/-- The same behind what is logged already. -/
def behind (log : List Event) (l : Logged α) : Logged α := { l with log := log ++ l.log }

/-- Back from a level of nesting. -/
def leave (l : Logged α) : Logged α := { l with outcome := State.leave l.outcome }

/-- No level of nesting is left; the token that is named then is read. -/
def tooDeep (rules : LexicalRules) (st : State) : Logged α :=
  ⟨st.tooDeep rules, (step st (st.peek rules)).log⟩

end Logged

/-- `State.iterate` with a log. -/
def State.logIterate {σ : Type} (step : σ → State → Logged (Option σ)) (left : List Char) (s : σ)
    (st : State) : Logged σ :=
  match step s st with
  | ⟨(.error failure, after), log⟩ => ⟨(.error failure, after), log⟩
  | ⟨(.ok none, after), log⟩ => ⟨(.ok s, after), log⟩
  | ⟨(.ok (some s), after), log⟩ =>
    if st.position.offset < after.position.offset then
      match left with
      | [] => ⟨(.ok s, after), log⟩
      | _ :: left => (logIterate step left s after).behind log
    else ⟨(.ok s, after), log⟩

namespace Rule

variable {Sym : Type → Type}

/-- `Rule.eval` with a log. -/
def logged (rules : LexicalRules) {α : Type} : Rule Sym α → List (LogLevel Sym) → State → Logged α
  | bind first next, levels, st =>
    Logged.within st <|
      match first.logged rules levels st with
      | ⟨(.ok value, st), log⟩ => ((next value).logged rules levels st).behind log
      | ⟨(.error failure, st), log⟩ => ⟨(.error failure, st), log⟩
  | orElse rule other, levels, st =>
    Logged.within st <|
      match Logged.step st st.checkCancelled with
      | ⟨(.error failure, st), checked⟩ => ⟨(.error failure, st), checked⟩
      | ⟨(.ok _, st), checked⟩ =>
        let (m, st) := st.mark
        Logged.behind checked <|
          match rule.logged rules levels st with
          | ⟨(.ok value, st), log⟩ => ⟨(.ok value, st.release m), log⟩
          | ⟨(.error (.mismatch failure), st), log⟩ =>
            ((other failure).logged rules levels (st.rewind m)).behind log
          | ⟨(.error failure, st), log⟩ => ⟨(.error failure, st.rewind m), log⟩
  | lookahead rule, levels, st =>
    Logged.within st <|
      let (m, st) := st.mark
      match rule.logged rules levels st with
      | ⟨(result, st), log⟩ => ⟨(result, st.rewind m), log⟩
  | reporting rule, levels, st =>
    Logged.within st <|
      match rule.logged rules levels st with
      | ⟨(.error (.mismatch failure), st), log⟩ =>
        let (furthest, st) := st.report failure
        ⟨(.error (.mismatch furthest), st), log⟩
      | l => l
  | nested rule, levels, st =>
    Logged.within st <|
      match levels with
      | [] => .tooDeep rules st
      | _ :: deeper => (rule.logged rules deeper st.enter).leave
  | loop step first, levels, st =>
    Logged.within st <|
      State.logIterate (fun s => (step s).logged rules levels) st.reader.cursor.rest first st
  | call name, levels, st =>
    Logged.within st <|
      match levels with
      | [] => .tooDeep rules st
      | level :: _ => (level _ name st.enter).leave
  | rule, _, st => Logged.step st (rule.eval rules [] st)

/-- `Rule.levels` with a log. -/
def logLevels (rules : LexicalRules) (body : ∀ α : Type, Sym α → Rule Sym α) : Nat → List (LogLevel Sym)
  | 0 => []
  | limit + 1 =>
    let deeper := logLevels rules body limit
    (fun α name => (body α name).logged rules deeper) :: deeper

end Rule

/-- A level without its log. -/
def LogLevel.eval {Sym : Type → Type} (level : LogLevel Sym) : Level Sym :=
  fun α name st => (level α name st).outcome

/-- A repetition with a log comes to what it comes to without one. -/
theorem State.logIterate_outcome {σ : Type} {step : σ → State → Logged (Option σ)} (left : List Char)
    (s : σ) (st : State) :
    (logIterate step left s st).outcome = iterate (fun s st => (step s st).outcome) left s st := by
  induction left generalizing s st with
  | nil =>
    unfold logIterate iterate
    rcases step s st with ⟨⟨_ | _ | y, after⟩, log⟩
    · rfl
    · rfl
    · simp only
      split <;> rfl
  | cons c left ih =>
    unfold logIterate iterate
    rcases step s st with ⟨⟨_ | _ | y, after⟩, log⟩
    · rfl
    · rfl
    · simp only
      split
      · exact ih y after
      · rfl

namespace Rule

variable {Sym : Type → Type} {α : Type}

/-- The log changes nothing in the outcome. -/
theorem logged_outcome (rules : LexicalRules) (rule : Rule Sym α) (levels : List (LogLevel Sym))
    (st : State) :
    (rule.logged rules levels st).outcome = rule.eval rules (levels.map LogLevel.eval) st := by
  induction rule generalizing levels st with
  | bind first next ihFirst ihNext =>
    have head := ihFirst levels st
    simp only [logged, eval, Logged.within, ← head]
    rcases first.logged rules levels st with ⟨⟨_ | value, after⟩, log⟩
    · rfl
    · exact ihNext value levels after
  | orElse rule other ihRule ihOther =>
    simp only [logged, eval, Logged.within, Logged.step]
    rcases st.checkCancelled with ⟨_ | _, checked⟩
    · rfl
    · simp only [Logged.behind, ← ihRule]
      rcases rule.logged rules levels checked.mark.2 with ⟨⟨⟨_ | _ | _ | _⟩ | value, after⟩, log⟩
      · exact ihOther _ levels _
      · rfl
      · rfl
      · rfl
      · rfl
  | lookahead rule ih => simp only [logged, eval, Logged.within, ← ih]
  | reporting rule ih =>
    simp only [logged, eval, Logged.within, ← ih]
    rcases rule.logged rules levels st with ⟨⟨⟨_ | _ | _ | _⟩ | value, after⟩, log⟩ <;> rfl
  | nested rule ih =>
    cases levels with
    | nil => rfl
    | cons level deeper => simp only [logged, eval, Logged.within, Logged.leave, ih, List.map_cons]
  | loop step first ih =>
    simp only [logged, eval, Logged.within, State.logIterate_outcome, ih]
  | call name =>
    cases levels with
    | nil => rfl
    | cons level deeper => rfl
  | _ => rfl

/-- Without their logs, the levels of nesting are the levels of nesting. -/
theorem logLevels_eval (rules : LexicalRules) (body : ∀ α : Type, Sym α → Rule Sym α) (limit : Nat) :
    (logLevels rules body limit).map LogLevel.eval = levels rules body limit := by
  induction limit with
  | zero => rfl
  | succ limit ih =>
    simp only [logLevels, levels, List.map_cons, ih]
    congr 1
    funext α name st
    exact (logged_outcome rules _ _ _).trans (by rw [ih])

/-- The evaluation of a rule with a log, where the levels of nesting end at a limit. -/
def logWithin (rules : LexicalRules) (body : ∀ α : Type, Sym α → Rule Sym α) (limit : Nat)
    (rule : Rule Sym α) (st : State) : Logged α :=
  rule.logged rules (logLevels rules body limit) st

/-- A rule with a log comes to what it comes to without one. -/
theorem logWithin_outcome (rules : LexicalRules) (body : ∀ α : Type, Sym α → Rule Sym α)
    (limit : Nat) (rule : Rule Sym α) (st : State) :
    (rule.logWithin rules body limit st).outcome = rule.eval rules (levels rules body limit) st := by
  rw [logWithin, logged_outcome, logLevels_eval]

/-- Nothing begins behind a string that does not end: neither the other alternative nor the token that
was to follow. -/
example : (logWithin (.standard (.ofList [])) (fun _ name => nomatch name) 0
    (do let _ ← choice [bump, peek]; bump : Rule (fun _ => Empty) Token) (.ofText ['\''])).log.map
      (fun | .begins _ => none | .ends failure? _ => some failure?.isSome) =
    [none, none, none, some false, none, some true, some true, some true] := by
  rfl

end Rule

end SqlTree
