import SqlTree.Grammar.Expression
import SqlTree.Proofs.Reading.Tape

namespace SqlTree

/-- A rule that only looks: it leaves the tape as it is, and asks for nothing one level deeper. -/
def Rule.Stays {Sym : Type → Type} {α : Type} (rule : Rule Sym α) : Prop :=
  ∀ levels s, rule.read levels s = ((rule.read [] s).1, s)

namespace Rule

section

variable {Sym : Type → Type} {α β : Type}

theorem stays_pure (value : α) : (Pure.pure value : Rule Sym α).Stays := fun _ _ => rfl

theorem stays_peek : (peek : Rule Sym Token).Stays := fun _ _ => rfl

/-- A sequence of rules that only look only looks. -/
theorem Stays.bind {first : Rule Sym α} {next : α → Rule Sym β} (stays : first.Stays)
    (rest : ∀ value, (next value).Stays) : (first >>= next).Stays := by
  intro levels s
  change (first.bind next).read levels s = (((first.bind next).read [] s).1, s)
  simp only [Rule.read, stays levels s]
  have place := stays [] s
  generalize first.read [] s = reading at place ⊢
  rcases reading with ⟨failure | value, after⟩
  · rfl
  · obtain rfl : after = s := congrArg Prod.snd place
    exact rest value levels after

theorem Stays.ite {rule other : Rule Sym α} {c : Prop} [Decidable c] (stays : rule.Stays)
    (stays' : other.Stays) : (if c then rule else other).Stays := by
  split
  · exact stays
  · exact stays'

theorem stays_checkKeyword (k : Keyword) : (checkKeyword k : Rule Sym Bool).Stays :=
  stays_peek.bind fun _ => stays_pure _

/-- Looking behind the next token only looks. -/
theorem stays_behindNext {rule : Rule Sym α} (stays : rule.Stays) :
    (lookahead do
      let _ ← bump
      rule).Stays := by
  intro levels s
  have look (levels : List (TapeLevel Sym)) : (lookahead (bump.bind fun _ => rule)).read levels s =
      (s.bump.1.bind fun _ => (rule.read [] s.bump.2).1, s.bump.2.backTo s) := by
    simp only [read]
    rcases s.bump with ⟨_ | t, after⟩
    · rfl
    · simp only [stays levels after]
      rfl
  have back : s.bump.2.backTo s = s := by
    unfold Tape.bump
    split
    · rfl
    · split <;> rfl
  change (lookahead (bump.bind fun _ => rule)).read levels s =
    (((lookahead (bump.bind fun _ => rule)).read [] s).1, s)
  rw [look levels, look [], back]

end

end Rule

open Rule

/-- Asking for a predicate only looks. -/
theorem predicate?_stays (f : Features) (negated : Bool) : (SqlRule.predicate? f negated).Stays := by
  have ask {rest : SqlRule (Option InfixOp)} {op : InfixOp} (stays : rest.Stays) (k : Keyword) :
      (do if ← checkKeyword k then return some op else rest : SqlRule (Option InfixOp)).Stays :=
    (stays_checkKeyword k).bind fun _ => (stays_pure _).ite stays
  refine Stays.bind (Stays.ite (stays_pure _) (stays_checkKeyword _)) fun _ => ?_
  refine Stays.ite (stays_pure _) (ask (ask (ask ?_ _) _) _)
  refine Stays.bind (Stays.ite (stays_checkKeyword _) (stays_pure _)) fun _ => ?_
  exact (stays_pure _).ite (stays_pure _)

/-- Asking for the operator that follows only looks. -/
theorem infixOp?_stays (f : Features) : (SqlRule.infixOp? f).Stays := by
  refine stays_peek.bind fun t => ?_
  dsimp only
  cases t.kind.binaryOp? with
  | some op => exact stays_pure _
  | none =>
    refine Stays.ite (stays_pure _) ((stays_checkKeyword _).bind fun _ => ?_)
    exact (stays_behindNext (predicate?_stays f true)).ite (predicate?_stays f false)

/-- The operator in front of which a tape stands. -/
def Tape.operator? (f : Features) (s : Tape) : Option InfixOp :=
  match ((SqlRule.infixOp? f).read [] s).1 with
  | .ok op => op
  | .error _ => none

/-- Asking for an operator gives the one in front of which the tape stands. -/
theorem Tape.operator?_eq {f : Features} {levels : List (TapeLevel Symbol)} {s after : Tape}
    {op : Option InfixOp} (read : (SqlRule.infixOp? f).read levels s = (.ok op, after)) :
    s.operator? f = op ∧ after = s := by
  have stays := infixOp?_stays f levels s
  rw [read] at stays
  obtain ⟨answer, place⟩ := Prod.mk.inj stays
  exact ⟨by rw [operator?, ← answer], place⟩

/-- What is read behind the operands and operators up to now: the next operator with what stands
behind it, or nothing. -/
def SqlRule.further (f : Features) (power : Nat) (start : Position) (left : Expr) :
    SqlRule (Option Expr) := do
  match ← infixOp? f with
  | some op =>
    if op.leftPower < power then return none
    else
      let kind ← infixed op left
      return some ⟨kind, ← spanFrom start⟩
  | none => return none

/-- An expression is an operand, and what is read behind it again and again. -/
theorem SqlRule.expressionBody_eq (f : Features) (power : Nat) : expressionBody f power = (do
    let start ← start
    let first ← prefixed
    loop (further f power start) first) := rfl

end SqlTree
