import SqlTree.Model.Operator
import SqlTree.Token

namespace SqlTree

/-- What may follow a complete operand. An operator takes what stands to its left if its left power reaches
the power that is asked for, and asks for its right power on its right. -/
inductive InfixOp where
  | binary (op : BinaryOp)
  | isNull
  | inList (negated : Bool)
  | between (negated : Bool)
  | like (caseInsensitive negated : Bool)
  | cast
  deriving DecidableEq

/-- Tiers from the weakest to the strongest. -/
def BinaryOp.tier : BinaryOp → Nat
  | .or => 0
  | .and => 1
  | .eq | .notEq | .lt | .ltEq | .gt | .gtEq => 2
  | .bitOr => 3
  | .bitAnd => 4
  | .leftShift | .rightShift => 5
  | .add | .sub | .concat => 6
  | .mul | .div | .mod => 7

namespace InfixOp

/-- Predicates share the tier of the comparisons; a postfix cast binds more strongly than any
other operator, the signs in front of an operand included. -/
def tier : InfixOp → Nat
  | binary op => op.tier
  | isNull | inList _ | between _ | like _ _ => 2
  | cast => 9

def leftPower (op : InfixOp) : Nat := 2 * op.tier + 1

/-- The greater one, so that equal operators group to the left. -/
def rightPower (op : InfixOp) : Nat := 2 * op.tier + 2

end InfixOp

/-- The operator that a token is between two operands. The words AND and OR count only where they
are reserved. -/
def TokenKind.binaryOp? : TokenKind → Option BinaryOp
  | plus => some .add
  | minus => some .sub
  | star => some .mul
  | slash => some .div
  | percent => some .mod
  | eq => some .eq
  | notEq => some .notEq
  | lt => some .lt
  | ltEq => some .ltEq
  | gt => some .gt
  | gtEq => some .gtEq
  | keyword .AND => some .and
  | keyword .OR => some .or
  | concat => some .concat
  | bitAnd => some .bitAnd
  | bitOr => some .bitOr
  | leftShift => some .leftShift
  | rightShift => some .rightShift
  | _ => none

/-- The operator that a token is in front of an operand. -/
def TokenKind.signOp? : TokenKind → Option UnaryOp
  | minus => some .neg
  | bitNot => some .bitNot
  | _ => none

end SqlTree
