import SqlTree.Analysis.Error
import SqlTree.Dialect.Basic
import SqlTree.Grammar.Statement
import SqlTree.Rule.Eval

namespace SqlTree

/-- What a text was parsed as. -/
inductive Model where
  | statement (s : Statement)
  | select (s : SelectStatement)
  | insert (s : InsertStatement)
  | update (s : UpdateStatement)
  | delete (s : DeleteStatement)
  | createTable (s : CreateTableStatement)
  | pragma (s : PragmaStatement)
  | script (s : Script)
  | expression (e : Expr)

/-- What the names of rules stand for in a dialect. -/
def Symbol.body (f : Features) : ∀ α : Type, Symbol α → SqlRule α
  | _, .expression power => SqlRule.expressionBody f power
  | _, .query => SqlRule.queryBody f
  | _, .joinGroup => SqlRule.joinGroupBody f

/-- How deeply expressions, queries and groups of joins may nest. -/
def maxNesting : Nat := 128

namespace SqlRule

/-- Evaluates a rule in a dialect with `limit` levels of nesting. -/
def evalWithin {α : Type} (limit : Nat) (lexical : LexicalRules) (f : Features)
    (rule : SqlRule α) (st : State) : Outcome α :=
  rule.eval lexical (Rule.levels lexical (Symbol.body f) limit) st

/-- The rule for a text that is to be a model of some kind. -/
def entry (f : Features) : ModelKind → SqlRule Model
  | .statement => do return .statement (← statement f)
  | .select => do return .select (← selectStatement)
  | .insert => do return .insert (← insertStatement f)
  | .update => do return .update (← updateStatement f)
  | .delete => do return .delete (← deleteStatement f)
  | .createTable => do return .createTable (← createTableStatement f)
  | .pragma => do return .pragma (← pragmaStatement)
  | .script => do return .script (← script f)
  | .expression => do return .expression (← expression)

end SqlRule

namespace Dialect

/-- Evaluates a rule in a dialect. -/
def eval {α : Type} (d : Dialect) (rule : SqlRule α) (st : State) : Outcome α :=
  rule.evalWithin maxNesting d.lexical d.features st

end Dialect

end SqlTree
