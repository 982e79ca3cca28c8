import SqlTree.Keyword

namespace SqlTree

/-- How a dialect writes the limit of a query. -/
inductive LimitForm where
  /-- LIMIT with a count, then OFFSET with an offset; or both behind LIMIT, offset first. -/
  | countFirst
  /-- LIMIT and OFFSET in any order, each at most once; LIMIT ALL sets no limit. -/
  | anyOrder
  deriving DecidableEq

/-- The clauses and operators that only some dialects have. -/
structure Features where
  limit : Option LimitForm
  /-- The word that makes a column number its rows. -/
  autoIncrement : Option Keyword
  /-- Whether PRAGMA counts among the statements. -/
  pragma : Bool
  /-- Whether two colons and a type cast what stands before them. -/
  postfixCast : Bool
  ilike : Bool
  returning : Bool
  ifNotExists : Bool
  /-- Whether an order may say where NULL goes. -/
  nullsOrdering : Bool
  deriving DecidableEq

namespace Features

/-- Only what every dialect has. -/
def base : Features := ⟨none, none, false, false, false, false, false, false⟩

end Features

end SqlTree
