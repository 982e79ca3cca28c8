namespace SqlTree

inductive BinaryOp where
  | add | sub | mul | div | mod
  | eq | notEq | lt | ltEq | gt | gtEq
  | and | or
  | concat
  | bitAnd | bitOr | leftShift | rightShift
  deriving DecidableEq

namespace BinaryOp

def sql : BinaryOp → String
  | add => "+"
  | sub => "-"
  | mul => "*"
  | div => "/"
  | mod => "%"
  | eq => "="
  | notEq => "<>"
  | lt => "<"
  | ltEq => "<="
  | gt => ">"
  | gtEq => ">="
  | and => "AND"
  | or => "OR"
  | concat => "||"
  | bitAnd => "&"
  | bitOr => "|"
  | leftShift => "<<"
  | rightShift => ">>"

def name : BinaryOp → String
  | add => "Add"
  | sub => "Sub"
  | mul => "Mul"
  | div => "Div"
  | mod => "Mod"
  | eq => "Eq"
  | notEq => "NotEq"
  | lt => "Lt"
  | ltEq => "LtEq"
  | gt => "Gt"
  | gtEq => "GtEq"
  | and => "And"
  | or => "Or"
  | concat => "Concat"
  | bitAnd => "BitAnd"
  | bitOr => "BitOr"
  | leftShift => "LeftShift"
  | rightShift => "RightShift"

end BinaryOp

inductive UnaryOp where
  | neg | not | bitNot
  deriving DecidableEq

namespace UnaryOp

def sql : UnaryOp → String
  | neg => "-"
  | not => "NOT"
  | bitNot => "~"

def name : UnaryOp → String
  | neg => "Neg"
  | not => "Not"
  | bitNot => "BitNot"

end UnaryOp

end SqlTree
