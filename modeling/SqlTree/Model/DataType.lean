import SqlTree.Text.Characters

namespace SqlTree

/-- The type of a column or of a cast. -/
inductive DataType where
  | smallint | integer | bigint
  | real | double
  | decimal (precision scale : Option Nat)
  | numeric (precision scale : Option Nat)
  | char (length : Option Nat)
  | varchar (length : Option Nat)
  | text
  | blob
  | binary (length : Option Nat)
  | varbinary (length : Option Nat)
  | date | time | timestamp | datetime
  | boolean
  /-- Any other type, by its words and arguments as written. -/
  | custom (text : String)
  deriving DecidableEq

/-- What may follow the name of a type between parentheses. -/
inductive TypeArguments where
  | none | length | precisionScale | verbatim
  deriving DecidableEq

/-- A name of a type: a type by itself, one that takes a length, or one that takes a precision
with a scale. -/
inductive TypeWord where
  | plain (type : DataType)
  | sized (type : Option Nat → DataType)
  | scaled (type : Option Nat → Option Nat → DataType)

namespace TypeWord

/-- The meaning of a word that names a type in every dialect, in capital letters. -/
def ofUpper? : String → Option TypeWord
  | "INT" | "INTEGER" => some (plain .integer)
  | "SMALLINT" => some (plain .smallint)
  | "BIGINT" => some (plain .bigint)
  | "REAL" => some (plain .real)
  | "DOUBLE" | "FLOAT" => some (plain .double)
  | "DECIMAL" => some (scaled .decimal)
  | "NUMERIC" => some (scaled .numeric)
  | "CHAR" | "CHARACTER" => some (sized .char)
  | "VARCHAR" => some (sized .varchar)
  | "TEXT" => some (plain .text)
  | "BLOB" => some (plain .blob)
  | "BINARY" => some (sized .binary)
  | "VARBINARY" => some (sized .varbinary)
  | "DATE" => some (plain .date)
  | "TIME" => some (plain .time)
  | "TIMESTAMP" => some (plain .timestamp)
  | "DATETIME" => some (plain .datetime)
  | "BOOLEAN" | "BOOL" => some (plain .boolean)
  | _ => none

end TypeWord

namespace DataType

/-- What a type with this name takes; a name that no dialect shares takes anything. -/
def argumentsOf (name : String) : TypeArguments :=
  match TypeWord.ofUpper? (upperCase name) with
  | some (.plain _) => .none
  | some (.sized _) => .length
  | some (.scaled _) => .precisionScale
  | none => .verbatim

/-- The type with a name and arguments; those that the name does not take are left out. -/
def ofParts (name : String) (length precision scale : Option Nat) : DataType :=
  match TypeWord.ofUpper? (upperCase name) with
  | some (.plain type) => type
  | some (.sized type) => type length
  | some (.scaled type) => type precision scale
  | none => .custom name

/-- A length behind the name of a type. -/
def withLength (name : String) : Option Nat → String
  | some length => s!"{name}({length})"
  | none => name

/-- A precision behind the name of a type, and a scale behind the precision. -/
def withScale (name : String) : Option Nat → Option Nat → String
  | some precision, some scale => s!"{name}({precision}, {scale})"
  | some precision, none => s!"{name}({precision})"
  | none, _ => name

/-- A type as it can be written in every dialect. -/
def sql : DataType → String
  | smallint => "SMALLINT"
  | integer => "INTEGER"
  | bigint => "BIGINT"
  | real => "REAL"
  | double => "DOUBLE"
  | decimal precision scale => withScale "DECIMAL" precision scale
  | numeric precision scale => withScale "NUMERIC" precision scale
  | char length => withLength "CHAR" length
  | varchar length => withLength "VARCHAR" length
  | text => "TEXT"
  | blob => "BLOB"
  | binary length => withLength "BINARY" length
  | varbinary length => withLength "VARBINARY" length
  | date => "DATE"
  | time => "TIME"
  | timestamp => "TIMESTAMP"
  | datetime => "DATETIME"
  | boolean => "BOOLEAN"
  | custom written => written

end DataType

namespace TypeArguments

def name : TypeArguments → String
  | none => "None"
  | length => "Length"
  | precisionScale => "PrecisionScale"
  | verbatim => "Verbatim"

end TypeArguments

end SqlTree
