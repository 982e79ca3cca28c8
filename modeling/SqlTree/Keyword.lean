import SqlTree.Text.Characters

namespace SqlTree

/-- The words of SQL that some dialect gives a meaning of its own. -/
inductive Keyword where
  | SELECT | FROM | WHERE | ORDER | BY | GROUP | HAVING | LIMIT | OFFSET | ROW | ROWS | DISTINCT
  | ALL
  | JOIN | INNER | LEFT | RIGHT | FULL | OUTER | CROSS | NATURAL | ON | USING
  | UNION | INTERSECT | EXCEPT
  | INSERT | INTO | VALUES | UPDATE | SET | DELETE | RETURNING
  | CREATE | DROP | TABLE | TEMPORARY | TEMP | IF | PRAGMA
  | PRIMARY | KEY | FOREIGN | REFERENCES | UNIQUE | CHECK | DEFAULT | CONSTRAINT | CASCADE
  | RESTRICT | NO | ACTION | AUTOINCREMENT | AUTO_INCREMENT
  | AND | OR | NOT | IN | BETWEEN | LIKE | ILIKE | IS | NULL | TRUE | FALSE | EXISTS
  | ASC | DESC | NULLS | FIRST | LAST
  | COUNT | SUM | AVG | MIN | MAX
  | INT | INTEGER | SMALLINT | BIGINT | REAL | DOUBLE | PRECISION | FLOAT | DECIMAL | NUMERIC | CHAR
  | CHARACTER | VARCHAR | TEXT | BLOB | BOOLEAN | DATE | TIME | TIMESTAMP | DATETIME
  | AS | CASE | WHEN | THEN | ELSE | END | CAST
  deriving DecidableEq

namespace Keyword

/-- Every keyword, in the order in which tables of keywords are listed. -/
def all : List Keyword :=
  [.SELECT, .FROM, .WHERE, .ORDER, .BY, .GROUP, .HAVING, .LIMIT, .OFFSET, .ROW, .ROWS, .DISTINCT,
    .ALL, .JOIN, .INNER, .LEFT, .RIGHT, .FULL, .OUTER, .CROSS, .NATURAL, .ON, .USING, .UNION,
    .INTERSECT, .EXCEPT, .INSERT, .INTO, .VALUES, .UPDATE, .SET, .DELETE, .RETURNING, .CREATE,
    .DROP, .TABLE, .TEMPORARY, .TEMP, .IF, .PRAGMA, .PRIMARY, .KEY, .FOREIGN, .REFERENCES, .UNIQUE,
    .CHECK, .DEFAULT, .CONSTRAINT, .CASCADE, .RESTRICT, .NO, .ACTION, .AUTOINCREMENT,
    .AUTO_INCREMENT, .AND, .OR, .NOT, .IN, .BETWEEN, .LIKE, .ILIKE, .IS, .NULL, .TRUE, .FALSE,
    .EXISTS, .ASC, .DESC, .NULLS, .FIRST, .LAST, .COUNT, .SUM, .AVG, .MIN, .MAX, .INT, .INTEGER,
    .SMALLINT, .BIGINT, .REAL, .DOUBLE, .PRECISION, .FLOAT, .DECIMAL, .NUMERIC, .CHAR, .CHARACTER,
    .VARCHAR, .TEXT, .BLOB, .BOOLEAN, .DATE, .TIME, .TIMESTAMP, .DATETIME, .AS, .CASE, .WHEN, .THEN,
    .ELSE, .END, .CAST]

/-- The word itself, in capital letters. -/
def spelling : Keyword → String
  | .SELECT => "SELECT"
  | .FROM => "FROM"
  | .WHERE => "WHERE"
  | .ORDER => "ORDER"
  | .BY => "BY"
  | .GROUP => "GROUP"
  | .HAVING => "HAVING"
  | .LIMIT => "LIMIT"
  | .OFFSET => "OFFSET"
  | .ROW => "ROW"
  | .ROWS => "ROWS"
  | .DISTINCT => "DISTINCT"
  | .ALL => "ALL"
  | .JOIN => "JOIN"
  | .INNER => "INNER"
  | .LEFT => "LEFT"
  | .RIGHT => "RIGHT"
  | .FULL => "FULL"
  | .OUTER => "OUTER"
  | .CROSS => "CROSS"
  | .NATURAL => "NATURAL"
  | .ON => "ON"
  | .USING => "USING"
  | .UNION => "UNION"
  | .INTERSECT => "INTERSECT"
  | .EXCEPT => "EXCEPT"
  | .INSERT => "INSERT"
  | .INTO => "INTO"
  | .VALUES => "VALUES"
  | .UPDATE => "UPDATE"
  | .SET => "SET"
  | .DELETE => "DELETE"
  | .RETURNING => "RETURNING"
  | .CREATE => "CREATE"
  | .DROP => "DROP"
  | .TABLE => "TABLE"
  | .TEMPORARY => "TEMPORARY"
  | .TEMP => "TEMP"
  | .IF => "IF"
  | .PRAGMA => "PRAGMA"
  | .PRIMARY => "PRIMARY"
  | .KEY => "KEY"
  | .FOREIGN => "FOREIGN"
  | .REFERENCES => "REFERENCES"
  | .UNIQUE => "UNIQUE"
  | .CHECK => "CHECK"
  | .DEFAULT => "DEFAULT"
  | .CONSTRAINT => "CONSTRAINT"
  | .CASCADE => "CASCADE"
  | .RESTRICT => "RESTRICT"
  | .NO => "NO"
  | .ACTION => "ACTION"
  | .AUTOINCREMENT => "AUTOINCREMENT"
  | .AUTO_INCREMENT => "AUTO_INCREMENT"
  | .AND => "AND"
  | .OR => "OR"
  | .NOT => "NOT"
  | .IN => "IN"
  | .BETWEEN => "BETWEEN"
  | .LIKE => "LIKE"
  | .ILIKE => "ILIKE"
  | .IS => "IS"
  | .NULL => "NULL"
  | .TRUE => "TRUE"
  | .FALSE => "FALSE"
  | .EXISTS => "EXISTS"
  | .ASC => "ASC"
  | .DESC => "DESC"
  | .NULLS => "NULLS"
  | .FIRST => "FIRST"
  | .LAST => "LAST"
  | .COUNT => "COUNT"
  | .SUM => "SUM"
  | .AVG => "AVG"
  | .MIN => "MIN"
  | .MAX => "MAX"
  | .INT => "INT"
  | .INTEGER => "INTEGER"
  | .SMALLINT => "SMALLINT"
  | .BIGINT => "BIGINT"
  | .REAL => "REAL"
  | .DOUBLE => "DOUBLE"
  | .PRECISION => "PRECISION"
  | .FLOAT => "FLOAT"
  | .DECIMAL => "DECIMAL"
  | .NUMERIC => "NUMERIC"
  | .CHAR => "CHAR"
  | .CHARACTER => "CHARACTER"
  | .VARCHAR => "VARCHAR"
  | .TEXT => "TEXT"
  | .BLOB => "BLOB"
  | .BOOLEAN => "BOOLEAN"
  | .DATE => "DATE"
  | .TIME => "TIME"
  | .TIMESTAMP => "TIMESTAMP"
  | .DATETIME => "DATETIME"
  | .AS => "AS"
  | .CASE => "CASE"
  | .WHEN => "WHEN"
  | .THEN => "THEN"
  | .ELSE => "ELSE"
  | .END => "END"
  | .CAST => "CAST"

/-- The name of a keyword in data: its parts capitalized and joined. -/
def name (k : Keyword) : String :=
  let capitalized : List Char → List Char
    | [] => []
    | c :: rest => c :: rest.map Char.toLower
  String.ofList ((k.spelling.toList.splitOn '_').flatMap capitalized)

/-- The keyword that a word spells, whatever the case of its letters. -/
def ofWord? (word : String) : Option Keyword :=
  match upperCase word with
  | "SELECT" => some .SELECT
  | "FROM" => some .FROM
  | "WHERE" => some .WHERE
  | "ORDER" => some .ORDER
  | "BY" => some .BY
  | "GROUP" => some .GROUP
  | "HAVING" => some .HAVING
  | "LIMIT" => some .LIMIT
  | "OFFSET" => some .OFFSET
  | "ROW" => some .ROW
  | "ROWS" => some .ROWS
  | "DISTINCT" => some .DISTINCT
  | "ALL" => some .ALL
  | "JOIN" => some .JOIN
  | "INNER" => some .INNER
  | "LEFT" => some .LEFT
  | "RIGHT" => some .RIGHT
  | "FULL" => some .FULL
  | "OUTER" => some .OUTER
  | "CROSS" => some .CROSS
  | "NATURAL" => some .NATURAL
  | "ON" => some .ON
  | "USING" => some .USING
  | "UNION" => some .UNION
  | "INTERSECT" => some .INTERSECT
  | "EXCEPT" => some .EXCEPT
  | "INSERT" => some .INSERT
  | "INTO" => some .INTO
  | "VALUES" => some .VALUES
  | "UPDATE" => some .UPDATE
  | "SET" => some .SET
  | "DELETE" => some .DELETE
  | "RETURNING" => some .RETURNING
  | "CREATE" => some .CREATE
  | "DROP" => some .DROP
  | "TABLE" => some .TABLE
  | "TEMPORARY" => some .TEMPORARY
  | "TEMP" => some .TEMP
  | "IF" => some .IF
  | "PRAGMA" => some .PRAGMA
  | "PRIMARY" => some .PRIMARY
  | "KEY" => some .KEY
  | "FOREIGN" => some .FOREIGN
  | "REFERENCES" => some .REFERENCES
  | "UNIQUE" => some .UNIQUE
  | "CHECK" => some .CHECK
  | "DEFAULT" => some .DEFAULT
  | "CONSTRAINT" => some .CONSTRAINT
  | "CASCADE" => some .CASCADE
  | "RESTRICT" => some .RESTRICT
  | "NO" => some .NO
  | "ACTION" => some .ACTION
  | "AUTOINCREMENT" => some .AUTOINCREMENT
  | "AUTO_INCREMENT" => some .AUTO_INCREMENT
  | "AND" => some .AND
  | "OR" => some .OR
  | "NOT" => some .NOT
  | "IN" => some .IN
  | "BETWEEN" => some .BETWEEN
  | "LIKE" => some .LIKE
  | "ILIKE" => some .ILIKE
  | "IS" => some .IS
  | "NULL" => some .NULL
  | "TRUE" => some .TRUE
  | "FALSE" => some .FALSE
  | "EXISTS" => some .EXISTS
  | "ASC" => some .ASC
  | "DESC" => some .DESC
  | "NULLS" => some .NULLS
  | "FIRST" => some .FIRST
  | "LAST" => some .LAST
  | "COUNT" => some .COUNT
  | "SUM" => some .SUM
  | "AVG" => some .AVG
  | "MIN" => some .MIN
  | "MAX" => some .MAX
  | "INT" => some .INT
  | "INTEGER" => some .INTEGER
  | "SMALLINT" => some .SMALLINT
  | "BIGINT" => some .BIGINT
  | "REAL" => some .REAL
  | "DOUBLE" => some .DOUBLE
  | "PRECISION" => some .PRECISION
  | "FLOAT" => some .FLOAT
  | "DECIMAL" => some .DECIMAL
  | "NUMERIC" => some .NUMERIC
  | "CHAR" => some .CHAR
  | "CHARACTER" => some .CHARACTER
  | "VARCHAR" => some .VARCHAR
  | "TEXT" => some .TEXT
  | "BLOB" => some .BLOB
  | "BOOLEAN" => some .BOOLEAN
  | "DATE" => some .DATE
  | "TIME" => some .TIME
  | "TIMESTAMP" => some .TIMESTAMP
  | "DATETIME" => some .DATETIME
  | "AS" => some .AS
  | "CASE" => some .CASE
  | "WHEN" => some .WHEN
  | "THEN" => some .THEN
  | "ELSE" => some .ELSE
  | "END" => some .END
  | "CAST" => some .CAST
  | _ => none

end Keyword

/-- The keywords that a dialect reserves: such a word is no name unless it is quoted. -/
structure KeywordTable where
  reserved : List Keyword
  deriving DecidableEq

namespace KeywordTable

def empty : KeywordTable := ⟨[]⟩

def ofList (keywords : List Keyword) : KeywordTable := ⟨keywords⟩

def reserves (table : KeywordTable) (k : Keyword) : Bool := table.reserved.contains k

/-- Reserves `keywords` as well. -/
def insertAll (table : KeywordTable) (keywords : List Keyword) : KeywordTable :=
  ⟨table.reserved ++ keywords⟩

/-- Reserves none of `keywords` any longer. -/
def eraseAll (table : KeywordTable) (keywords : List Keyword) : KeywordTable :=
  ⟨table.reserved.filter fun k => !keywords.contains k⟩

/-- The reserved keywords, each once. -/
def toList (table : KeywordTable) : List Keyword := Keyword.all.filter table.reserves

def size (table : KeywordTable) : Nat := table.toList.length

def isEmpty (table : KeywordTable) : Bool := table.toList.isEmpty

/-- The reserved keyword that a word spells. -/
def classify? (table : KeywordTable) (word : String) : Option Keyword :=
  (Keyword.ofWord? word).filter table.reserves

end KeywordTable

end SqlTree
