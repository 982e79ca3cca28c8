import SqlTree.Dialect.Basic

namespace SqlTree.Dialect

def reservedInSql92 : List Keyword :=
  [.SELECT, .FROM, .WHERE, .ORDER, .BY, .GROUP, .HAVING, .DISTINCT, .ALL, .JOIN, .INNER, .LEFT,
    .RIGHT, .FULL, .OUTER, .CROSS, .NATURAL, .ON, .USING, .UNION, .INTERSECT, .EXCEPT, .INSERT,
    .INTO, .VALUES, .UPDATE, .SET, .DELETE, .CREATE, .DROP, .TABLE, .TEMPORARY, .PRIMARY, .KEY,
    .FOREIGN, .REFERENCES, .UNIQUE, .CHECK, .DEFAULT, .CONSTRAINT, .CASCADE, .RESTRICT, .NO,
    .ACTION, .AND, .OR, .NOT, .IN, .BETWEEN, .LIKE, .IS, .NULL, .TRUE, .FALSE, .EXISTS, .ASC, .DESC,
    .COUNT, .SUM, .AVG, .MIN, .MAX, .INT, .INTEGER, .SMALLINT, .REAL, .DOUBLE, .PRECISION, .FLOAT,
    .DECIMAL, .NUMERIC, .CHAR, .CHARACTER, .VARCHAR, .DATE, .TIME, .TIMESTAMP, .AS, .CASE, .WHEN,
    .THEN, .ELSE, .END, .CAST]

def reservedInSqlite : List Keyword :=
  [.SELECT, .FROM, .WHERE, .ORDER, .BY, .GROUP, .HAVING, .LIMIT, .OFFSET, .DISTINCT, .ALL, .JOIN,
    .INNER, .LEFT, .RIGHT, .FULL, .OUTER, .CROSS, .NATURAL, .ON, .USING, .UNION, .INTERSECT,
    .EXCEPT, .INSERT, .INTO, .VALUES, .UPDATE, .SET, .DELETE, .RETURNING, .CREATE, .DROP, .TABLE,
    .TEMPORARY, .TEMP, .IF, .PRAGMA, .PRIMARY, .KEY, .FOREIGN, .REFERENCES, .UNIQUE, .CHECK,
    .DEFAULT, .CONSTRAINT, .AUTOINCREMENT, .AND, .OR, .NOT, .IN, .BETWEEN, .LIKE, .IS, .NULL,
    .EXISTS, .AS, .CASE, .WHEN, .THEN, .ELSE, .END, .CAST]

def reservedInPostgresql : List Keyword :=
  [.ALL, .AND, .AS, .ASC, .CASE, .CAST, .CHECK, .CONSTRAINT, .CREATE, .CROSS, .DEFAULT, .DESC,
    .DISTINCT, .ELSE, .END, .EXCEPT, .FALSE, .FOREIGN, .FROM, .FULL, .GROUP, .HAVING, .ILIKE, .IN,
    .INNER, .INTERSECT, .INTO, .IS, .JOIN, .LEFT, .LIKE, .LIMIT, .NATURAL, .NOT, .NULL, .OFFSET,
    .ON, .OR, .ORDER, .OUTER, .PRIMARY, .REFERENCES, .RETURNING, .RIGHT, .SELECT, .TABLE, .THEN,
    .TRUE, .UNION, .UNIQUE, .USING, .WHEN, .WHERE]

def reservedInMysql : List Keyword :=
  [.SELECT, .FROM, .WHERE, .ORDER, .BY, .GROUP, .HAVING, .LIMIT, .DISTINCT, .ALL, .JOIN, .INNER,
    .LEFT, .RIGHT, .CROSS, .NATURAL, .ON, .USING, .UNION, .INTERSECT, .EXCEPT, .INSERT, .INTO,
    .VALUES, .UPDATE, .SET, .DELETE, .CREATE, .DROP, .TABLE, .IF, .PRIMARY, .KEY, .FOREIGN,
    .REFERENCES, .UNIQUE, .CHECK, .DEFAULT, .CONSTRAINT, .CASCADE, .RESTRICT, .AND, .OR, .NOT, .IN,
    .BETWEEN, .LIKE, .IS, .NULL, .TRUE, .FALSE, .EXISTS, .ASC, .DESC, .INT, .INTEGER, .SMALLINT,
    .BIGINT, .REAL, .DOUBLE, .PRECISION, .FLOAT, .DECIMAL, .NUMERIC, .CHAR, .CHARACTER, .VARCHAR,
    .BLOB, .AS, .CASE, .WHEN, .THEN, .ELSE, .END, .CAST]

def sql92 : Dialect :=
  { serial := 0
    name := "sql92"
    description := "ANSI SQL-92"
    aliases := ["ansi"]
    lexical := .standard (.ofList reservedInSql92)
    features := .base
    models := DialectDraft.standardModels }

def sqlite : Dialect :=
  { serial := 0
    name := "sqlite"
    description := "SQLite 3"
    aliases := []
    lexical :=
      { LexicalRules.standard (.ofList reservedInSqlite) with
        identifierQuotes := [('"', '"'), ('\x60', '\x60'), ('[', ']')] }
    features :=
      { Features.base with
        limit := some .countFirst
        autoIncrement := some .AUTOINCREMENT
        pragma := true
        returning := true
        ifNotExists := true
        nullsOrdering := true }
    models := ModelKind.all }

def postgresql : Dialect :=
  { serial := 0
    name := "postgresql"
    description := "PostgreSQL"
    aliases := ["postgres"]
    lexical := .standard (.ofList reservedInPostgresql)
    features :=
      { Features.base with
        limit := some .anyOrder
        postfixCast := true
        ilike := true
        returning := true
        ifNotExists := true
        nullsOrdering := true }
    models := DialectDraft.standardModels }

def mysql : Dialect :=
  { serial := 0
    name := "mysql"
    description := "MySQL 8"
    aliases := []
    lexical :=
      { keywords := .ofList reservedInMysql
        identifierQuotes := [('\x60', '\x60')]
        stringQuotes := ['\'', '"']
        backslashEscapes := true
        hashComments := true }
    features :=
      { Features.base with
        limit := some .countFirst
        autoIncrement := some .AUTO_INCREMENT
        ifNotExists := true }
    models := DialectDraft.standardModels }

/-- The built-in dialects in the order in which they are listed. -/
def builtin : List Dialect := [sql92, sqlite, postgresql, mysql]

end SqlTree.Dialect
