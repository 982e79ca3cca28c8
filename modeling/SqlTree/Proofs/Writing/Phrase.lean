import SqlTree.Grammar.Entry
import SqlTree.Proofs.Writing.Sign

namespace SqlTree

mutual

/-- An expression of which all dialects have the form. The numbers of its positional placeholders
are part of it. -/
inductive Phrase where
  | integer (value : Nat)
  | string (value : String)
  | blob (bytes : List UInt8)
  | boolean (value : Bool)
  | null
  | hole (number : Nat)
  | parameter (name : Label)
  | column (table : Option Label) (name : Label)
  | call (name : Label) (distinct : Bool) (arguments : List Phrase)
  | paren (inner : Phrase)
  | unary (op : UnaryOp) (operand : Phrase)
  | binary (left : Phrase) (op : BinaryOp) (right : Phrase)
  | isNull (operand : Phrase) (negated : Bool)
  | inList (operand first : Phrase) (rest : List Phrase) (negated : Bool)
  | between (operand low high : Phrase) (negated : Bool)
  | like (operand pattern : Phrase) (caseInsensitive negated : Bool)
  | caseWhen (operand : Option Phrase) (first : Clause) (rest : List Clause)
      (otherwise : Option Phrase)
  | cast (operand : Phrase) (type : DataType)

/-- What is to be written between WHEN and THEN, and behind THEN. -/
structure Clause where
  condition : Phrase
  result : Phrase

end

mutual

/-- The expression, with nothing for the places of its parts. -/
def Phrase.expr : Phrase → Expr
  | .integer value => ⟨.literal (.integer value), .nothing⟩
  | .string value => ⟨.literal (.string value), .nothing⟩
  | .blob bytes => ⟨.literal (.blob bytes), .nothing⟩
  | .boolean value => ⟨.literal (.boolean value), .nothing⟩
  | .null => ⟨.literal .null, .nothing⟩
  | .hole number => ⟨.parameter none number, .nothing⟩
  | .parameter name => ⟨.parameter (some name.value) 0, .nothing⟩
  | .column table name => ⟨.column (table.map Label.ident) name.ident, .nothing⟩
  | .call name distinct arguments =>
    ⟨.call ⟨name.ident, Phrase.exprs arguments, distinct⟩, .nothing⟩
  | .paren inner => ⟨.paren inner.expr, .nothing⟩
  | .unary op operand => ⟨.unary op operand.expr, .nothing⟩
  | .binary left op right => ⟨.binary left.expr op right.expr, .nothing⟩
  | .isNull operand negated => ⟨.isNull operand.expr negated, .nothing⟩
  | .inList operand first rest negated =>
    ⟨.inList operand.expr (.values (first.expr :: Phrase.exprs rest)) negated, .nothing⟩
  | .between operand low high negated =>
    ⟨.between operand.expr low.expr high.expr negated, .nothing⟩
  | .like operand pattern caseInsensitive negated =>
    ⟨.like operand.expr pattern.expr caseInsensitive negated, .nothing⟩
  | .caseWhen operand first rest otherwise =>
    ⟨.caseWhen (Phrase.exprOption operand) (first.whenClause :: Clause.whenClauses rest)
      (Phrase.exprOption otherwise), .nothing⟩
  | .cast operand type => ⟨.cast operand.expr type, .nothing⟩

def Phrase.exprs : List Phrase → List Expr
  | [] => []
  | p :: ps => p.expr :: Phrase.exprs ps

def Phrase.exprOption : Option Phrase → Option Expr
  | none => none
  | some p => some p.expr

def Clause.whenClause : Clause → WhenClause
  | ⟨condition, result⟩ => ⟨condition.expr, result.expr, .nothing⟩

def Clause.whenClauses : List Clause → List WhenClause
  | [] => []
  | c :: cs => c.whenClause :: Clause.whenClauses cs

end

/-- The signs of an operator behind its left operand, up to where its other operands begin. -/
def InfixOp.signs (rules : LexicalRules) : InfixOp → List Sign
  | binary op => [.binary rules op]
  | isNull => [.word rules .IS]
  | inList negated => (if negated then [.word rules .NOT] else []) ++ [.word rules .IN]
  | between negated => (if negated then [.word rules .NOT] else []) ++ [.word rules .BETWEEN]
  | like caseInsensitive negated =>
    (if negated then [.word rules .NOT] else []) ++
      [.word rules (if caseInsensitive then .ILIKE else .LIKE)]
  | cast => [⟨"::", .doubleColon, none⟩]

section

variable (rules : LexicalRules)

mutual

/-- The signs of an expression in the order of the text. -/
def Phrase.signs : Phrase → List Sign
  | .integer value => [.integer value]
  | .string value => [.string rules value]
  | .blob bytes => [.blob bytes]
  | .boolean value => [.word rules (if value then .TRUE else .FALSE)]
  | .null => [.word rules .NULL]
  | .hole number => [.hole number]
  | .parameter name => [.colon, .name rules name]
  | .column none name => [.name rules name]
  | .column (some table) name => [.name rules table, .dot, .name rules name]
  | .call name distinct arguments =>
    .name rules name :: .leftParen :: (if distinct then [.word rules .DISTINCT] else []) ++
      Phrase.row arguments ++ [.rightParen]
  | .paren inner => .leftParen :: inner.signs ++ [.rightParen]
  | .unary op operand => .unary rules op :: operand.signs
  | .binary left op right => left.signs ++ (InfixOp.binary op).signs rules ++ right.signs
  | .isNull operand negated =>
    operand.signs ++ InfixOp.isNull.signs rules ++
      (if negated then [.word rules .NOT] else []) ++ [.word rules .NULL]
  | .inList operand first rest negated =>
    operand.signs ++ (InfixOp.inList negated).signs rules ++ .leftParen :: first.signs ++
      Phrase.behindCommas rest ++ [.rightParen]
  | .between operand low high negated =>
    operand.signs ++ (InfixOp.between negated).signs rules ++ low.signs ++
      .word rules .AND :: high.signs
  | .like operand pattern caseInsensitive negated =>
    operand.signs ++ (InfixOp.like caseInsensitive negated).signs rules ++ pattern.signs
  | .caseWhen operand first rest otherwise =>
    .word rules .CASE :: Phrase.optional operand ++ first.signs ++ Clause.list rest ++
      Phrase.behindElse otherwise ++ [.word rules .END]
  | .cast operand type =>
    .word rules .CAST :: .leftParen :: operand.signs ++ .word rules .AS :: type.signs rules ++
      [.rightParen]

/-- Expressions with commas between them. -/
def Phrase.row : List Phrase → List Sign
  | [] => []
  | p :: ps => p.signs ++ Phrase.behindCommas ps

def Phrase.behindCommas : List Phrase → List Sign
  | [] => []
  | p :: ps => .comma :: p.signs ++ Phrase.behindCommas ps

def Phrase.optional : Option Phrase → List Sign
  | none => []
  | some p => p.signs

def Phrase.behindElse : Option Phrase → List Sign
  | none => []
  | some p => .word rules .ELSE :: p.signs

def Clause.signs : Clause → List Sign
  | ⟨condition, result⟩ =>
    .word rules .WHEN :: condition.signs ++ .word rules .THEN :: result.signs

def Clause.list : List Clause → List Sign
  | [] => []
  | c :: cs => c.signs ++ Clause.list cs

end

end

mutual

/-- How many levels of nesting an expression has below its own. What stands to the left of an
operator is on the same level, all else that an expression is made of one level deeper. -/
def Phrase.nesting : Phrase → Nat
  | .integer _ | .string _ | .blob _ | .boolean _ | .null | .hole _ | .parameter _ | .column _ _ => 0
  | .call _ _ arguments => Phrase.depths arguments
  | .paren p | .unary _ p | .cast p _ => p.nesting + 1
  | .binary left _ right => max left.nesting (right.nesting + 1)
  | .isNull operand _ => operand.nesting
  | .inList operand first rest _ =>
    max operand.nesting (max (first.nesting + 1) (Phrase.depths rest))
  | .between operand low high _ =>
    max operand.nesting (max (low.nesting + 1) (high.nesting + 1))
  | .like operand pattern _ _ => max operand.nesting (pattern.nesting + 1)
  | .caseWhen operand first rest otherwise =>
    max (Phrase.depth operand)
      (max first.depth (max (Clause.depths rest) (Phrase.depth otherwise)))

def Phrase.depth : Option Phrase → Nat
  | none => 0
  | some p => p.nesting + 1

def Phrase.depths : List Phrase → Nat
  | [] => 0
  | p :: ps => max (p.nesting + 1) (Phrase.depths ps)

def Clause.depth : Clause → Nat
  | ⟨condition, result⟩ => max (condition.nesting + 1) (result.nesting + 1)

def Clause.depths : List Clause → Nat
  | [] => 0
  | c :: cs => max c.depth (Clause.depths cs)

end

def UnaryOp.power : UnaryOp → Nat
  | not => SqlRule.notPower
  | neg | bitNot => SqlRule.signPower

namespace Phrase

/-- All operators that are open at the right end bind what follows more strongly than an operator
behind the expression binds it to the left. -/
def ClosedBefore (op : InfixOp) : Phrase → Prop
  | unary sign operand => op.leftPower < sign.power ∧ operand.ClosedBefore op
  | binary _ inner right => op.leftPower < (InfixOp.binary inner).rightPower ∧ right.ClosedBefore op
  | between _ _ high negated =>
    op.leftPower < (InfixOp.between negated).rightPower ∧ high.ClosedBefore op
  | like _ pattern caseInsensitive negated =>
    op.leftPower < (InfixOp.like caseInsensitive negated).rightPower ∧ pattern.ClosedBefore op
  | _ => True

/-- All operators that are open at the left end bind to the left at least that strongly. -/
def OpenFrom (power : Nat) : Phrase → Prop
  | binary left op _ => power ≤ (InfixOp.binary op).leftPower ∧ left.OpenFrom power
  | isNull operand _ => power ≤ InfixOp.isNull.leftPower ∧ operand.OpenFrom power
  | inList operand _ _ negated =>
    power ≤ (InfixOp.inList negated).leftPower ∧ operand.OpenFrom power
  | between operand _ _ negated =>
    power ≤ (InfixOp.between negated).leftPower ∧ operand.OpenFrom power
  | like operand _ caseInsensitive negated =>
    power ≤ (InfixOp.like caseInsensitive negated).leftPower ∧ operand.OpenFrom power
  | _ => True

/-- The operands of the outermost operator are closed before it and open from its power. -/
def Binds : Phrase → Prop
  | unary op operand => operand.OpenFrom op.power
  | binary left op right =>
    left.ClosedBefore (.binary op) ∧ right.OpenFrom (InfixOp.binary op).rightPower
  | isNull operand _ => operand.ClosedBefore .isNull
  | inList operand _ _ negated => operand.ClosedBefore (.inList negated)
  | between operand low high negated =>
    operand.ClosedBefore (.between negated) ∧ low.OpenFrom (InfixOp.between negated).rightPower ∧
      high.OpenFrom (InfixOp.between negated).rightPower
  | like operand pattern caseInsensitive negated =>
    operand.ClosedBefore (.like caseInsensitive negated) ∧
      pattern.OpenFrom (InfixOp.like caseInsensitive negated).rightPower
  | _ => True

end Phrase

/-- The words that start an expression of their own where they stand for no name. -/
def formWords : List Keyword := [.CASE, .CAST, .EXISTS, .NOT, .NULL, .TRUE, .FALSE]

/-- A name with which an expression may start. -/
def Label.Leads (rules : LexicalRules) (l : Label) : Prop :=
  l.Legible rules ∧ (l.quoted = false → ∀ k ∈ formWords, Keyword.ofWord? l.value ≠ some k)

/-- A name of a function: any name with which an expression may start, or a word that is reserved
for a function. -/
def Label.Calls (rules : LexicalRules) (l : Label) : Prop :=
  l.Leads rules ∨ l.quoted = false ∧ isBareWord l.value = true ∧
    ∃ k ∈ SqlRule.functionKeywords, rules.keywords.classify? l.value = some k

namespace Phrase

/-- What an expression holds besides other expressions can be written in a dialect. -/
def Legible (rules : LexicalRules) (f : Features) : Phrase → Prop
  | integer value => value ≤ maxInteger
  | parameter name => name.Legible rules
  | column none name => name.Leads rules
  | column (some table) name => table.Leads rules ∧ name.Legible rules
  | call name _ _ => name.Calls rules
  | like _ _ caseInsensitive _ => caseInsensitive = true → f.ilike = true
  | cast _ type => type.Legible
  | _ => True

/-- The expressions that an expression is made of. -/
def parts : Phrase → List Phrase
  | integer _ | string _ | blob _ | boolean _ | null | hole _ | parameter _ | column _ _ => []
  | call _ _ arguments => arguments
  | paren p | unary _ p | isNull p _ | cast p _ => [p]
  | binary left _ right => [left, right]
  | inList operand first rest _ => operand :: first :: rest
  | between operand low high _ => [operand, low, high]
  | like operand pattern _ _ => [operand, pattern]
  | caseWhen operand first rest otherwise =>
    operand.toList ++ (first :: rest).flatMap (fun c => [c.condition, c.result]) ++
      otherwise.toList

/-- An expression that can be written so that it is read as it is: its operators bind as it says,
and so do those of its parts, and all that it holds can be written. -/
inductive Fits (rules : LexicalRules) (f : Features) : Phrase → Prop
  | intro {p} : p.Binds → p.Legible rules f → (∀ q ∈ p.parts, Fits rules f q) → Fits rules f p

end Phrase

end SqlTree
