import SqlTree.Proofs.Reading.Moves
import SqlTree.Proofs.Tree.Node

namespace SqlTree

/-- The levels of nesting below a limit in a dialect, over a tape. -/
abbrev sqlLevels (f : Features) (limit : Nat) : List (TapeLevel Symbol) :=
  Rule.tapeLevels (Symbol.body f) limit

/-- From the start of the first token to the end of the last one. -/
def spanOf : List Token → Span
  | [] => .nothing
  | t :: tokens => ⟨t.span.start, endBehind t.span.stop tokens⟩

/-- One span ends where another one starts, or before. -/
def Span.Before (a b : Span) : Prop := a.stop.offset ≤ b.start.offset

def ExprKind.isParameter : ExprKind → Bool
  | .parameter _ _ => true
  | _ => false

def Node.isParameter : Node → Bool
  | .expr e => e.kind.isParameter
  | _ => false

/-- How a node counts by itself, whatever its parts do. -/
inductive Node.Counts : Node → Nat → Nat → Prop
  | placeholder {p span} : Counts (.expr ⟨.parameter none (p + 1), span⟩) p (p + 1)
  | named {name p span} : Counts (.expr ⟨.parameter (some name) 0, span⟩) p p
  | other {n p} : n.isParameter = false → Counts n p p

/-- The parts of a node as its text has them: inside the span of the node, one behind the other. -/
structure InOrder (n : Node) (nodes : List Node) : Prop where
  perm : nodes.Perm n.parts
  size : n.span.start.offset < n.span.stop.offset
  inside : ∀ p ∈ nodes, n.span.contains p.span
  pairwise : nodes.Pairwise fun a b => a.span.Before b.span

mutual

/-- The placeholders inside a node count on from `p`, in the order of the text, and end with `q`. -/
inductive Counted : Nat → Node → Nat → Prop
  | intro {p mid q n nodes} : n.Counts p mid → InOrder n nodes → CountedAll mid nodes q →
      Counted p n q

/-- The placeholders inside nodes that follow each other in the text count on from `p` and end
with `q`. -/
inductive CountedAll : Nat → List Node → Nat → Prop
  | nil {p} : CountedAll p [] p
  | cons {p mid q n nodes} : Counted p n mid → CountedAll mid nodes q →
      CountedAll p (n :: nodes) q

end

/-- A text with its tokens and what ends them, and the levels of nesting that its rules may enter. -/
structure Page where
  text : List Char
  tokens : List Token
  stop : Except LexError Token
  depth : Nat

/-- The page that a tape is on, over all tokens of its text. -/
abbrev Tape.page (s : Tape) (tokens : List Token) (depth : Nat) : Page := ⟨s.text, tokens, s.stop, depth⟩

/-- A tape on its way over a page. -/
structure Tape.On (page : Page) (s : Tape) : Prop where
  along : s.Along page.tokens
  text : s.text = page.text
  stop : s.stop = page.stop

/-- Somewhere on its way through the tokens of a text a rule gives a value and consumes `used`. -/
def Spells {α : Type} (f : Features) (tokens : List Token) (rule : SqlRule α) (used : List Token)
    (value : α) : Prop :=
  ∃ limit, ∃ s after : Tape, s.Along tokens ∧ s.Moves used after ∧
    rule.read (sqlLevels f limit) s = (.ok value, after)

/-- Somewhere on its way over a page a rule that is nested in another one reads the value of a node,
consumes `used` for it and counts its placeholders. -/
def SpellsInside {α : Type} (f : Features) (page : Page) (rule : SqlRule α) (used : List Token) (node : α → Node)
    (value : α) : Prop :=
  ∃ limit < page.depth, ∃ s after : Tape, s.On page ∧ s.Moves used after ∧
    Counted s.params (node value) after.params ∧ rule.read (sqlLevels f limit) s = (.ok value, after)

/-- A token as a name: as an identifier, or as a reserved word that is let through. -/
inductive Named (t : Token) : Ident → Prop
  | name {value} : t.kind = .identifier value → Named t ⟨value, t.isQuoted, t.span⟩
  | word : t.isKeyword = true → Named t ⟨t.text, false, t.span⟩

/-- What an expression has come to at a place: its first operand, or an operator with its operands
behind what it had come to before. -/
inductive Chain (f : Features) (levels : List (TapeLevel Symbol)) (power : Nat) (s : Tape) :
    Expr → Tape → Prop
  | first {e after} : SqlRule.prefixed.read levels s = (.ok e, after) → Chain f levels power s e after
  | next {left mid op kind after t} : Chain f levels power s left mid →
      (SqlRule.infixOp? f).read levels mid = (.ok (some op), mid) → power ≤ op.leftPower →
      (SqlRule.infixed op left).read levels mid = (.ok kind, after) → s.peek = .ok t →
      Chain f levels power s ⟨kind, ⟨t.span.start, after.lastEnd.later t.span.start⟩⟩ after

/-- Where an expression comes from. The word of a pragma is one token and no chain of operands. -/
inductive ExprOrigin (f : Features) (page : Page) : List Token → Expr → Prop
  | chain {limit power used e} {s after : Tape} : limit < page.depth → s.On page → s.Moves used after →
      Chain f (sqlLevels f limit) power s e after → Counted s.params (.expr e) after.params →
      ExprOrigin f page used e
  | word {t : Token} : t.isKeyword = true →
      ExprOrigin f page [t] ⟨.column none ⟨t.text, false, t.span⟩, t.span⟩

/-- Where a table comes from: a name, a query, or a join behind another table. -/
inductive TableOrigin (f : Features) (page : Page) (used : List Token) : TableRef → Prop
  | named {t} : Spells f page.tokens (SqlRule.namedTable f) used t → TableOrigin f page used t
  | derived {t} : Spells f page.tokens (SqlRule.derivedTable f) used t → TableOrigin f page used t
  | joined {left join span} : TableOrigin f page used (.join left join span)

open SqlRule in
/-- The rule that gave a node consumed the tokens that the node covers. -/
def Origin (f : Features) (page : Page) (used : List Token) : Node → Prop
  | .ident i => ∃ t, used = [t] ∧ Named t i
  | .objectName n => Spells f page.tokens objectName used n
  | .expr e => ExprOrigin f page used e
  | .whenClause w => Spells f page.tokens whenClause used w
  | .select s => SpellsInside f page (queryBody f) used .select s
  | .column c => Spells f page.tokens (selectColumn f) used c
  | .table t => TableOrigin f page used t
  | .join j => Spells f page.tokens (joinClause f) used j
  | .order o => Spells f page.tokens (orderByItem f) used o
  | .limit l => ∃ form, Spells f page.tokens (limitClause form) used l
  | .insert s => Spells f page.tokens (insertStatement f) used s
  | .update s => Spells f page.tokens (updateStatement f) used s
  | .assignment a => Spells f page.tokens assignment used a
  | .delete s => Spells f page.tokens (deleteStatement f) used s
  | .createTable s => Spells f page.tokens (createTableStatement f) used s
  | .columnDef c => Spells f page.tokens (columnDef f) used c
  | .columnConstraint c => Spells f page.tokens (columnConstraint f) used c
  | .tableConstraint c => Spells f page.tokens tableConstraint used c
  | .foreignKey k => Spells f page.tokens foreignKey used k
  | .pragma s => Spells f page.tokens pragmaStatement used s
  | .script s => Spells f page.tokens (script f) used s

/-- The parts of a node in the order of a text, in which each of its lists keeps its own. -/
structure Arranged (n : Node) (nodes : List Node) : Prop where
  perm : nodes.Perm n.parts
  kept : ∀ field ∈ n.fields, field.Sublist nodes
  same : n.mixesParts = false → nodes = n.parts

mutual

/-- A node covers tokens: its span is theirs, and its parts lie on them. -/
inductive Covers (f : Features) (page : Page) : List Token → Node → Prop
  | intro {used n nodes} : used ≠ [] → n.span = spanOf used → Origin f page used n →
      Arranged n nodes → Laid f page used nodes → Covers f page used n

/-- Nodes lie on tokens one behind the other, perhaps with tokens between them. -/
inductive Laid (f : Features) (page : Page) : List Token → List Node → Prop
  | nil : Laid f page [] []
  | skip {t used nodes} : Laid f page used nodes → Laid f page (t :: used) nodes
  | node {used n rest nodes} : Covers f page used n → Laid f page rest nodes →
      Laid f page (used ++ rest) (n :: nodes)

end

/-- The parts of a node in its own order are arranged. -/
theorem arranged_of_parts {n : Node} {nodes : List Node} (same : nodes = n.parts) :
    Arranged n nodes := by
  subst same
  exact ⟨.refl _, fun field member => List.sublist_flatten_of_mem member, fun _ => rfl⟩

/-- Lists of at most one node each keep their order in every order. -/
theorem arranged_of_perm {n : Node} {nodes : List Node} (mixes : n.mixesParts = true)
    (perm : nodes.Perm n.parts) (short : ∀ field ∈ n.fields, field.length ≤ 1) :
    Arranged n nodes := by
  refine ⟨perm, fun field member => ?_, fun same => by rw [mixes] at same; cases same⟩
  have most := short field member
  cases field with
  | nil => exact List.nil_sublist nodes
  | cons part rest =>
    obtain rfl : rest = [] := List.eq_nil_of_length_eq_zero (by simpa using most)
    have mem : part ∈ n.parts := List.mem_flatten_of_mem member List.mem_cons_self
    exact List.singleton_sublist.mpr (perm.mem_iff.mpr mem)

section

variable {f : Features} {page : Page} {used more : List Token} {nodes others : List Node} {n : Node}

/-- Tokens in front of nodes may belong to none of them. -/
theorem Laid.skips (used : List Token) (laid : Laid f page more nodes) :
    Laid f page (used ++ more) nodes := by
  induction used with
  | nil => exact laid
  | cons t used ih => exact .skip ih

theorem laid_none (used : List Token) : Laid f page used [] := by
  have laid : Laid f page (used ++ []) [] := Laid.nil.skips used
  rwa [List.append_nil] at laid

/-- Nodes lie on tokens and others on the tokens behind them. -/
theorem Laid.append {f : Features} {page : Page} {used more : List Token} {nodes others : List Node} :
    Laid f page used nodes → Laid f page more others →
      Laid f page (used ++ more) (nodes ++ others)
  | .nil, second => second
  | .skip rest, second => .skip (rest.append second)
  | .node covers rest, second => by
    rw [List.append_assoc, List.cons_append]
    exact .node covers (rest.append second)

/-- Where a node lies there lie other nodes if they do wherever it covers tokens. -/
theorem Laid.exchange {f : Features} {page : Page} {used : List Token} {n : Node} {nodes : List Node} :
    Laid f page used [n] → (∀ used, Covers f page used n → Laid f page used nodes) →
      Laid f page used nodes
  | .skip rest, other => .skip (rest.exchange other)
  | .node covers rest, other => by
    have both := (other _ covers).append rest
    rwa [List.append_nil] at both

/-- The first node of a row covers tokens of its own, and the others lie behind them. -/
theorem Laid.uncons {f : Features} {page : Page} {used : List Token} {n : Node} {nodes : List Node} :
    Laid f page used (n :: nodes) →
      ∃ skipped own rest, used = skipped ++ (own ++ rest) ∧ Covers f page own n ∧
        Laid f page rest nodes
  | .skip laid => by
    obtain ⟨skipped, own, rest, rfl, covers, laid⟩ := laid.uncons
    exact ⟨_ :: skipped, own, rest, rfl, covers, laid⟩
  | .node covers laid => ⟨[], _, _, rfl, covers, laid⟩

/-- No node covers nothing. -/
theorem Covers.ne_nil {f : Features} {page : Page} {used : List Token} {n : Node}
    (covers : Covers f page used n) : used ≠ [] := by
  cases covers
  assumption

/-- The span of a node is that of the tokens that it covers. -/
theorem Covers.span_eq {f : Features} {page : Page} {used : List Token} {n : Node}
    (covers : Covers f page used n) : n.span = spanOf used := by
  cases covers
  assumption

theorem Laid.eq_nil {f : Features} {page : Page} {nodes : List Node}
    (laid : Laid f page [] nodes) : nodes = [] := by
  cases nodes with
  | nil => rfl
  | cons n nodes =>
    obtain ⟨skipped, own, rest, none, covers, -⟩ := laid.uncons
    simp [covers.ne_nil] at none

/-- The only part of a node lies on the tokens that the node covers. -/
theorem Covers.only_part {f : Features} {page : Page} {used : List Token} {n part : Node}
    (covers : Covers f page used n) (only : n.parts = [part]) : Laid f page used [part] := by
  cases covers with
  | intro _ _ _ arranged laid =>
    have perm := arranged.perm
    rw [only, List.perm_singleton] at perm
    rwa [perm] at laid

theorem Covers.laid (covers : Covers f page used n) : Laid f page used [n] := by
  have laid := Laid.node covers .nil
  rwa [List.append_nil] at laid

/-- The span of some tokens begins behind what stands before them, and is not empty. -/
theorem spanOf_bounds {p : Position} {used : List Token} (ordered : Ordered p.offset used)
    (some : used ≠ []) : p.offset ≤ (spanOf used).start.offset ∧
      (spanOf used).start.offset < (spanOf used).stop.offset ∧
      (spanOf used).stop = endBehind p used := by
  obtain ⟨t, rest, rfl⟩ := List.exists_cons_of_ne_nil some
  exact ⟨ordered.1, ordered.start_lt_endBehind, rfl⟩

/-- Nodes on ordered tokens lie between the ends of the tokens, one behind the other. -/
theorem Laid.spans {p : Position} {used : List Token} {nodes : List Node} :
    Laid f page used nodes → Ordered p.offset used →
      (∀ n ∈ nodes, p.offset ≤ n.span.start.offset ∧ n.span.start.offset ≤ n.span.stop.offset ∧
        n.span.stop.offset ≤ (endBehind p used).offset) ∧
      nodes.Pairwise fun a b => a.span.Before b.span
  | .nil, _ => ⟨by simp, .nil⟩
  | .skip laid, ordered => by
    obtain ⟨gap, size, rest⟩ := ordered
    obtain ⟨bounds, before⟩ := laid.spans rest
    refine ⟨fun n mem => ?_, before⟩
    have := bounds n mem
    rw [endBehind_cons]
    omega
  | .node covers laid, ordered => by
    obtain ⟨own, rest⟩ := ordered.split
    obtain ⟨low, size, stop⟩ := spanOf_bounds own covers.ne_nil
    obtain ⟨bounds, before⟩ := laid.spans rest
    have further := rest.le_endBehind
    rw [← covers.span_eq] at low size stop
    rw [endBehind_append]
    refine ⟨List.forall_mem_cons.mpr ⟨?_, fun n mem => ?_⟩, .cons (fun n mem => ?_) before⟩
    · rw [stop] at size ⊢
      omega
    · have := bounds n mem
      rw [stop] at size
      omega
    · have := bounds n mem
      rw [Span.Before, stop]
      omega

end

end SqlTree
