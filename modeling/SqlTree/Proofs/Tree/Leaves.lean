import Mathlib.Data.List.Induction
import Mathlib.Data.List.Nodup
import SqlTree.Proofs.Progress.Consumes
import SqlTree.Proofs.Tree.Spans

namespace SqlTree

/-- The two tables of a join. -/
inductive JoinSide where
  | left
  | right
  deriving DecidableEq

namespace TableRef

def isJoin : TableRef → Bool
  | join _ _ _ => true
  | _ => false

/-- The table at a place inside joins, each of which is entered on one side. Derived tables and
expressions are not entered. -/
def at? : TableRef → List JoinSide → Option TableRef
  | t, [] => some t
  | join left _ _, .left :: sides => left.at? sides
  | join _ j _, .right :: sides => j.table.at? sides
  | _, _ :: _ => none

end TableRef

/-- The table at a place behind FROM: at a place inside one of the tables that commas separate. -/
def SelectStatement.tableAt? (s : SelectStatement) (i : Nat) (sides : List JoinSide) :
    Option TableRef :=
  s.tables[i]?.bind (·.at? sides)

/-- The leaves of a query are its tables that are no joins, each once and in the order of the text. -/
structure SelectStatement.ListsTables (s : SelectStatement) : Prop where
  exactly : ∀ t, t ∈ s.leaves ↔ t.isJoin = false ∧ ∃ i sides, s.tableAt? i sides = some t
  once : s.leaves.Nodup
  onePlace : ∀ {i j sides sides' t}, s.tableAt? i sides = some t → s.tableAt? j sides' = some t →
    t.isJoin = false → i = j ∧ sides = sides'
  increasing : s.leaves.Pairwise fun a b =>
    a.span.start.offset < b.span.start.offset ∧ a.span.Before b.span
  inside : ∀ t ∈ s.leaves, t.span.start.offset < t.span.stop.offset ∧ s.span.contains t.span

namespace TableRef

mutual

/-- A table is a leaf, or it joins a table to another one. -/
theorem joinInduction {motive : TableRef → Prop} (leaf : ∀ t, t.isJoin = false → motive t)
    (join : ∀ left j span, motive left → motive j.table → motive (.join left j span)) :
    (t : TableRef) → motive t
  | .table name alias? span => leaf (.table name alias? span) rfl
  | .subquery query alias? span => leaf (.subquery query alias? span) rfl
  | .join left j span =>
    join left j span (joinInduction leaf join left) (joinInduction_clause leaf join j)

theorem joinInduction_clause {motive : TableRef → Prop} (leaf : ∀ t, t.isJoin = false → motive t)
    (join : ∀ left j span, motive left → motive j.table → motive (.join left j span)) :
    (j : JoinClause) → motive j.table
  | ⟨_, _, t, _, _, _⟩ => joinInduction leaf join t

end

theorem leaves_of_leaf {t : TableRef} (leaf : t.isJoin = false) : t.leaves = [t] := by
  cases t with
  | join => cases leaf
  | _ => rfl

/-- The leaves of a join are those of its left table, and then those of the other one. -/
theorem leaves_join (left : TableRef) (j : JoinClause) (span : Span) :
    (join left j span).leaves = left.leaves ++ j.table.leaves := by
  cases j
  rfl

theorem at?_of_leaf {t : TableRef} (leaf : t.isJoin = false) (side : JoinSide) (sides : List JoinSide) :
    t.at? (side :: sides) = none := by
  cases t with
  | join => cases leaf
  | _ => cases side <;> rfl

/-- The leaves of a table are what stands at some place inside it and is no join. -/
theorem mem_leaves_iff {t u : TableRef} :
    u ∈ t.leaves ↔ u.isJoin = false ∧ ∃ sides, t.at? sides = some u := by
  induction t using joinInduction with
  | leaf t leaf =>
    rw [leaves_of_leaf leaf, List.mem_singleton]
    constructor
    · rintro rfl
      exact ⟨leaf, [], rfl⟩
    · rintro ⟨-, _ | ⟨side, sides⟩, found⟩
      · exact (Option.some.inj found).symm
      · rw [at?_of_leaf leaf] at found
        cases found
  | join left j span ihLeft ihTable =>
    rw [leaves_join, List.mem_append, ihLeft, ihTable]
    constructor
    · rintro (⟨leaf, sides, found⟩ | ⟨leaf, sides, found⟩)
      · exact ⟨leaf, .left :: sides, found⟩
      · exact ⟨leaf, .right :: sides, found⟩
    · rintro ⟨leaf, _ | ⟨_ | _, sides⟩, found⟩
      · cases found
        cases leaf
      · exact .inl ⟨leaf, sides, found⟩
      · exact .inr ⟨leaf, sides, found⟩

/-- Where no leaf is listed twice a leaf stands at one place. -/
theorem at?_injective {t u : TableRef} {sides sides' : List JoinSide} (distinct : t.leaves.Nodup)
    (leaf : u.isJoin = false) (found : t.at? sides = some u) (found' : t.at? sides' = some u) :
    sides = sides' := by
  induction t using joinInduction generalizing sides sides' with
  | leaf t isLeaf =>
    rcases sides with _ | ⟨side, sides⟩ <;> rcases sides' with _ | ⟨side', sides'⟩
    · rfl
    · rw [at?_of_leaf isLeaf] at found'
      cases found'
    · rw [at?_of_leaf isLeaf] at found
      cases found
    · rw [at?_of_leaf isLeaf] at found
      cases found
  | join left j span ihLeft ihTable =>
    rw [leaves_join, List.nodup_append] at distinct
    obtain ⟨ofLeft, ofTable, apart⟩ := distinct
    have both {sides sides' : List JoinSide} (onLeft : left.at? sides = some u)
        (onRight : j.table.at? sides' = some u) : False :=
      apart u (mem_leaves_iff.mpr ⟨leaf, _, onLeft⟩) u (mem_leaves_iff.mpr ⟨leaf, _, onRight⟩) rfl
    rcases sides with _ | ⟨_ | _, sides⟩
    · cases found
      cases leaf
    · rcases sides' with _ | ⟨_ | _, sides'⟩
      · cases found'
        cases leaf
      · rw [ihLeft ofLeft found found']
      · exact (both found found').elim
    · rcases sides' with _ | ⟨_ | _, sides'⟩
      · cases found'
        cases leaf
      · exact (both found' found).elim
      · rw [ihTable ofTable found found']

end TableRef

namespace SelectStatement

variable {s : SelectStatement} {t : TableRef}

theorem mem_leaves_iff :
    t ∈ s.leaves ↔ t.isJoin = false ∧ ∃ i sides, s.tableAt? i sides = some t := by
  simp only [tableAt?, Option.bind_eq_some_iff]
  rw [leaves, List.mem_flatMap]
  constructor
  · rintro ⟨root, listed, mem⟩
    obtain ⟨leaf, sides, place⟩ := TableRef.mem_leaves_iff.mp mem
    obtain ⟨i, found⟩ := List.mem_iff_getElem?.mp listed
    exact ⟨leaf, i, sides, root, found, place⟩
  · rintro ⟨leaf, i, sides, root, found, place⟩
    exact ⟨root, List.mem_of_getElem? found, TableRef.mem_leaves_iff.mpr ⟨leaf, sides, place⟩⟩

/-- Where no leaf of a query is listed twice, a leaf stands at one place. -/
theorem tableAt?_injective {i j : Nat} {sides sides' : List JoinSide} (distinct : s.leaves.Nodup)
    (leaf : t.isJoin = false) (found : s.tableAt? i sides = some t)
    (found' : s.tableAt? j sides' = some t) : i = j ∧ sides = sides' := by
  obtain ⟨root, atRoot, place⟩ := Option.bind_eq_some_iff.mp found
  obtain ⟨root', atRoot', place'⟩ := Option.bind_eq_some_iff.mp found'
  obtain ⟨within, rfl⟩ := List.getElem?_eq_some_iff.mp atRoot
  obtain ⟨within', rfl⟩ := List.getElem?_eq_some_iff.mp atRoot'
  obtain ⟨each, apart⟩ := List.nodup_flatMap.mp distinct
  have listed := TableRef.mem_leaves_iff.mpr ⟨leaf, _, place⟩
  have listed' := TableRef.mem_leaves_iff.mpr ⟨leaf, _, place'⟩
  rw [List.pairwise_iff_getElem] at apart
  rcases Nat.lt_trichotomy i j with lt | rfl | gt
  · exact (apart i j within within' lt listed listed').elim
  · exact ⟨rfl, TableRef.at?_injective (each _ (List.getElem_mem within)) leaf place place'⟩
  · exact (apart j i within' within gt listed' listed).elim

end SelectStatement

section

variable {f : Features} {page : Page} {used : List Token}

/-- The parts of a node lie on its tokens in their own order, unless a text may mix them. -/
theorem Covers.parts_laid {n : Node} (covers : Covers f page used n) (kept : n.mixesParts = false) :
    Laid f page used n.parts := by
  cases covers with
  | intro _ _ _ arranged laid => rwa [arranged.same kept] at laid

/-- Where nodes lie there lie the nodes that each of them stands for. -/
theorem Laid.flatMap {nodes : List Node} {g : Node → List Node} (laid : Laid f page used nodes)
    (each : ∀ used n, Covers f page used n → Laid f page used (g n)) :
    Laid f page used (nodes.flatMap g) := by
  induction nodes generalizing used with
  | nil => exact laid_none used
  | cons n nodes ih =>
    obtain ⟨skipped, own, rest, rfl, covers, behind⟩ := laid.uncons
    exact ((each own n covers).append (ih behind)).skips skipped

/-- The leaves of a table lie on its tokens, one behind the other. -/
theorem Covers.leaves_laid {t : TableRef} (covers : Covers f page used (.table t)) :
    Laid f page used (t.leaves.map .table) := by
  induction t using TableRef.joinInduction generalizing used with
  | leaf t leaf =>
    rw [TableRef.leaves_of_leaf leaf]
    exact covers.laid
  | join left j span ihLeft ihTable =>
    have parts : Laid f page used [.table left, .join j] := covers.parts_laid rfl
    obtain ⟨skipped, own, rest, rfl, left, behind⟩ := parts.uncons
    rw [TableRef.leaves_join, List.map_append]
    refine ((ihLeft left).append (behind.exchange fun used clause => ?_)).skips skipped
    obtain ⟨skipped, own, rest, rfl, table, -⟩ := (clause.parts_laid rfl).uncons
    have alone := (ihTable table).append (laid_none rest)
    rw [List.append_nil] at alone
    exact alone.skips skipped

/-- The tables that stand for a node behind FROM. -/
def Node.tables : Node → List Node
  | table t => t.leaves.map table
  | _ => []

/-- The leaves of a query lie on its tokens. -/
theorem SelectStatement.leaves_laid {s : SelectStatement} (covers : Covers f page used (.select s)) :
    Laid f page used (s.leaves.map .table) := by
  have others {α : Type} (node : α → Node) (plain : ∀ x, (node x).tables = []) (xs : List α) :
      (xs.map node).flatMap Node.tables = [] := by
    simp [List.flatMap_map, plain]
  have listed : (s.tables.map Node.table).flatMap Node.tables = s.leaves.map .table := by
    rw [List.flatMap_map, leaves, List.map_flatMap]
    rfl
  have laid := (covers.parts_laid rfl).flatMap (g := Node.tables) fun used n covers => by
    cases n with
    | table t => exact covers.leaves_laid
    | _ => exact laid_none used
  have same : (Node.select s).parts.flatMap Node.tables = s.leaves.map .table := by
    simp [Node.parts, Node.fields, listed, others Node.column fun _ => rfl,
      others Node.expr fun _ => rfl, others Node.order fun _ => rfl, others Node.limit fun _ => rfl]
  rwa [same] at laid

/-- The leaves of a query lie inside its span, one behind the other. -/
theorem SelectStatement.listsTables {before after : List Token} {s : SelectStatement}
    (ordered : Ordered 0 (before ++ used ++ after)) (covers : Covers f page used (.select s)) :
    s.ListsTables := by
  have own : Ordered (endBehind .start before).offset used := by
    rw [List.append_assoc] at ordered
    exact (Ordered.split (p := .start) ordered).2.split.1
  obtain ⟨first, rest, rfl⟩ := List.exists_cons_of_ne_nil covers.ne_nil
  have fromStart : Ordered first.span.start.offset (first :: rest) := ⟨Nat.le_refl _, own.2⟩
  have laid := leaves_laid covers
  obtain ⟨bounds, apart⟩ := laid.spans fromStart
  rw [List.pairwise_map] at apart
  have wide {t : TableRef} (mem : t ∈ s.leaves) : t.span.start.offset < t.span.stop.offset := by
    obtain ⟨front, inner, behind, split, covers⟩ := laid.covers_of_mem (List.mem_map_of_mem mem)
    rw [split, List.append_assoc] at own
    have size := (spanOf_bounds own.split.2.split.1 covers.ne_nil).2.1
    rwa [← covers.span_eq] at size
  have increasing : s.leaves.Pairwise fun a b =>
      a.span.start.offset < b.span.start.offset ∧ a.span.Before b.span :=
    apart.imp_of_mem fun memA _ before => ⟨Nat.lt_of_lt_of_le (wide memA) before, before⟩
  have once : s.leaves.Nodup :=
    increasing.imp fun {a b} less same => by
      subst same
      exact Nat.lt_irrefl _ less.1
  refine
    { exactly := fun t => mem_leaves_iff
      once := once
      onePlace := fun found found' leaf => tableAt?_injective once leaf found found'
      increasing := increasing
      inside := fun t mem => ⟨wide mem, ?_⟩ }
  have span : s.span = spanOf (first :: rest) := covers.span_eq
  have within := bounds _ (List.mem_map_of_mem mem)
  rw [span, Span.contains_iff]
  exact ⟨within.1, within.2.2⟩

end

/-- A table inside joins, the first of which is the innermost. Each join goes from the start of the chain
to the end of its own clause. -/
inductive TableRef.Nests (start : Position) (first : TableRef) : List JoinClause → TableRef → Prop
  | alone : Nests start first [] first
  | join {joins left} (j : JoinClause) : Nests start first joins left →
      Nests start first (joins ++ [j]) (.join left j ⟨start, j.span.stop⟩)

/-- Joins that are put behind a table one after the other nest in each other. -/
theorem TableRef.nests_foldl (start : Position) (first : TableRef) (joins : List JoinClause) :
    Nests start first joins
      (joins.foldl (fun left join => .join left join ⟨start, join.span.stop⟩) first) := by
  induction joins using List.reverseRecOn with
  | nil => exact .alone
  | append_singleton joins j ih =>
    rw [List.foldl_concat]
    exact .join j ih

/-- The leaves of nested joins are those of their tables from left to right. -/
theorem TableRef.Nests.leaves {start : Position} {first t : TableRef} {joins : List JoinClause}
    (nests : Nests start first joins t) :
    t.leaves = first.leaves ++ joins.flatMap (·.table.leaves) := by
  induction nests with
  | alone => simp
  | join j _ ih => simp [leaves_join, ih]

section

open Rule SqlRule

variable (rules : LexicalRules) (f : Features) (limit : Nat)

/-- Join clauses that are read one behind the other, as many as there are. The table of each of them is a
single factor that is read on the way. -/
inductive SqlRule.JoinChain : State → List JoinClause → State → Prop
  | done {st after} : SqlRule.evalWithin limit rules f (joinClause f).optional st = (.ok none, after) →
      JoinChain st [] after
  | join {st mid after before behind j joins} :
      SqlRule.evalWithin limit rules f (joinClause f).optional st = (.ok (some j), mid) →
      Visit.Inside rules (Symbol.body f) ⟨limit, (joinClause f).optional, st⟩
        ⟨limit, tableFactor f, before⟩ →
      (tableFactor f).evalWithin limit rules f before = (.ok j.table, behind) →
      JoinChain mid joins after → JoinChain st (j :: joins) after

/-- A table that was read is a factor with the joins behind it, which group to the left. -/
structure SqlRule.JoinsLeft (st : State) (t : TableRef) (after : State) : Prop where
  chain : ∃ token first joins behind, (st.peek rules).1 = .ok token ∧
    (tableFactor f).evalWithin limit rules f (st.peek rules).2 = (.ok first, behind) ∧
    SqlRule.JoinChain rules f limit behind joins after ∧
    TableRef.Nests token.span.start first joins t ∧
    t.leaves = first.leaves ++ joins.flatMap (·.table.leaves)

end

section

open Rule SqlRule

variable {rules : LexicalRules} {f : Features} {limit : Nat} {st after : State}

/-- The table of a join clause is a single factor that is read on the way. -/
theorem SqlRule.joinClause_factor {j : JoinClause}
    (eval : (joinClause f).evalWithin limit rules f st = (.ok j, after)) :
    ∃ before behind, Visit.Inside rules (Symbol.body f) ⟨limit, joinClause f, st⟩
        ⟨limit, tableFactor f, before⟩ ∧
      (tableFactor f).evalWithin limit rules f before = (.ok j.table, behind) := by
  obtain ⟨p, st₁, start, eval⟩ := eval_bind_ok eval
  obtain ⟨natural, st₂, word, eval⟩ := eval_bind_ok eval
  obtain ⟨type, before, words, eval⟩ := eval_bind_ok eval
  obtain ⟨t, behind, factor, eval⟩ := eval_bind_ok eval
  obtain ⟨⟨condition, columns⟩, st₅, on, eval⟩ := eval_bind_ok eval
  obtain ⟨span, st₆, ends, eval⟩ := eval_bind_ok eval
  cases eval
  refine ⟨before, behind, ?_, factor⟩
  exact .tail (.tail (.tail (.single (.next start)) (.next word)) (.next words)) .first

/-- What a repetition of join clauses reads is a chain of joins. -/
theorem SqlRule.joinChain_of_repeats {joins : List JoinClause} {mid : State}
    (repeats : Rule.Repeats rules (joinClause f) (Rule.levels rules (Symbol.body f) limit) st joins mid)
    (last : SqlRule.evalWithin limit rules f (joinClause f).optional mid = (.ok none, after)) :
    SqlRule.JoinChain rules f limit st joins after := by
  induction repeats with
  | none => exact .done last
  | next eval _ _ ih =>
    obtain ⟨before, behind, inside, clause⟩ := eval_optional_some eval
    obtain ⟨before', behind', inside', factor⟩ := joinClause_factor clause
    exact .join eval (inside.trans inside') factor (ih last)

/-- Wherever a state stands, a table that is read there groups its joins to the left. -/
theorem Tracks.joinsLeft {s : Tape} {tokens : List Token} {t : TableRef} (tracks : Tracks rules st s)
    (along : s.Along tokens) (eval : (tableRef f).evalWithin limit rules f st = (.ok t, after)) :
    SqlRule.JoinsLeft rules f limit st t after := by
  obtain ⟨p, st₁, start, eval⟩ := eval_bind_ok eval
  obtain ⟨first, behind, factor, eval⟩ := eval_bind_ok eval
  obtain ⟨joins, last, clauses, eval⟩ := eval_bind_ok eval
  cases eval
  obtain ⟨token, st₂, shown, place⟩ := eval_bind_ok start
  cases place
  have peeked : st.peek rules = (.ok token, st₁) := shown
  have agrees := tracks.peek
  rw [peeked] at agrees
  obtain ⟨s₂, read, tracks₂⟩ := agrees.tracks.reads factor
  have along₂ : s₂.Along tokens := by
    obtain ⟨used, -, row⟩ := tableFactor_reads (callsAt f tokens limit) s along first s₂ read
    exact row.along
  obtain ⟨mid, repeats, missing⟩ := tracks₂.many_ok Solid.joinClause.consumes.optional along₂ clauses
  refine ⟨token, first, joins, behind, by rw [peeked], by rw [peeked]; exact factor,
    joinChain_of_repeats repeats missing, TableRef.nests_foldl _ _ _, ?_⟩
  exact (TableRef.nests_foldl _ _ _).leaves

end

/-- The tables that a query reads from. The leaves of every query in a model are its named and derived
tables; and wherever tables are read, in whatever state, they are joined to the left. -/
theorem Dialect.parse_tables (d : Dialect) :
    (∀ kind text m, d.parse kind text = .ok m → ∀ s, m.node.Within (.select s) → s.ListsTables) ∧
    ∀ text saved st limit t after, Reachable d.lexical text saved st →
      (SqlRule.tableRef d.features).evalWithin limit d.lexical d.features st = (.ok t, after) →
      SqlRule.JoinsLeft d.lexical d.features limit st t after := by
  refine ⟨fun kind text m parsed s within => ?_, fun text saved st limit t after reach eval => ?_⟩
  · obtain ⟨tokens, eof, whole⟩ := d.parsedOver parsed
    obtain ⟨before, own, behind, split, covers⟩ := whole.covers within nofun
    exact SelectStatement.listsTables (split ▸ whole.ordered) covers
  · obtain ⟨s, tokens, tracks, along⟩ := reach.along
    exact tracks.joinsLeft along eval

/-- Tables on both sides of a comma, with joins between parentheses in either operand of a join. -/
def joinsOnBothSides : String := "SELECT 1 FROM (a JOIN b ON 1) JOIN (c JOIN d ON 1) ON 1, (SELECT 1) e"

/-- Joins between parentheses in the middle of a chain. -/
def joinsInChain : String := "a JOIN (b JOIN c ON 1) ON 1 JOIN d ON 1"

theorem Dialect.sqlite_parse_joins :
    (Dialect.sqlite.parse .select joinsOnBothSides).toOption.map (fun
      | .select s => s.leaves.length
      | _ => 0) = some 5 := by
  decide +kernel

theorem Dialect.sqlite_read_joins :
    ((SqlRule.tableRef Dialect.sqlite.features).evalWithin maxNesting Dialect.sqlite.lexical
      Dialect.sqlite.features (.ofText joinsInChain.toList)).1.toOption.map (·.leaves.length) =
      some 4 := by
  decide +kernel

theorem Dialect.sqlite_joins_tables :
    (∃ s, Dialect.sqlite.parse .select joinsOnBothSides = .ok (.select s) ∧ s.leaves.length = 5 ∧
      s.ListsTables) ∧
    ∃ t after, (SqlRule.tableRef Dialect.sqlite.features).evalWithin maxNesting Dialect.sqlite.lexical
        Dialect.sqlite.features (.ofText joinsInChain.toList) = (.ok t, after) ∧ t.leaves.length = 4 ∧
      SqlRule.JoinsLeft Dialect.sqlite.lexical Dialect.sqlite.features maxNesting
        (.ofText joinsInChain.toList) t after := by
  have select := Dialect.sqlite_parse_joins
  have table := Dialect.sqlite_read_joins
  constructor
  · rcases parsed : Dialect.sqlite.parse .select joinsOnBothSides with _ | m <;> rw [parsed] at select
    · cases select
    · cases m with
      | select s =>
        exact ⟨s, rfl, Option.some.inj select,
          (Dialect.parse_tables Dialect.sqlite).1 .select _ _ parsed s .root⟩
      | _ => cases select
  · rcases read : (SqlRule.tableRef Dialect.sqlite.features).evalWithin maxNesting
      Dialect.sqlite.lexical Dialect.sqlite.features (.ofText joinsInChain.toList) with ⟨_ | t, after⟩ <;>
      rw [read] at table
    · cases table
    · exact ⟨t, after, rfl, Option.some.inj table,
        (Dialect.parse_tables Dialect.sqlite).2 _ [] _ maxNesting t after .start read⟩

end SqlTree
