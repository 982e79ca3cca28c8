import SqlTree.Proofs.Reading.Yields
import SqlTree.Proofs.Tree.Laid

namespace SqlTree

/-- A node fits tokens if its span is theirs and its parts lie on them. -/
structure Fits (f : Features) (page : Page) (used : List Token) (n : Node) (nodes : List Node) :
    Prop where
  nonempty : used ≠ []
  span : n.span = spanOf used
  arranged : Arranged n nodes
  laid : Laid f page used nodes

section

variable {f : Features} {page : Page} {used : List Token} {n : Node} {nodes others : List Node}
  {p mid q : Nat}

/-- A node that fits tokens covers them, once it is known where it comes from. -/
theorem Fits.covers (fits : Fits f page used n nodes) (origin : Origin f page used n) :
    Covers f page used n :=
  .intro fits.nonempty fits.span origin fits.arranged fits.laid

/-- The parts of a node that fits tokens are in their order. -/
theorem Fits.inOrder {place : Position} (fits : Fits f page used n nodes)
    (ordered : Ordered place.offset used) : InOrder n nodes := by
  obtain ⟨t, rest, rfl⟩ := List.exists_cons_of_ne_nil fits.nonempty
  have own : Ordered t.span.start.offset (t :: rest) := ⟨Nat.le_refl _, ordered.2⟩
  obtain ⟨-, size, stop⟩ := spanOf_bounds own (by simp)
  obtain ⟨bounds, pairwise⟩ := fits.laid.spans own
  refine ⟨fits.arranged.perm, by rw [fits.span]; exact size, fun p mem => ?_, pairwise⟩
  obtain ⟨first, -, last⟩ := bounds p mem
  rw [← stop] at last
  rw [fits.span]
  simp only [Span.contains, Bool.and_eq_true, decide_eq_true_eq]
  exact ⟨first, last⟩

/-- Nodes that follow each other count on. -/
theorem CountedAll.append {p mid q : Nat} {nodes others : List Node} :
    CountedAll p nodes mid → CountedAll mid others q → CountedAll p (nodes ++ others) q
  | .nil, second => second
  | .cons first rest, second => .cons first (rest.append second)

/-- Where no node is nothing is counted. -/
theorem CountedAll.eq_of_nil (counted : CountedAll p [] q) : p = q := by
  cases counted
  rfl

/-- A node by itself counts as in a row. -/
theorem countedAll_singleton : CountedAll p [n] q ↔ Counted p n q := by
  constructor
  · rintro (_ | ⟨counted, rest⟩)
    exact rest.eq_of_nil ▸ counted
  · exact fun counted => .cons counted .nil

theorem CountedAll.none (same : p = q) : CountedAll p [] q := same ▸ .nil

/-- A node that is no placeholder counts what its parts do. -/
theorem Fits.counted {place : Position} (fits : Fits f page used n nodes)
    (ordered : Ordered place.offset used) (plain : n.isParameter = false)
    (parts : CountedAll p nodes q) : Counted p n q :=
  .intro (.other plain) (fits.inOrder ordered) parts

/-- The parts of a node that is no placeholder count what the node does. -/
theorem Counted.parts (counted : Counted p n q) (plain : n.isParameter = false) :
    ∃ nodes, nodes.Perm n.parts ∧ CountedAll p nodes q := by
  cases counted with
  | intro counts inOrder parts =>
    cases counts with
    | other => exact ⟨_, inOrder.perm, parts⟩
    | placeholder => cases plain
    | named => cases plain

theorem Counted.only_part {part : Node} (counted : Counted p n q) (plain : n.isParameter = false)
    (only : n.parts = [part]) : CountedAll p [part] q := by
  obtain ⟨nodes, perm, parts⟩ := counted.parts plain
  rw [only, List.perm_singleton] at perm
  exact perm ▸ parts

/-- A node without parts counts nothing, unless it is a placeholder. -/
theorem Counted.eq_of_leaf (counted : Counted p n q) (plain : n.isParameter = false)
    (none : n.parts = []) : p = q := by
  obtain ⟨nodes, perm, parts⟩ := counted.parts plain
  rw [none, List.perm_nil] at perm
  exact (perm ▸ parts).eq_of_nil

end

open Rule

theorem TokenKind.sameKind_eof {a b : TokenKind} (same : a.sameKind b = true)
    (notEof : b.sameKind .eof = false) : (a == TokenKind.eof) = false := by
  rw [beq_eq_false_iff_ne]
  rintro rfl
  simp only [sameKind, beq_iff_eq] at same
  simp only [sameKind, ← same, beq_self_eq_true] at notEof
  cases notEof

theorem TokenKind.semicolon_of_sameKind {kind : TokenKind} (same : kind.sameKind .semicolon = true) :
    kind = .semicolon := by
  cases kind <;> first | rfl | cases same

theorem TokenKind.star_of_sameKind {kind : TokenKind} (same : kind.sameKind .star = true) :
    kind = .star := by
  cases kind <;> first | rfl | cases same

theorem Token.isEof_of_spells {t : Token} {k : Keyword} (spells : t.spells k = true) :
    t.isEof = false := by
  rcases t with ⟨kind, text, span⟩
  cases kind <;> first | rfl | cases spells

/-- Some tokens were consumed from a tape on, and some nodes lie on them, whose placeholders were
counted. -/
structure Lays (f : Features) (tokens : List Token) (top : Nat) (s : Tape) (used : List Token)
    (nodes : List Node) (after : Tape) : Prop where
  start : s.Along tokens
  moves : s.Moves used after
  laid : Laid f (s.page tokens top) used nodes
  counted : CountedAll s.params nodes after.params

/-- At least so many tokens were consumed from a tape on, and the nodes of a value lie on them. -/
def Laying {α : Type} (f : Features) (tokens : List Token) (top : Nat) (s : Tape) (least : Nat)
    (nodes : α → List Node) (value : α) (after : Tape) : Prop :=
  ∃ used, least ≤ used.length ∧ Lays f tokens top s used (nodes value) after

/-- The node of a value fits the tokens that were consumed from a tape on, and its placeholders were
counted. -/
structure Filling {α : Type} (f : Features) (tokens : List Token) (top : Nat) (s : Tape)
    (node : α → Node) (value : α) (after : Tape) : Prop where
  start : s.Along tokens
  fits : ∃ used nodes, s.Moves used after ∧ Fits f (s.page tokens top) used (node value) nodes
  counted : Counted s.params (node value) after.params

/-- Wherever a rule gives a value on the way through the tokens of a text the value fits. -/
def Always {α : Type} (f : Features) (tokens : List Token) (limit : Nat) (rule : SqlRule α)
    (post : Tape → α → Tape → Prop) : Prop :=
  ∀ s : Tape, s.Along tokens → rule.Yields (sqlLevels f limit) s (post s)

/-- Wherever a rule gives a value the nodes of the value lie on the tokens that it consumed. -/
abbrev Reads {α : Type} (f : Features) (tokens : List Token) (top limit least : Nat) (rule : SqlRule α)
    (nodes : α → List Node) : Prop :=
  Always f tokens limit rule fun s => Laying f tokens top s least nodes

/-- Wherever a rule gives a node, the node fits the tokens that it consumed. -/
abbrev Fills {α : Type} (f : Features) (tokens : List Token) (top limit : Nat) (rule : SqlRule α)
    (node : α → Node) : Prop :=
  Always f tokens limit rule fun s => Filling f tokens top s node

theorem sqlLevels_forward (f : Features) (limit : Nat) : ∀ level ∈ sqlLevels f limit, level.Forward :=
  tapeLevels_forward _ limit

section

variable {α : Type} {f : Features} {tokens used more : List Token} {nodes others : List Node}
  {s₀ s after : Tape} {t : Token} {top limit least : Nat}

theorem Lays.refl (top : Nat) (along : s.Along tokens) : Lays f tokens top s [] [] s :=
  ⟨along, .refl s, .nil, .nil⟩

theorem Lays.congr (row : Lays f tokens top s₀ used nodes s) (same : nodes = others) :
    Lays f tokens top s₀ used others s := same ▸ row

theorem Lays.along (row : Lays f tokens top s₀ used nodes s) : s.Along tokens := row.start.moves row.moves

/-- Tapes that lead to each other are on one page. -/
theorem Tape.Moves.page_eq (moves : s.Moves used after) : after.page tokens top = s.page tokens top := by
  rw [Tape.page, moves.text, moves.stop]

/-- What was consumed first and what was consumed then make up what was consumed. -/
theorem Lays.trans (row : Lays f tokens top s₀ used nodes s) (rest : Lays f tokens top s more others after) :
    Lays f tokens top s₀ (used ++ more) (nodes ++ others) after :=
  ⟨row.start, row.moves.trans rest.moves, row.laid.append (row.moves.page_eq ▸ rest.laid),
    row.counted.append rest.counted⟩

/-- A token that is consumed adds no node. -/
theorem Lays.token (row : Lays f tokens top s₀ used nodes s) (moves : s.Moves [t] after)
    (same : s.params = after.params) : Lays f tokens top s₀ (used ++ [t]) nodes after := by
  have whole := row.trans ⟨row.along, moves, laid_none [t], .none same⟩
  rwa [List.append_nil] at whole

/-- The nodes are the parts of a node that fits what was consumed. -/
theorem Lays.node {n : Node} (row : Lays f tokens top s₀ used nodes s)
    (fits : Fits f (s₀.page tokens top) used n nodes)
    (origin : Origin f (s₀.page tokens top) used n) (plain : n.isParameter = false) :
    Lays f tokens top s₀ used [n] s :=
  ⟨row.start, row.moves, (fits.covers origin).laid,
    countedAll_singleton.mpr (fits.counted (row.start.ordered_used row.moves) plain row.counted)⟩

/-- A span from the start of the first token consumed to the end of the last one is theirs. -/
theorem Lays.span_eq (row : Lays f tokens top s₀ used nodes s) (some : used ≠ [])
    (peek : s₀.peek = .ok t) :
    (⟨t.span.start, s.lastEnd.later t.span.start⟩ : Span) = spanOf used := by
  obtain ⟨first, rest, rfl, shown⟩ := row.moves.peek some
  rw [shown] at peek
  cases peek
  have lt := (row.start.ordered_used row.moves).start_lt_endBehind
  rw [row.moves.lastEnd, endBehind_cons, Position.later_of_lt lt]
  rfl

theorem Reads.mono {rule : SqlRule α} {nds : α → List Node} (reads : Reads f tokens top limit least rule nds)
    {fewer : Nat} (le : fewer ≤ least) : Reads f tokens top limit fewer rule nds :=
  fun s along => (reads s along).mono fun _ _ ⟨used, enough, row⟩ => ⟨used, by omega, row⟩

theorem Tape.Along.on_page (along : s.Along tokens) : s.On (s.page tokens top) := ⟨along, rfl, rfl⟩

/-- A node that covers what its rule consumed lies on it, once it is known where it comes from. -/
theorem Filling.laying {node : α → Node} {value : α} (filling : Filling f tokens top s node value after)
    (origin : ∀ used, s.Moves used after → Counted s.params (node value) after.params →
      Origin f (s.page tokens top) used (node value)) :
    Laying f tokens top s 1 (fun value => [node value]) value after := by
  obtain ⟨along, ⟨used, nodes, moves, fits⟩, counted⟩ := filling
  have covers := fits.covers (origin used moves counted)
  exact ⟨used, List.length_pos_iff.mpr fits.nonempty, along, moves, covers.laid,
    countedAll_singleton.mpr counted⟩

/-- A node that fills its tokens lies on them. -/
theorem Fills.reads {rule : SqlRule α} {node : α → Node} (fills : Fills f tokens top limit rule node)
    (origin : ∀ {page : Page} used value, Spells f page.tokens rule used value →
      Origin f page used (node value)) :
    Reads f tokens top limit 1 rule (fun value => [node value]) := fun s along value after read =>
  (fills s along value after read).laying fun used moves _ =>
    origin used value ⟨limit, s, after, along, moves, read⟩

/-- A rule that is nested in another one. -/
theorem Fills.inside {rule : SqlRule α} {node : α → Node} (fills : Fills f tokens top limit rule node)
    (deep : limit < top) (origin : ∀ {page : Page} used value, SpellsInside f page rule used node value →
      Origin f page used (node value)) :
    Reads f tokens top limit 1 rule (fun value => [node value]) := fun s along value after read =>
  (fills s along value after read).laying fun used moves counted =>
    origin used value ⟨limit, deep, s, after, along.on_page, moves, counted, read⟩

end

end SqlTree
