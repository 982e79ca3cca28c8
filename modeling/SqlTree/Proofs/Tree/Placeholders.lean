import SqlTree.Proofs.Tree.Consumed
import SqlTree.Proofs.Tree.Spans

namespace SqlTree

namespace Node

theorem sizeOf_fieldsOfExpr {kind : ExprKind} {p : Node} (mem : p ∈ (fieldsOfExpr kind).flatten) :
    sizeOf p ≤ sizeOf kind := by
  cases kind with
  | literal | parameter => cases mem
  | call f =>
    cases f
    simp [fieldsOfExpr] at mem ⊢
    grind [→ List.sizeOf_lt_of_mem]
  | inList e list negated =>
    cases list <;> simp [fieldsOfExpr] at mem ⊢ <;> grind [→ List.sizeOf_lt_of_mem]
  | _ =>
    simp [fieldsOfExpr] at mem ⊢
    grind [→ List.sizeOf_lt_of_mem]

/-- A node is larger than its parts. -/
theorem sizeOf_part {n p : Node} (mem : p ∈ n.parts) : sizeOf p < sizeOf n := by
  cases n with
  | ident i => cases mem
  | expr e =>
    rcases e with ⟨kind, span⟩
    have : sizeOf p ≤ sizeOf kind := sizeOf_fieldsOfExpr mem
    simp
    omega
  | table t =>
    cases t <;> simp [parts, fields, fieldsOfTable] at mem ⊢ <;> grind
  | insert s =>
    rcases s with ⟨_, _, source, _, _⟩
    cases source <;> simp [parts, fields, fieldsOfSource] at mem ⊢ <;>
      grind [→ List.sizeOf_lt_of_mem]
  | columnConstraint c =>
    rcases c with ⟨_, kind, _⟩
    cases kind <;> simp [parts, fields, fieldsOfColumnConstraint] at mem ⊢ <;> grind
  | tableConstraint c =>
    rcases c with ⟨_, kind, _⟩
    cases kind <;> simp [parts, fields, fieldsOfTableConstraint] at mem ⊢ <;>
      grind [→ List.sizeOf_lt_of_mem]
  | script s =>
    rcases s with ⟨statements, _⟩
    simp [parts, fields] at mem ⊢
    obtain ⟨s, mem, rfl⟩ := mem
    have := List.sizeOf_lt_of_mem mem
    cases s <;> simp_all [ofStatement] <;> omega
  | _ s =>
    cases s
    simp [parts, fields] at mem ⊢
    grind [→ List.sizeOf_lt_of_mem]

/-- The nodes inside a node, itself first. -/
def nodes (n : Node) : List Node := n :: n.parts.attach.flatMap fun p => p.1.nodes
termination_by sizeOf n
decreasing_by exact sizeOf_part p.2

theorem nodes_eq (n : Node) : n.nodes = n :: n.parts.flatMap nodes := by
  rw [nodes, List.flatMap_subtype fun _ _ => rfl, List.unattach_attach]

/-- What is inside a node is inside whatever holds that node. -/
theorem Within.trans {root mid n : Node} (outer : root.Within mid) (inner : mid.Within n) :
    root.Within n := by
  induction inner with
  | root => exact outer
  | part _ mem ih => exact ih.part mem

theorem self_mem_nodes (n : Node) : n ∈ n.nodes := by
  rw [nodes_eq]
  exact List.mem_cons_self

/-- The parts of a node inside another one are inside it as well. -/
theorem mem_nodes_of_part {root n p : Node} (mem : n ∈ root.nodes) (held : p ∈ n.parts) :
    p ∈ root.nodes := by
  induction root using nodes.induct with
  | case1 root ih =>
    rw [nodes_eq, List.mem_cons, List.mem_flatMap] at mem ⊢
    rcases mem with rfl | ⟨q, member, mem⟩
    · exact .inr ⟨p, held, p.self_mem_nodes⟩
    · exact .inr ⟨q, member, ih ⟨q, member⟩ mem⟩

/-- The list of the nodes inside a node has all of them and nothing else. -/
theorem mem_nodes_iff {root n : Node} : n ∈ root.nodes ↔ root.Within n := by
  constructor
  · intro mem
    induction root using nodes.induct with
    | case1 root ih =>
      rw [nodes_eq, List.mem_cons, List.mem_flatMap] at mem
      rcases mem with rfl | ⟨p, held, mem⟩
      · exact .root
      · exact (Within.root.part held).trans (ih ⟨p, held⟩ mem)
  · intro within
    induction within with
    | root => exact root.self_mem_nodes
    | part _ held ih => exact mem_nodes_of_part ih held

end Node

/-- A positional placeholder of a model. -/
structure Placeholder where
  number : Nat
  span : Span

namespace Node

/-- The positional placeholder that a node is by itself. -/
def placeholder? : Node → Option Placeholder
  | expr ⟨.parameter none number, span⟩ => some ⟨number, span⟩
  | _ => none

/-- All positional placeholders inside a node. -/
def placeholders (n : Node) : List Placeholder := n.nodes.filterMap placeholder?

theorem placeholders_eq (n : Node) :
    n.placeholders = n.placeholder?.toList ++ n.parts.flatMap placeholders := by
  rw [placeholders, nodes_eq, List.filterMap_cons, List.filterMap_flatMap]
  cases n.placeholder? <;> rfl

theorem placeholder?_of_not_parameter {n : Node} (plain : n.isParameter = false) :
    n.placeholder? = none := by
  unfold placeholder?
  split
  · cases plain
  · rfl

end Node

/-- Placeholders with their numbers on from `p`, in the order of the text. -/
structure Consecutive (p : Nat) (marks : List Placeholder) : Prop where
  ordered : marks.Pairwise fun a b => a.span.start.offset < b.span.start.offset
  numbers : marks.map (·.number) = List.range' (p + 1) marks.length

/-- A placeholder starts inside the span of a node. -/
def Placeholder.StartsIn (k : Placeholder) (n : Node) : Prop :=
  n.span.start.offset ≤ k.span.start.offset ∧ k.span.start.offset < n.span.stop.offset

/-- Placeholders that follow each other count on. -/
theorem Consecutive.append {p : Nat} {marks others : List Placeholder}
    (first : Consecutive p marks) (second : Consecutive (p + marks.length) others)
    (before : ∀ a ∈ marks, ∀ b ∈ others, a.span.start.offset < b.span.start.offset) :
    Consecutive p (marks ++ others) := by
  refine ⟨List.pairwise_append.mpr ⟨first.ordered, second.ordered, before⟩, ?_⟩
  rw [List.map_append, first.numbers, second.numbers, List.length_append, ← List.range'_append_1]
  congr 2
  omega

mutual

/-- What a node counts are the placeholders inside it. -/
theorem Counted.placeholders {p q : Nat} {n : Node} :
    Counted p n q → ∃ marks, marks.Perm n.placeholders ∧ Consecutive p marks ∧
      q = p + marks.length ∧ ∀ k ∈ marks, k.StartsIn n
  | .intro counts inOrder parts => by
    obtain ⟨marks, perm, consecutive, count, starts⟩ := parts.placeholders inOrder.pairwise
    have inside : ∀ k ∈ marks, k.StartsIn n := fun k mem => by
      obtain ⟨part, held, first, last⟩ := starts k mem
      obtain ⟨before, behind⟩ := Span.contains_iff.mp (inOrder.inside part held)
      exact ⟨Nat.le_trans before first, Nat.lt_of_lt_of_le last behind⟩
    have whole : (n.placeholder?.toList ++ marks).Perm n.placeholders := by
      rw [n.placeholders_eq]
      exact (perm.trans (inOrder.perm.flatMap_right _)).append_left _
    cases counts with
    | placeholder =>
      obtain rfl := List.perm_nil.mp inOrder.perm
      obtain rfl := List.perm_nil.mp perm
      refine ⟨_, whole, ⟨List.pairwise_singleton _ _, rfl⟩, count, fun k mem => ?_⟩
      obtain rfl := List.mem_singleton.mp mem
      exact ⟨Nat.le_refl _, inOrder.size⟩
    | named => exact ⟨marks, whole, consecutive, count, inside⟩
    | other plain =>
      rw [Node.placeholder?_of_not_parameter plain] at whole
      exact ⟨marks, whole, consecutive, count, inside⟩

/-- What nodes behind each other count are the placeholders inside them. -/
theorem CountedAll.placeholders {p q : Nat} {nodes : List Node} :
    CountedAll p nodes q → nodes.Pairwise (fun a b => a.span.Before b.span) →
      ∃ marks, marks.Perm (nodes.flatMap Node.placeholders) ∧ Consecutive p marks ∧
        q = p + marks.length ∧ ∀ k ∈ marks, ∃ n ∈ nodes, k.StartsIn n
  | .nil, _ => ⟨[], .refl _, ⟨.nil, rfl⟩, rfl, by simp⟩
  | .cons first rest, .cons before pairwise => by
    obtain ⟨marks, perm, consecutive, count, starts⟩ := first.placeholders
    obtain ⟨others, perm', consecutive', count', starts'⟩ := rest.placeholders pairwise
    subst count
    refine ⟨marks ++ others, perm.append perm', consecutive.append consecutive' ?_, ?_, ?_⟩
    · intro a memA b memB
      obtain ⟨n, held, low, -⟩ := starts' b memB
      have gap : Span.Before _ _ := before n held
      have high := (starts a memA).2
      unfold Span.Before at gap
      omega
    · simp only [count', List.length_append]
      omega
    · intro k mem
      rcases List.mem_append.mp mem with mem | mem
      · exact ⟨_, List.mem_cons_self, starts k mem⟩
      · obtain ⟨n, held, startsIn⟩ := starts' k mem
        exact ⟨n, List.mem_cons_of_mem _ held, startsIn⟩

end

theorem CountedAll.of_mem {p q : Nat} {n : Node} {nodes : List Node} :
    CountedAll p nodes q → n ∈ nodes → ∃ p q, Counted p n q
  | .cons first rest, mem => by
    rcases List.mem_cons.mp mem with rfl | mem
    · exact ⟨_, _, first⟩
    · exact rest.of_mem mem

/-- Every node inside a node that is counted is counted. -/
theorem Counted.within {p q : Nat} {root n : Node} (counted : Counted p root q)
    (within : root.Within n) : ∃ p q, Counted p n q := by
  induction within with
  | root => exact ⟨p, q, counted⟩
  | part _ held ih =>
    obtain ⟨p, q, ⟨-, inOrder, parts⟩⟩ := ih
    exact parts.of_mem (inOrder.perm.mem_iff.mpr held)

/-- A node that is counted is not empty. -/
theorem Counted.size {p q : Nat} {n : Node} (counted : Counted p n q) :
    n.span.start.offset < n.span.stop.offset := by
  obtain ⟨-, inOrder, -⟩ := counted
  exact inOrder.size

/-- A node within another one lies inside the span of this one. -/
theorem Counted.contains {p q : Nat} {root n : Node} (counted : Counted p root q) (within : root.Within n) :
    root.span.start.offset ≤ n.span.start.offset ∧ n.span.stop.offset ≤ root.span.stop.offset := by
  induction within with
  | root => exact ⟨Nat.le_refl _, Nat.le_refl _⟩
  | part within held ih =>
    obtain ⟨p, q, ⟨-, inOrder, -⟩⟩ := counted.within within
    have inner := Span.contains_iff.mp (inOrder.inside _ (inOrder.perm.mem_iff.mpr held))
    exact ⟨Nat.le_trans ih.1 inner.1, Nat.le_trans inner.2 ih.2⟩

/-- How many positional placeholders inside a node start before a place. -/
def Node.marksBefore (n : Node) (p : Position) : Nat :=
  n.placeholders.countP fun k => k.span.start.offset < p.offset

/-- The placeholders of a node start inside it. -/
theorem Counted.startsIn {p q : Nat} {n : Node} (counted : Counted p n q) :
    ∀ k ∈ n.placeholders, k.StartsIn n := by
  obtain ⟨marks, perm, -, -, starts⟩ := counted.placeholders
  exact fun k mem => starts k (perm.mem_iff.mpr mem)

/-- Of nodes behind each other, those before one of them count up to it, and the others on from it. -/
theorem CountedAll.split {p q : Nat} {n : Node} {front behind : List Node} :
    CountedAll p (front ++ n :: behind) q → ∃ mid mid', CountedAll p front mid ∧ Counted mid n mid' ∧
      CountedAll mid' behind q := by
  induction front generalizing p with
  | nil => exact fun | .cons first rest => ⟨p, _, .nil, first, rest⟩
  | cons m front ih =>
    rintro (_ | ⟨first, rest⟩)
    obtain ⟨mid, mid', before, here, after⟩ := ih rest
    exact ⟨mid, mid', .cons first before, here, after⟩

theorem CountedAll.startsIn {p q : Nat} {nodes : List Node} :
    CountedAll p nodes q → ∀ k ∈ nodes.flatMap Node.placeholders, ∃ n ∈ nodes, k.StartsIn n
  | .nil => by simp
  | .cons first rest => by
    simp only [List.flatMap_cons, List.mem_append, List.exists_mem_cons_iff]
    rintro k (mem | mem)
    · exact .inl (first.startsIn k mem)
    · exact .inr (rest.startsIn k mem)

/-- As many placeholders were counted before a node as start before it. -/
theorem Counted.preceding {p q : Nat} {root n : Node} (counted : Counted p root q)
    (within : root.Within n) : ∃ q', Counted (p + root.marksBefore n.span.start) n q' := by
  have mem := Node.mem_nodes_iff.mpr within
  clear within
  induction root using Node.nodes.induct generalizing p q with
  | case1 root ih =>
    have whole := counted
    rw [Node.nodes_eq, List.mem_cons, List.mem_flatMap] at mem
    rcases mem with rfl | ⟨x, held, mem⟩
    · have none : n.marksBefore n.span.start = 0 := by
        refine List.countP_eq_zero.mpr fun k mem => ?_
        have := (counted.startsIn k mem).1
        simpa using this
      rw [none]
      exact ⟨q, counted⟩
    obtain ⟨counts, inOrder, parts⟩ := counted
    obtain ⟨front, behind, rfl⟩ := List.append_of_mem (inOrder.perm.mem_iff.mpr held)
    obtain ⟨mid, mid', before, here, after⟩ := parts.split
    obtain ⟨q', found⟩ := ih ⟨x, held⟩ here mem
    refine ⟨q', ?_⟩
    -- What starts before the node stands in front of the part that holds it, or inside this part.
    obtain ⟨-, apart, gaps⟩ := List.pairwise_append.mp inOrder.pairwise
    obtain ⟨marks, perm, -, count, -⟩ := before.placeholders (List.pairwise_append.mp inOrder.pairwise).1
    have bounds := here.contains (Node.mem_nodes_iff.mp mem)
    have size := found.size
    have first : (front.flatMap Node.placeholders).countP
        (fun k => k.span.start.offset < n.span.start.offset) = marks.length := by
      rw [perm.length_eq, List.countP_eq_length]
      intro k mem
      obtain ⟨m, memM, -, starts⟩ := before.startsIn k mem
      have gap : Span.Before _ _ := gaps m memM x List.mem_cons_self
      unfold Span.Before at gap
      simp only [decide_eq_true_eq]
      omega
    have last : (behind.flatMap Node.placeholders).countP
        (fun k => k.span.start.offset < n.span.start.offset) = 0 := by
      rw [List.countP_eq_zero]
      intro k mem
      obtain ⟨m, memM, starts, -⟩ := after.startsIn k mem
      have gap : Span.Before _ _ := (List.pairwise_cons.mp apart).1 m memM
      unfold Span.Before at gap
      simp only [decide_eq_true_eq]
      omega
    have plain : root.placeholder? = none ∧ mid = p + marks.length := by
      cases counts with
      | placeholder | named => cases held
      | other plain => exact ⟨Node.placeholder?_of_not_parameter plain, count⟩
    have all : root.placeholders.Perm ((front ++ x :: behind).flatMap Node.placeholders) := by
      rw [root.placeholders_eq, plain.1]
      exact (inOrder.perm.flatMap_right _).symm
    have counting : root.marksBefore n.span.start = marks.length + x.marksBefore n.span.start := by
      rw [Node.marksBefore, all.countP_eq, List.flatMap_append, List.flatMap_cons, List.countP_append,
        List.countP_append, first, last]
      rfl
    rwa [counting, ← Nat.add_assoc, ← plain.2]

/-- Where a node has placeholders, they tell how many were counted before it. -/
theorem Counted.same_start {p q p' q' : Nat} {n : Node} (counted : Counted p n q) (again : Counted p' n q')
    (some : n.placeholders ≠ []) : p = p' := by
  have least {p q p' q' : Nat} (counted : Counted p n q) (again : Counted p' n q') : p' ≤ p := by
    obtain ⟨marks, perm, consecutive, -, -⟩ := counted.placeholders
    obtain ⟨marks', perm', consecutive', -, -⟩ := again.placeholders
    have length : 0 < marks.length := by
      rw [perm.length_eq]
      exact List.length_pos_iff.mpr some
    have mem : p + 1 ∈ marks'.map (·.number) := by
      rw [((perm'.trans perm.symm).map _).mem_iff, consecutive.numbers, List.mem_range'_1]
      omega
    rw [consecutive'.numbers, List.mem_range'_1] at mem
    omega
  exact Nat.le_antisymm (least again counted) (least counted again)

/-- A named placeholder has no number. -/
theorem Counted.number_of_named {p q number : Nat} {name : String} {span : Span}
    (counted : Counted p (.expr ⟨.parameter (some name) number, span⟩) q) : number = 0 := by
  obtain ⟨counts, -, -⟩ := counted
  cases counts with
  | named => rfl
  | other plain => cases plain

/-- A model that was parsed was counted from zero on, unless it is a script without statements. -/
theorem Dialect.counted {d : Dialect} {kind : ModelKind} {text : String} {m : Model}
    (parsed : d.parse kind text = .ok m) :
    (∃ q, Counted 0 m.node q) ∨ ∃ span, m = .script ⟨[], span⟩ := by
  obtain ⟨tokens, stop, lexes⟩ := lexes_exists d.lexical (.ofText text.toList)
  obtain ⟨after, read⟩ := d.read_of_parse parsed lexes
  have enters : Always d.features tokens maxNesting (SqlRule.entry d.features kind).attempt
      (Entered d.features tokens maxNesting) :=
    always_orElse steady_entered (entry_enters kind) fun m => always_fail (.mismatch m)
  have moves := (enters _ lexes.along).mono fun _ _ entered => entered.imp fun _ found => found.1
  obtain ⟨mid, tried, -⟩ := Rule.yields_reporting (complete_ends lexes.along moves) m after read
  obtain ⟨used, -, row | empty⟩ := enters _ lexes.along m mid tried
  · exact .inl ⟨_, countedAll_singleton.mp row.counted⟩
  · exact .inr empty

/-- The placeholders of a model, by the start of their spans, have the numbers from one on without
a gap or a repetition, and the named ones have zero. -/
structure Model.Numbered (m : Model) : Prop where
  positional : ∃ marks : List Placeholder, marks.Perm m.node.placeholders ∧ Consecutive 0 marks
  named : ∀ name number span,
    Node.expr ⟨.parameter (some name) number, span⟩ ∈ m.node.nodes → number = 0

/-- Whatever alternatives a parse has tried and given up, the placeholders of its model are numbered
in the order of the text. -/
theorem Dialect.parse_numbers {d : Dialect} {kind : ModelKind} {text : String} {m : Model}
    (parsed : d.parse kind text = .ok m) : m.Numbered := by
  rcases d.counted parsed with ⟨q, counted⟩ | ⟨span, rfl⟩
  · obtain ⟨marks, perm, consecutive, -, -⟩ := counted.placeholders
    refine ⟨⟨marks, perm, consecutive⟩, fun name number span mem => ?_⟩
    obtain ⟨p, q, named⟩ := counted.within (Node.mem_nodes_iff.mp mem)
    exact named.number_of_named
  · have alone (n : Node) (mem : n ∈ (Model.script ⟨[], span⟩).node.nodes) : n = .script ⟨[], span⟩ :=
      (Node.mem_nodes_iff.mp mem).eq_root rfl
    refine ⟨⟨[], ?_, ⟨.nil, rfl⟩⟩, fun name number span mem => by cases alone _ mem⟩
    rw [Node.placeholders_eq]
    exact .refl []

/-- The model of a query whose limit has the offset in front of the count. -/
def paged : Model :=
  let named : Expr := ⟨.parameter (some "a") 0, ⟨⟨7, 1, 8⟩, ⟨9, 1, 10⟩⟩⟩
  let offset : Expr := ⟨.parameter none 1, ⟨⟨16, 1, 17⟩, ⟨17, 1, 18⟩⟩⟩
  let count : Expr := ⟨.parameter none 2, ⟨⟨19, 1, 20⟩, ⟨20, 1, 21⟩⟩⟩
  .select ⟨false, [⟨named, none, named.span⟩], [], none, [], none, [],
    some ⟨some count, some offset, ⟨⟨10, 1, 11⟩, ⟨20, 1, 21⟩⟩⟩, ⟨⟨0, 1, 1⟩, ⟨20, 1, 21⟩⟩⟩

theorem Dialect.sqlite_parse_paged :
    Dialect.sqlite.parse .select "SELECT :a LIMIT ?, ?" = .ok paged := by
  rfl

theorem Dialect.sqlite_paged_numbers :
    Dialect.sqlite.parse .select "SELECT :a LIMIT ?, ?" = .ok paged ∧
      paged.node.placeholders.map (·.number) = [2, 1] ∧ paged.Numbered :=
  ⟨Dialect.sqlite_parse_paged, by decide +kernel, Dialect.parse_numbers Dialect.sqlite_parse_paged⟩

end SqlTree
