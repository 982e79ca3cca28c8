import SqlTree.Proofs.Binding.Edges

namespace SqlTree

namespace Node

/-- What a node adds to the height of a tree: expressions, tables and queries nest in one another. -/
def weight : Node → Nat
  | expr _ | table _ | select _ => 1
  | _ => 0

/-- What an operator or a join stands behind. -/
def left? : Node → Option Node
  | expr e => e.infix?.map fun (_, left) => expr left
  | table (.join left _ _) => some (table left)
  | _ => none

/-- A way down from a node to one that is inside it, with the weight of the nodes on it, both ends
included. What is free to a node that holds it adds nothing. -/
inductive Descent (free : Node → Option Node) (root : Node) : Node → Nat → Prop
  | root : Descent free root root root.weight
  | free {n p k} : Descent free root n k → free n = some p → Descent free root p k
  | part {n p k} : Descent free root n k → p ∈ n.parts → free n ≠ some p →
      Descent free root p (k + p.weight)

/-- Every way down is at most that long, where what stands to the left of an operator or a join
is free. -/
def Shallow (height : Nat) (n : Node) : Prop := ∀ p k, n.Descent left? p k → k ≤ height

section

variable {free : Node → Option Node} {root n p q : Node} {b c k : Nat}

/-- A way down ends where it starts, or goes on from a node that the first one holds. -/
theorem Descent.uncons (descent : root.Descent free p k) : p = root ∧ k = root.weight ∨
    (∃ q j, free root = some q ∧ q.Descent free p j ∧ k + q.weight = root.weight + j) ∨
      ∃ q j, q ∈ root.parts ∧ free root ≠ some q ∧ q.Descent free p j ∧ k = root.weight + j := by
  induction descent with
  | root => exact .inl ⟨rfl, rfl⟩
  | @free n p k _ found ih =>
    rcases ih with ⟨rfl, rfl⟩ | ⟨q, j, first, rest, size⟩ | ⟨q, j, mem, counts, rest, size⟩
    · exact .inr (.inl ⟨p, _, found, .root, rfl⟩)
    · exact .inr (.inl ⟨q, j, first, rest.free found, size⟩)
    · exact .inr (.inr ⟨q, j, mem, counts, rest.free found, size⟩)
  | @part n p k _ inside counted ih =>
    rcases ih with ⟨rfl, rfl⟩ | ⟨q, j, first, rest, size⟩ | ⟨q, j, mem, counts, rest, size⟩
    · exact .inr (.inr ⟨p, _, inside, counted, .root, rfl⟩)
    · exact .inr (.inl ⟨q, _, first, rest.part inside counted, by omega⟩)
    · exact .inr (.inr ⟨q, _, mem, counts, rest.part inside counted, by omega⟩)

/-- A way down from a node that another one holds. -/
theorem Descent.cons (descent : q.Descent free p k) (mem : q ∈ root.parts) (counts : free root ≠ some q) :
    root.Descent free p (root.weight + k) := by
  induction descent with
  | root => exact .part .root mem counts
  | free _ found ih => exact ih.free found
  | part _ inside counted ih =>
    rw [← Nat.add_assoc]
    exact ih.part inside counted

/-- A way down from a node that is free to the one that holds it. -/
theorem Descent.ahead (descent : q.Descent free p k) (found : free root = some q) :
    ∃ j, root.Descent free p j ∧ j + q.weight = root.weight + k := by
  induction descent with
  | root => exact ⟨_, .free .root found, rfl⟩
  | free _ next ih =>
    obtain ⟨j, longer, size⟩ := ih
    exact ⟨j, longer.free next, size⟩
  | part _ inside counted ih =>
    obtain ⟨j, longer, size⟩ := ih
    exact ⟨_, longer.part inside counted, by omega⟩

/-- What stands to the left is as heavy as the node that holds it. -/
theorem weight_of_left? (left : n.left? = some q) : q.weight = n.weight := by
  cases n with
  | expr e =>
    obtain ⟨_, -, rfl⟩ := Option.map_eq_some_iff.mp left
    rfl
  | table t =>
    cases t with
    | join => cases left; rfl
    | _ => cases left
  | _ => cases left

/-- What stands to the left of an operator or a join is one of its parts. -/
theorem mem_parts_of_left? (left : n.left? = some q) : q ∈ n.parts := by
  cases n with
  | expr e =>
    obtain ⟨⟨op, operand⟩, found, rfl⟩ := Option.map_eq_some_iff.mp left
    obtain ⟨kind, span⟩ := e
    cases kind with
    | binary | isNull | between | like =>
      cases found
      simp [parts, fields, fieldsOfExpr]
    | inList _ list =>
      cases found
      cases list <;> simp [parts, fields, fieldsOfExpr]
    | cast =>
      simp only [Expr.infix?, Option.ite_none_right_eq_some, Option.some.injEq, Prod.mk.injEq] at found
      simp [parts, fields, fieldsOfExpr, found]
    | _ => cases found
  | table t =>
    cases t with
    | join => cases left; simp [parts, fields, fieldsOfTable]
    | _ => cases left
  | _ => cases left

/-- What a node holds is no higher than the node. -/
theorem Shallow.part (shallow : n.Shallow b) (mem : q ∈ n.parts) : q.Shallow b := by
  intro p k descent
  by_cases left : n.left? = some q
  · obtain ⟨j, longer, size⟩ := descent.ahead left
    have := shallow p j longer
    have := weight_of_left? left
    omega
  · exact Nat.le_trans (Nat.le_add_left _ _) (shallow p _ (descent.cons mem left))

theorem Shallow.mono (shallow : n.Shallow b) (le : b ≤ c) : n.Shallow c :=
  fun p k descent => Nat.le_trans (shallow p k descent) le

/-- A node whose parts are shallow is higher than these by what it adds. -/
theorem Shallow.around (parts : ∀ p ∈ n.parts, p.Shallow b) : n.Shallow (b + n.weight) := by
  intro p k descent
  rcases descent.uncons with ⟨rfl, rfl⟩ | ⟨q, j, left, rest, size⟩ | ⟨q, j, mem, -, rest, rfl⟩
  · exact Nat.le_add_left _ _
  · have := parts q (mem_parts_of_left? left) p j rest
    have := weight_of_left? left
    omega
  · have := parts q mem p j rest
    omega

/-- A node is no higher for what stands to its left than this is. -/
theorem Shallow.behind (left : n.left? = some q) (shallow : q.Shallow b)
    (parts : ∀ p ∈ n.parts, n.left? ≠ some p → p.Shallow c) (le : c + n.weight ≤ b) : n.Shallow b := by
  intro p k descent
  rcases descent.uncons with ⟨rfl, rfl⟩ | ⟨q', j, left', rest, size⟩ | ⟨q', j, mem, counts, rest, rfl⟩
  · omega
  · obtain rfl := Option.some.inj (left.symm.trans left')
    have := shallow p j rest
    have := weight_of_left? left
    omega
  · have := parts q' mem counts p j rest
    omega

/-- A node that adds nothing is as high as its parts. -/
theorem Shallow.light (light : n.weight = 0) (parts : ∀ p ∈ n.parts, p.Shallow b) : n.Shallow b := by
  have around := Shallow.around parts
  rwa [light] at around

@[simp] theorem shallow_ident (i : Ident) : (ident i).Shallow b :=
  .light rfl (by simp [parts, fields])

@[simp] theorem shallow_objectName (name : ObjectName) : (objectName name).Shallow b :=
  .light rfl (by simp [parts, fields, or_imp, forall_and])

end

end Node

end SqlTree
