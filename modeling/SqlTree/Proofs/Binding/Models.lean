import SqlTree.Proofs.Binding.Powers

namespace SqlTree

open Rule SqlRule

/-- A node respects the powers of the operators in it: none stands behind an operand that binds its
right side more weakly, and no operand holds one on its left edge that is weaker than the power
that it was read with. -/
structure Node.Binds (tokens : List Token) (n : Node) : Prop where
  closed : ∀ e op left, n = .expr e → e.infix? = some (op, left) → left.ClosedBefore tokens op
  opened : ∀ operand power, (operand, power) ∈ n.operands → operand.OpenFrom power

section

variable {f : Features} {tokens used : List Token} {limit power : Nat} {s : Tape}

/-- An expression that was read behind its first operand respects the powers of the operators in it. -/
theorem Chain.node_binds {e : Expr} {after : Tape} (along : s.Along tokens)
    (chain : Chain f (sqlLevels f limit) power s e after) : (Node.expr e).Binds tokens := by
  have bound := boundCalls f tokens limit
  cases chain with
  | first read =>
    have binds := prefixed_binds bound along _ _ read
    refine ⟨?_, fun operand power mem => binds.operands _ mem⟩
    rintro _ op left ⟨⟩ found
    rw [binds.left] at found
    cases found
  | next chain ahead enough read peek =>
    obtain ⟨used, moves, -⟩ := (chain.reached along).covers
    have binds := infixed_binds bound _ (along.moves moves) ahead _ _ read
    have closed := (chain.binds bound along).1
    refine ⟨?_, fun operand power mem => (binds _).operands _ mem⟩
    rintro _ op left ⟨⟩ found
    obtain ⟨rfl, rfl⟩ := (binds _).only op left found
    exact closed _ (Tape.operator?_eq ahead).1

/-- Every expression of a text respects the powers of the operators in it. -/
theorem ExprOrigin.node_binds {page : Page} {e : Expr} (origin : ExprOrigin f page used e) :
    (Node.expr e).Binds page.tokens := by
  cases origin with
  | chain _ on _ chain => exact chain.node_binds on.along
  | word => exact ⟨by rintro _ _ _ ⟨⟩ ⟨⟩, fun _ _ mem => by cases mem⟩

/-- What a rule reads as the kind of a constraint binds like an operand if it is a default. -/
abbrev BindsDefault (f : Features) (tokens : List Token) (limit : Nat)
    (rule : SqlRule ColumnConstraintKind) : Prop :=
  Always f tokens limit rule fun _ kind _ => ∀ value, kind = .default value → value.OpenFrom signPower

theorem defaultValue_binds : BindsDefault f tokens limit defaultValue := by
  intro s along
  simp only [defaultValue, yields_bind, yields_pure]
  refine (Lays.refl (f := f) limit along).expectKeyword fun _ s row => ?_
  refine row.operand (boundCalls f tokens limit) fun value _ _ _ bound => ?_
  rintro _ ⟨⟩
  exact bound.opened

theorem primaryKey_binds : BindsDefault f tokens limit primaryKey := by
  intro s _
  refine yields_then fun _ _ => yields_then fun _ _ => yields_then fun _ _ => ?_
  rw [yields_ite]
  split
  · exact (yields_pure _).mpr (by rintro _ ⟨⟩)
  · refine yields_then fun _ _ => ?_
    rw [yields_ite]
    split <;> exact (yields_pure _).mpr (by rintro _ ⟨⟩)

/-- The default of a column binds like an operand, whatever other constraints there are. -/
theorem columnConstraintKind_binds : BindsDefault f tokens limit columnConstraintKind := by
  refine always_choice (fun _ _ _ _ _ _ _ holds => holds) ?_
  simp only [List.forall_mem_cons, List.not_mem_nil, false_implies, implies_true, and_true]
  refine ⟨?_, ?_, primaryKey_binds, ?_, defaultValue_binds, ?_, ?_⟩
  · exact fun s _ => yields_then fun _ _ => yields_then fun _ _ =>
      (yields_pure _).mpr (by rintro _ ⟨⟩)
  · exact fun s _ => yields_then fun _ _ => (yields_pure _).mpr (by rintro _ ⟨⟩)
  · exact fun s _ => yields_then fun _ _ => (yields_pure _).mpr (by rintro _ ⟨⟩)
  · exact fun s _ => yields_then fun _ _ => yields_then fun _ _ =>
      (yields_pure _).mpr (by rintro _ ⟨⟩)
  · exact fun s _ => yields_then fun _ _ => (yields_pure _).mpr (by rintro _ ⟨⟩)

theorem namedColumnConstraint_binds {rule : SqlRule ColumnConstraintKind}
    (binds : BindsDefault f tokens limit rule) :
    Always f tokens limit (namedColumnConstraint rule) fun _ c _ =>
      (Node.columnConstraint c).Binds tokens := by
  intro s along
  simp only [namedColumnConstraint, yields_bind, yields_start, yields_spanFrom, yields_pure]
  intro first peek
  refine (Lays.refl (f := f) limit along).part constraintName?_reads fun name s used _ row => ?_
  refine (binds s row.along).mono fun kind after opened => ⟨by rintro _ _ _ ⟨⟩, ?_⟩
  cases kind with
  | default value =>
    intro operand power mem
    obtain ⟨rfl, rfl⟩ := Prod.mk.inj (List.mem_singleton.mp mem)
    exact opened _ rfl
  | _ => exact fun _ _ mem => by cases mem

theorem columnConstraint_binds : Always f tokens limit (columnConstraint f) fun _ c _ =>
    (Node.columnConstraint c).Binds tokens := by
  unfold columnConstraint
  split
  · refine namedColumnConstraint_binds (always_choice (fun _ _ _ _ _ _ _ holds => holds) ?_)
    simp only [List.forall_mem_cons, List.not_mem_nil, false_implies, implies_true, and_true]
    refine ⟨columnConstraintKind_binds, fun s _ => yields_then fun _ _ => ?_⟩
    exact (yields_pure _).mpr (by rintro _ ⟨⟩)
  · exact namedColumnConstraint_binds columnConstraintKind_binds

/-- The value of a pragma is an operand. -/
theorem pragmaValue_opened : Always f tokens limit pragmaValue fun _ value _ =>
    value.OpenFrom signPower := by
  refine always_choice (fun _ _ _ _ _ _ _ holds => holds) ?_
  simp only [List.forall_mem_cons, List.not_mem_nil, false_implies, implies_true, and_true]
  refine ⟨fun s along => ?_, fun s _ => yields_then fun t _ => ?_⟩
  · exact (boundCalls f tokens limit signPower s along).mono fun _ _ bound => bound.opened
  · rw [yields_ite]
    split
    · exact yields_then fun _ _ => (yields_pure _).mpr (Expr.openFrom_of_none rfl)
    · exact (yields_failAny _).mpr trivial

theorem pragmaStatement_binds : Always f tokens limit pragmaStatement fun _ p _ =>
    (Node.pragma p).Binds tokens := by
  have binds {name : ObjectName} {value : Expr} {span : Span} (opened : value.OpenFrom signPower) :
      (Node.pragma ⟨name, some value, span⟩).Binds tokens := by
    refine ⟨by rintro _ _ _ ⟨⟩, fun operand power mem => ?_⟩
    obtain ⟨rfl, rfl⟩ := Prod.mk.inj (List.mem_singleton.mp mem)
    exact opened
  intro s along
  simp only [pragmaStatement, yields_bind, yields_start, yields_ite, yields_spanFrom, yields_pure]
  intro first peek
  refine (Lays.refl (f := f) limit along).expectKeyword fun _ s row => ?_
  refine row.part objectName_reads fun name s used _ row => ?_
  refine row.eat rfl (fun _ s row => ?_) (row.eat rfl (fun _ s row => ?_) ?_)
  · exact (pragmaValue_opened s row.along).mono fun value _ opened => binds opened
  · refine (pragmaValue_opened s row.along).mono fun value _ opened => ?_
    exact yields_of_forall fun _ _ => binds opened
  · exact ⟨by rintro _ _ _ ⟨⟩, fun _ _ mem => by cases mem⟩

/-- Every node of a text respects the powers of the operators in it. -/
theorem Covers.binds {page : Page} {n : Node} (covers : Covers f page used n) : n.Binds page.tokens := by
  cases covers with
  | intro _ _ origin _ _ =>
    cases n with
    | expr e => exact ExprOrigin.node_binds origin
    | columnConstraint c =>
      obtain ⟨limit, s, after, along, -, read⟩ := origin
      exact columnConstraint_binds s along c after read
    | pragma p =>
      obtain ⟨limit, s, after, along, -, read⟩ := origin
      exact pragmaStatement_binds s along p after read
    | _ => exact ⟨by rintro _ _ _ ⟨⟩, fun _ _ mem => by cases mem⟩

end

/-- In every model that a text is parsed as, no operator stands behind an operand whose right edge
binds as weakly as the operator or more weakly, and no operand that is read with a power has an
operator on its left edge that binds more weakly. -/
theorem Dialect.parse_binds {d : Dialect} {kind : ModelKind} {text : String} {m : Model}
    (parsed : d.parse kind text = .ok m) :
    ∃ tokens eof, tokenize d.lexical text = .ok (tokens ++ [eof]) ∧
      ∀ n, m.node.Within n → n.Binds tokens := by
  obtain ⟨tokens, eof, tokenized, -, used, rest, -, -, laid⟩ := d.parsedOver parsed
  refine ⟨tokens, eof, tokenized, fun n within => ?_⟩
  rcases laid with laid | ⟨span, rfl⟩
  · obtain ⟨_, _, _, -, covers⟩ := laid.covers_of_mem List.mem_cons_self
    obtain ⟨_, _, _, -, covers⟩ := covers.within within
    exact covers.binds
  · obtain rfl := within.eq_root rfl
    exact ⟨by rintro _ _ _ ⟨⟩, fun _ _ mem => by cases mem⟩

theorem Dialect.sqlite_product_binds : Dialect.sqlite.parse .expression "-a*2" = .ok product ∧
    ∃ tokens eof, tokenize Dialect.sqlite.lexical "-a*2" = .ok (tokens ++ [eof]) ∧
      ∀ n, product.node.Within n → n.Binds tokens :=
  ⟨Dialect.sqlite_parse_product, Dialect.parse_binds Dialect.sqlite_parse_product⟩

end SqlTree
