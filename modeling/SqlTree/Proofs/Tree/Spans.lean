import SqlTree.Proofs.Tree.Models

namespace SqlTree

/-- Two spans share no character. -/
def Span.Apart (a b : Span) : Prop := a.Before b ∨ b.Before a

theorem Span.Apart.symm {a b : Span} (apart : a.Apart b) : b.Apart a := Or.symm apart

namespace Node

/-- The expressions that a node stands for among the parts of an expression. -/
def subexpressions : Node → List Expr
  | expr e => [e]
  | whenClause w => [w.condition, w.result]
  | _ => []

end Node

/-- A node lies on tokens of the text, and its parts lie inside it, apart from each other and in
the order in which it holds them. -/
structure Placed (tokens : List Token) (n : Node) : Prop where
  order : n.span.start.offset < n.span.stop.offset
  start : ∃ t ∈ tokens, n.span.start = t.span.start
  stop : ∃ t ∈ tokens, n.span.stop = t.span.stop
  inside : ∀ p ∈ n.parts, n.span.contains p.span
  apart : n.parts.Pairwise fun a b => a.span.Apart b.span
  ordered : ∀ field ∈ n.fields, field.Pairwise fun a b => a.span.Before b.span
  inOrder : n.mixesParts = false → n.parts.Pairwise fun a b => a.span.Before b.span

section

variable {f : Features} {page : Page}

/-- The span of some tokens ends with one of them. -/
theorem spanOf_stop_mem (t : Token) (rest : List Token) :
    ∃ last ∈ t :: rest, (spanOf (t :: rest)).stop = last.span.stop := by
  induction rest generalizing t with
  | nil => exact ⟨t, List.mem_cons_self, rfl⟩
  | cons u rest ih =>
    obtain ⟨last, mem, stop⟩ := ih u
    exact ⟨last, List.mem_cons_of_mem _ mem, stop⟩

/-- Each node of a row covers a stretch of its tokens. -/
theorem Laid.covers_of_mem {used : List Token} {n : Node} {nodes : List Node}
    (laid : Laid f page used nodes) (mem : n ∈ nodes) :
    ∃ before own after, used = before ++ own ++ after ∧ Covers f page own n := by
  induction nodes generalizing used with
  | nil => cases mem
  | cons first nodes ih =>
    obtain ⟨skipped, own, rest, rfl, covers, laid⟩ := laid.uncons
    rcases List.mem_cons.mp mem with rfl | mem
    · exact ⟨skipped, own, rest, by rw [List.append_assoc], covers⟩
    · obtain ⟨before, inner, after, rfl, covers'⟩ := ih laid mem
      exact ⟨skipped ++ own ++ before, inner, after, by simp, covers'⟩

/-- Each node within a node covers a stretch of its tokens. -/
theorem Covers.within {used : List Token} {root n : Node} (covers : Covers f page used root)
    (within : root.Within n) :
    ∃ before own after, used = before ++ own ++ after ∧ Covers f page own n := by
  induction within with
  | root => exact ⟨[], used, [], by simp, covers⟩
  | part _ mem ih =>
    obtain ⟨before, own, after, split, inner⟩ := ih
    cases inner with
    | intro _ _ _ arranged laid =>
      have mem := arranged.perm.mem_iff.mpr mem
      obtain ⟨before', own', after', rfl, inner⟩ := laid.covers_of_mem mem
      exact ⟨before ++ before', own', after' ++ after, by simp [split], inner⟩

/-- A node that covers tokens lies on them, with its parts inside it and apart from each other. -/
theorem Covers.placed {before used after : List Token} {n : Node}
    (covers : Covers f page used n) (ordered : Ordered 0 (before ++ used ++ after)) :
    Placed (before ++ used ++ after) n := by
  obtain ⟨t, rest, rfl⟩ := List.exists_cons_of_ne_nil covers.ne_nil
  rw [List.append_assoc] at ordered
  have whole : Ordered Position.start.offset (before ++ (t :: rest ++ after)) := ordered
  cases covers with
  | intro some span _ arranged laid =>
    obtain ⟨-, size, inside, pairwise⟩ :=
      (Fits.mk some span arranged laid).inOrder whole.split.2.split.1
    have apart : n.parts.Pairwise fun a b => a.span.Apart b.span :=
      (arranged.perm.pairwise_iff Span.Apart.symm).mp (pairwise.imp .inl)
    refine
      { order := size
        start := ⟨t, by simp, by rw [span]; rfl⟩
        stop := ?_
        inside := fun p mem => inside p (arranged.perm.mem_iff.mpr mem)
        apart := apart
        ordered := fun field mem => pairwise.sublist (arranged.kept field mem)
        inOrder := fun same => by rw [← arranged.same same]; exact pairwise }
    obtain ⟨last, mem, stop⟩ := spanOf_stop_mem t rest
    refine ⟨last, ?_, by rw [span, stop]⟩
    exact List.mem_append_left _ (List.mem_append_right _ mem)

end

/-- The children of an expression are the expressions that its parts stand for. -/
theorem Expr.children_eq (e : Expr) :
    e.children = (Node.expr e).parts.flatMap Node.subexpressions := by
  have exprs (es : List Expr) : (es.map Node.expr).flatMap Node.subexpressions = es := by
    induction es with
    | nil => rfl
    | cons e es ih => simpa [Node.subexpressions] using ih
  have clauses (ws : List WhenClause) : (ws.map Node.whenClause).flatMap Node.subexpressions =
      ws.flatMap fun w => [w.condition, w.result] := by
    rw [List.flatMap_map]
    rfl
  rcases e with ⟨kind, span⟩
  cases kind with
  | column owner name => cases owner <;> rfl
  | wildcard owner => cases owner <;> rfl
  | call function =>
    simp [children, ExprKind.children, Node.parts, Node.fields, Node.fieldsOfExpr,
      Node.subexpressions, exprs]
  | inList e list negated =>
    cases list with
    | values values =>
      simp [children, ExprKind.children, Node.parts, Node.fields, Node.fieldsOfExpr,
        Node.subexpressions, exprs]
    | subquery query => rfl
  | caseWhen operand whenClauses elseClause =>
    simp [children, ExprKind.children, Node.parts, Node.fields, Node.fieldsOfExpr, exprs, clauses]
  | _ => rfl

/-- The children of an expression are its parts, and those of the clauses of a case. -/
theorem Expr.mem_children_iff (e c : Expr) : c ∈ e.children ↔ .expr c ∈ (Node.expr e).parts ∨
    ∃ w, .whenClause w ∈ (Node.expr e).parts ∧ .expr c ∈ (Node.whenClause w).parts := by
  rw [children_eq, List.mem_flatMap]
  constructor
  · rintro ⟨p, mem, sub⟩
    cases p with
    | expr e =>
      obtain rfl : c = e := by simpa [Node.subexpressions] using sub
      exact .inl mem
    | whenClause w =>
      exact .inr ⟨w, mem, by simpa [Node.subexpressions, Node.parts, Node.fields] using sub⟩
    | _ => simp [Node.subexpressions] at sub
  · rintro (mem | ⟨w, mem, sub⟩)
    · exact ⟨_, mem, by simp [Node.subexpressions]⟩
    · exact ⟨_, mem, by simpa [Node.subexpressions, Node.parts, Node.fields] using sub⟩

theorem Span.contains_iff {a b : Span} :
    a.contains b = true ↔ a.start.offset ≤ b.start.offset ∧ b.stop.offset ≤ a.stop.offset := by
  simp [contains]

/-- What a part stands for lies inside the part, in the order of the text. -/
theorem Node.subexpressions_placed {tokens : List Token} {p : Node}
    (placed : Placed tokens p) :
    (∀ c ∈ p.subexpressions, p.span.contains c.span) ∧
      p.subexpressions.Pairwise fun a b => a.span.Before b.span := by
  cases p with
  | expr e =>
    refine ⟨fun c mem => ?_, List.pairwise_singleton _ _⟩
    obtain rfl : c = e := by simpa [subexpressions] using mem
    exact Span.contains_iff.mpr ⟨Nat.le_refl _, Nat.le_refl _⟩
  | whenClause w =>
    have pairwise := placed.inOrder rfl
    refine ⟨fun c mem => placed.inside (.expr c) ?_, ?_⟩
    · simpa [subexpressions, parts, fields] using mem
    · simpa [subexpressions, parts, fields, span] using pairwise
  | _ => exact ⟨by simp [subexpressions], .nil⟩

/-- The children of an expression that was read follow each other in its text. -/
theorem Expr.children_pairwise {tokens : List Token} {e : Expr} (placed : Placed tokens (.expr e))
    (parts : ∀ p ∈ (Node.expr e).parts, Placed tokens p) :
    e.children.Pairwise fun a b => a.span.Before b.span := by
  rw [e.children_eq, List.pairwise_flatMap]
  refine ⟨fun p mem => (Node.subexpressions_placed (parts p mem)).2, ?_⟩
  have pairwise := placed.inOrder rfl
  refine pairwise.imp_of_mem fun {p q} memP memQ before a memA b memB => ?_
  have insideP := Span.contains_iff.mp ((Node.subexpressions_placed (parts p memP)).1 a memA)
  have insideQ := Span.contains_iff.mp ((Node.subexpressions_placed (parts q memQ)).1 b memB)
  unfold Span.Before at before ⊢
  omega

/-- Every node of a model covers a stretch of the tokens of the text, a script without statements
apart. -/
theorem ParsedOver.covers {d : Dialect} {text : String} {m : Model} {tokens : List Token} {eof : Token}
    {n : Node} (parsed : ParsedOver d text m tokens eof) (within : m.node.Within n)
    (filled : ∀ span, n ≠ .script ⟨[], span⟩) :
    ∃ before own after, tokens = before ++ own ++ after ∧
      Covers d.features ⟨text.toList, tokens, .ok eof, maxNesting⟩ own n := by
  obtain ⟨used, rest, split, -, laid | ⟨span, rfl⟩⟩ := parsed.laid
  · obtain ⟨before, own, after, rfl, covers⟩ := laid.covers_of_mem List.mem_cons_self
    obtain ⟨before', own', after', rfl, covers'⟩ := covers.within within
    exact ⟨before ++ before', own', after' ++ after ++ rest, by simp [split], covers'⟩
  · exact absurd (within.eq_root rfl) (filled span)

/-- The nodes of a model lie on tokens, inside each other and apart from each other; only a script
without statements may lie nowhere. The children of an expression are its direct subexpressions,
one behind the other. -/
structure Model.PlacedOn (tokens : List Token) (m : Model) : Prop where
  placed : ∀ n, m.node.Within n → (∀ s, n = .script s → s.statements ≠ []) → Placed tokens n
  increasing : ∀ e, m.node.Within (.expr e) → e.children.Pairwise fun a b =>
    a.span.start.offset < b.span.start.offset ∧ a.span.Before b.span
  direct : ∀ e, m.node.Within (.expr e) → ∀ c, c ∈ e.children ↔ .expr c ∈ (Node.expr e).parts ∨
    ∃ w, .whenClause w ∈ (Node.expr e).parts ∧ .expr c ∈ (Node.whenClause w).parts

/-- Every model that a text is parsed as lies on the tokens of the text. -/
theorem Dialect.parse_placed {d : Dialect} {kind : ModelKind} {text : String} {m : Model}
    (parsed : d.parse kind text = .ok m) :
    ∃ tokens eof, tokenize d.lexical text = .ok (tokens ++ [eof]) ∧ m.PlacedOn tokens := by
  obtain ⟨tokens, eof, tokenized, ordered, used, rest, split, -, laid⟩ := d.parsedOver parsed
  refine ⟨tokens, eof, tokenized, ?_⟩
  rcases laid with laid | ⟨span, rfl⟩
  · have placed {n : Node} (within : m.node.Within n) : Placed tokens n := by
      obtain ⟨before, own, after, rfl, covers⟩ := laid.covers_of_mem List.mem_cons_self
      obtain ⟨before', own', after', rfl, covers'⟩ := covers.within within
      have whole : tokens = (before ++ before') ++ own' ++ (after' ++ after ++ rest) := by
        simp [split]
      rw [whole] at ordered ⊢
      exact covers'.placed ordered
    refine ⟨fun n within _ => placed within, fun e within => ?_, fun e _ => e.mem_children_iff⟩
    have pairwise := e.children_pairwise (placed within) fun p mem => placed (within.part mem)
    refine pairwise.imp_of_mem fun {a b} memA _ before => ⟨?_, before⟩
    have withinA : m.node.Within (.expr a) := by
      rcases (e.mem_children_iff a).mp memA with mem | ⟨w, memW, mem⟩
      · exact within.part mem
      · exact (within.part memW).part mem
    exact Nat.lt_of_lt_of_le (placed withinA).order before
  · have alone {n : Node} (within : (Model.script ⟨[], span⟩).node.Within n) := within.eq_root rfl
    refine ⟨fun n within filled => absurd rfl (filled _ (alone within)), fun e within => ?_,
      fun e _ => e.mem_children_iff⟩
    cases alone within

theorem Dialect.sqlite_product_placed : Dialect.sqlite.parse .expression "-a*2" = .ok product ∧
    ∃ tokens eof, tokenize Dialect.sqlite.lexical "-a*2" = .ok (tokens ++ [eof]) ∧
      product.PlacedOn tokens :=
  ⟨Dialect.sqlite_parse_product, Dialect.parse_placed Dialect.sqlite_parse_product⟩

end SqlTree
