import SqlTree.Proofs.Diverging.Boundaries

namespace SqlTree

open Rule SqlRule

namespace Diverging

variable {f : Features} {q : Diverging f} {limit i : Nat} {known : Prop}

section

variable {α : Type} [Visible α] {need : Nat → Prop} {free : α → Nat → Prop}

/-- The next token is one of some words in both texts. -/
def Begins (q : Diverging f) (words : List Keyword) (i : Nat) : Prop :=
  q.Clean i ∧ ∃ k ∈ words, (q.left.tokenAt i).spells k = true

/-- A rule that waits for some words begins with one of them. -/
theorem Follows.awaiting {rule rule' : SqlRule α} {words : List Keyword}
    (follows : q.Follows limit known i rule rule' q.Clean free)
    (awaits : rule.Awaits (sqlLevels f limit) words) :
    q.Follows limit known i rule rule' (q.Begins words) free := by
  intro s here v after read
  obtain ⟨j, step⟩ := follows s here v after read
  obtain ⟨t, shown, word⟩ := awaits.gives s v after read
  obtain rfl : q.left.tokenAt i = t := Except.ok.inj (here.peek.symm.trans shown)
  exact ⟨j, step.le, step.place, step.lacks, fun holds all => ⟨step.need holds all, word⟩, step.right⟩

/-- Of alternatives that wait for different words, the same one fits in both texts. -/
theorem follows_alternatives (alternatives : List (SqlRule α × List Keyword))
    (plain : ∀ a ∈ alternatives, a.1.Plain)
    (each : ∀ a ∈ alternatives, q.Follows limit known i a.1 a.1 need free)
    (clean : need i → q.Clean i)
    (awaits : ∀ a ∈ alternatives, a.1.Awaits (sqlLevels f limit) a.2)
    (apart : (alternatives.map Prod.snd).Pairwise Apart) :
    q.Follows limit known i (choice (alternatives.map Prod.fst)) (choice (alternatives.map Prod.fst))
      need free := by
  refine follows_choice (List.forall_mem_map.mpr plain) (List.forall_mem_map.mpr each) ?_
  rw [List.pairwise_map] at apart ⊢
  refine apart.imp_of_mem fun {a b} mem mem' apart v j _ gets _ needs _ => ?_
  obtain ⟨s, after, here, read, -⟩ := gets
  obtain ⟨t, shown, k, word, spells⟩ := (awaits b mem').gives s v after read
  obtain rfl : q.left.tokenAt i = t := Except.ok.inj (here.peek.symm.trans shown)
  refine (awaits a mem).stops fun j word' => ?_
  rw [(clean needs).spells, Bool.eq_false_iff]
  intro spells'
  have other := apart.not_spells word' spells' k word
  rw [spells] at other
  cases other

end

/-- The clauses and sources of rows that a statement may end with. -/
theorem returningClause_follows (calls : q.CallsKeep limit) :
    q.Follows limit known i (returningClause f) (returningClause f) (q.Clear [.comma] queryWords)
      fun _ => q.Clear [.comma] queryWords := by
  unfold returningClause
  split
  · refine eatKeyword_ite (by decide) Clear.calm
      (fun spells clean => clear_of_spells spells clean (by decide) (by simp; rfl))
      (fun _ => (selectColumns_follows calls queryWords).freely) fun _ => ?_
    exact follows_value (fun _ _ => rfl) id
  · exact pure_bind (follows_value (fun _ _ => rfl) id)

theorem valuesSource_follows (calls : q.CallsKeep limit) :
    q.Follows limit known i valuesSource valuesSource q.Clean fun _ => q.Clear [.comma] queryWords := by
  have row (known : Prop) (i : Nat) : q.Follows limit known i (parenthesizedList SqlRule.expression)
      (parenthesizedList SqlRule.expression) q.Clean fun _ _ => True :=
    follows_parenthesizedList expression_blames.plain calls.any (fun _ _ _ => trivial) fun _ => id
  refine expectKeyword_bind (fun _ => id) fun _ _ _ => Follows.map ?_ fun _ _ => rfl
  exact (follows_commaSeparated (Blames.plain (by simp)) row (fun _ _ _ => trivial)
    (fun _ _ => trivial) fun _ => Clear.noComma).freely

theorem defaultValuesSource_follows : q.Follows limit known i defaultValuesSource defaultValuesSource
    q.Clean fun _ => q.Clear [.comma] queryWords := by
  refine expectKeyword_bind (fun _ => id) fun _ _ _ => ?_
  refine expectKeyword_bind (fun _ _ => trivial) fun _ _ _ => ?_
  exact follows_value (fun _ _ => rfl) fun _ => trivial

theorem querySource_follows (calls : q.CallsKeep limit) :
    q.Follows limit known i querySource querySource q.Clean fun _ => q.Clear [.comma] queryWords :=
  (calls.query known i).map fun _ _ => rfl

/-- The words that a source of rows begins with. -/
def sourceWords : List Keyword := [.VALUES, .DEFAULT, .SELECT]

/-- A source of rows begins with one of its words. -/
theorem insertSource_awaits : insertSource.Awaits (sqlLevels f (limit + 1)) sourceWords :=
  awaits_choice (sqlLevels_forward f (limit + 1)) sourceAlternatives_await

/-- A source of rows is the same if both texts have its word. -/
theorem insertSource_follows (calls : q.CallsKeep (limit + 1)) :
    q.Follows (limit + 1) known i insertSource insertSource
      (q.Begins sourceWords) fun _ => q.Clear [.comma] queryWords := by
  refine Follows.awaiting ?_ insertSource_awaits
  refine follows_alternatives sourceAlternatives ?_ ?_ id sourceAlternatives_await
    sourceAlternatives_apart
  · simp only [sourceAlternatives, List.forall_mem_cons, List.not_mem_nil, false_implies, implies_true,
      and_true]
    exact ⟨Blames.plain (by simp [valuesSource]), Blames.plain (by simp [defaultValuesSource]),
      Blames.plain (by simp [querySource])⟩
  · simp only [sourceAlternatives, List.forall_mem_cons, List.not_mem_nil, false_implies, implies_true,
      and_true]
    exact ⟨valuesSource_follows calls, defaultValuesSource_follows, querySource_follows calls⟩

/-- Names between parentheses that may be left out. -/
theorem names_follow {kinds : List TokenKind} (words : List Keyword) (mem : .leftParen ∈ kinds) :
    q.Follows limit known i (optional identifierList) (optional identifierList) q.Calm
      fun _ => q.Clear kinds words :=
  follows_optional identifierList_blames.plain
    (identifierList_follows.mono id Clean.calm fun _ _ _ => trivial) Clear.calm fun clear _ =>
      stops_of_refuses fun _ here => (expect_refuses here.peek (clear.kinds _ mem)).bind _

/-- What begins with a word begins with no mark. -/
theorem Begins.clear {words others : List Keyword} (begins : q.Begins words i) (apart : Apart words others)
    {kinds : List TokenKind} (plain : ∀ kind ∈ kinds, kind.isWord = false) : q.Clear kinds others i := by
  obtain ⟨clean, k, mem, spells⟩ := begins
  exact clear_of_spells spells clean (fun j mem' => by obtain rfl := List.mem_singleton.mp mem'; exact apart _ mem) plain

/-- A list that may be missing, seen through a lens. -/
theorem through_getD {α : Type} [Visible α] (lens : Lens) (o : Option (List α)) :
    Visible.through lens (o.getD []) = (Visible.through lens o).getD [] := by
  cases o <;> rfl

/-- A statement that inserts rows is the same in both texts if both end it there. -/
theorem insertStatement_follows (calls : q.CallsKeep (limit + 1)) :
    q.Follows (limit + 1) known i (insertStatement f) (insertStatement f) q.Clean
      fun _ => q.Clear [.comma] queryWords := by
  refine start_bind Clean.inside fun p p' opens => ?_
  refine expectKeyword_bind (fun _ => id) fun _ _ _ => ?_
  refine expectKeyword_bind (fun _ _ => trivial) fun _ _ _ => ?_
  refine (objectName_holds known _).freely.bind fun k table table' alike => ?_
  refine (names_follow [] (List.mem_singleton_self _)).freely.bind
    fun k columns columns' alike₂ => ?_
  refine ((insertSource_follows calls).mono id (Begins.clear · (by decide) (by simp; rfl)) fun _ _ => id).bind
    fun k source source' alike₃ => ?_
  refine (returningClause_follows calls).bind fun k returning returning' alike₄ =>
    spanFrom_bind opens fun _ _ _ => follows_pure ?_ ?_ id
  · simp +contextual [Lacks, through_getD]
  · simp_all [Quoted, through_getD]

theorem assignment_follows (calls : q.CallsKeep limit) :
    q.Follows limit known i assignment assignment q.Inside fun _ _ => True := by
  refine start_bind id fun p p' opens => ?_
  refine (identifier_holds known i).bind fun k column column' alike => ?_
  refine expect_bind rfl (fun _ _ => trivial) fun _ _ _ => ?_
  refine (calls.any _ _).freely.bind fun k value value' alike' => spanFrom_bind opens fun _ _ _ => ?_
  exact follows_pure (by simp +contextual [Lacks]) (by simp_all [Quoted]) fun _ => trivial

/-- A condition that may be left out. -/
theorem whereClause?_follows (calls : q.CallsKeep limit) : q.Follows limit known i whereClause? whereClause?
    (q.Clear [.comma] queryWords) fun _ => q.Clear [.comma] queryWords :=
  eatKeyword_ite (by decide) Clear.calm
    (fun spells clean => clear_of_spells spells clean (by decide) (by simp; rfl))
    (fun _ => (someExpression_holds calls).follows fun _ => trivial)
    fun _ => follows_value (fun _ _ => rfl) id

theorem updateStatement_follows (calls : q.CallsKeep limit) :
    q.Follows limit known i (updateStatement f) (updateStatement f) q.Clean
      fun _ => q.Clear [.comma] queryWords := by
  have assignments (known : Prop) (i : Nat) : q.Follows limit known i (commaSeparated assignment)
      (commaSeparated assignment) q.Inside fun _ => q.Clear [.comma] queryWords :=
    follows_commaSeparated (Blames.plain (by simp [assignment])) (fun _ _ => assignment_follows calls)
      (fun _ _ _ => trivial) (fun _ _ => trivial) fun _ => Clear.noComma
  refine start_bind Clean.inside fun p p' opens => ?_
  refine expectKeyword_bind (fun _ => id) fun _ _ _ => ?_
  refine (objectName_holds known _).freely.bind fun k table table' alike => ?_
  refine alias?_follows.freely.bind fun k name name' alike₂ => ?_
  refine expectKeyword_bind (fun _ => Clean.bare) fun _ _ _ => ?_
  refine (assignments _ _).freely.bind fun k assignments assignments' alike₃ => ?_
  refine (whereClause?_follows calls).bind fun k condition condition' alike₄ => ?_
  refine (returningClause_follows calls).bind fun k returning returning' alike₅ =>
    spanFrom_bind opens fun _ _ _ => follows_pure ?_ ?_ id
  · simp +contextual [Lacks]
  · simp_all [Quoted]

theorem deleteStatement_follows (calls : q.CallsKeep limit) :
    q.Follows limit known i (deleteStatement f) (deleteStatement f) q.Clean
      fun _ => q.Clear [.comma] queryWords := by
  refine start_bind Clean.inside fun p p' opens => ?_
  refine expectKeyword_bind (fun _ => id) fun _ _ _ => ?_
  refine expectKeyword_bind (fun _ _ => trivial) fun _ _ _ => ?_
  refine (objectName_holds known _).freely.bind fun k table table' alike => ?_
  refine alias?_follows.freely.bind fun k name name' alike₂ => ?_
  refine ((whereClause?_follows calls).mono id Clear.bare fun _ _ => id).bind
    fun k condition condition' alike₃ => ?_
  refine (returningClause_follows calls).bind fun k returning returning' alike₄ =>
    spanFrom_bind opens fun _ _ _ => follows_pure ?_ ?_ id
  · simp +contextual [Lacks]
  · simp_all [Quoted]

end Diverging

namespace Visible

instance : Visible TableElement where
  through lens
    | .column c => .column (through lens c)
    | .constraint c => .constraint (through lens c)
  through_through first second element := by
    cases element <;> simp only [through_through]

section

variable (lens : Lens)

@[simp] theorem through_columnElement (c : ColumnDef) :
    through lens (.column c : TableElement) = .column (through lens c) := rfl

@[simp] theorem through_constraintElement (c : TableConstraint) :
    through lens (.constraint c : TableElement) = .constraint (through lens c) := rfl

theorem through_columns (elements : List TableElement) :
    through lens (elements.filterMap (·.column?)) = (through lens elements).filterMap (·.column?) := by
  induction elements with
  | nil => rfl
  | cons element elements ih =>
    cases element with
    | column c => exact congrArg (through lens c :: ·) ih
    | constraint c => exact ih

theorem through_constraints (elements : List TableElement) :
    through lens (elements.filterMap (·.constraint?)) =
      (through lens elements).filterMap (·.constraint?) := by
  induction elements with
  | nil => rfl
  | cons element elements ih =>
    cases element with
    | column c => exact ih
    | constraint c => exact congrArg (through lens c :: ·) ih

end

end Visible

/-- Without quotes the first word of a type is a word as any other. -/
theorem Token.typeWord?_of_bare {t : Token} (bare : t.isQuoted = false) :
    t.typeWord? true = t.typeWord? false := by
  simp [Token.typeWord?, bare]

/-- The words that a constraint on a column begins with. -/
def constraintWords (f : Features) : List Keyword :=
  .CONSTRAINT :: columnAlternatives.flatMap Prod.snd ++ f.autoIncrement.toList

namespace Diverging

variable {f : Features} {q : Diverging f} {limit i : Nat} {known : Prop}

theorem referentialAction_follows :
    q.Follows limit known i referentialAction referentialAction q.Clean fun _ _ => True := by
  have value {known : Prop} {k : Nat} {action : ReferentialAction} {need : Nat → Prop} (enter : need k) :
      q.Follows limit known k (Pure.pure action : SqlRule ReferentialAction) (Pure.pure action) need
        fun _ _ => True := follows_value (fun _ _ => rfl) fun _ => enter
  refine eatKeyword_ite (by decide) Clean.calm (fun _ => id) (fun _ => value trivial) fun _ => ?_
  refine eatKeyword_ite (by decide) Clean.calm (fun _ => id) (fun _ => value trivial) fun _ => ?_
  refine eatKeyword_ite (by decide) Clean.calm (fun _ => id) (fun _ => ?_) fun _ => ?_
  · refine Follows.freely (?_ : q.Follows limit known (i + 1) _ _ q.Clean fun _ _ => True)
    refine eatKeyword_ite (by decide) Clean.calm (fun _ => id) (fun _ => value trivial) fun _ => ?_
    exact expectKeyword_bind (fun _ => id) fun _ _ _ => value trivial
  refine eatKeyword_ite (by decide) Clean.calm (fun _ => id) (fun _ => ?_) fun _ => follows_failAny _
  exact expectKeyword_bind (fun _ _ => trivial) fun _ _ _ => value trivial

/-- Actions of a foreign key, of which there may be more behind each. -/
theorem referentialActions_follows :
    q.Follows limit known i referentialActions referentialActions (q.Clear [.leftParen] [])
      fun _ => q.Clear [.leftParen] [] := by
  refine follows_loop (fun _ _ _ => rfl) rfl (fun known k actions actions' _ same => ?_) fun _ _ => id
  obtain ⟨onDelete, onUpdate⟩ := actions
  obtain ⟨onDelete', onUpdate'⟩ := actions'
  obtain ⟨rfl, rfl⟩ : onDelete = onDelete' ∧ onUpdate = onUpdate' := by simpa [Quoted] using same
  refine eatKeyword_ite (by decide) Clear.calm
    (fun spells clean => clear_of_spells spells clean (by decide) (by simp; rfl)) (fun _ => ?_)
    fun _ => follows_value (fun _ _ => rfl) id
  have action {known : Prop} {k : Nat} {g : ReferentialAction → Option ReferentialAction × Option ReferentialAction}
      (plain : ∀ a (lens : Lens), Visible.through lens (g a) = g a) : q.Follows limit known k
        (do return some (g (← referentialAction))) (do return some (g (← referentialAction))) (fun _ => True)
        fun next k => next.elim (q.Clear [.leftParen] [] k) fun _ => q.Clear [.leftParen] [] k := by
    refine referentialAction_follows.freely.bind fun k action _ same => ?_
    obtain rfl : action = _ := same
    exact follows_value (fun _ _ => by simp [plain]) fun _ => trivial
  refine Follows.freely (?_ : q.Follows limit known (k + 1) _ _ q.Clean _)
  refine eatKeyword_ite (by decide) Clean.calm (fun _ => id) (fun _ => action fun _ _ => by simp) fun _ => ?_
  exact eatKeyword_ite (by decide) Clean.calm (fun _ => id) (fun _ => action fun _ _ => by simp)
    fun _ => follows_failAny _

theorem foreignKey_follows :
    q.Follows limit known i foreignKey foreignKey q.Clean fun _ => q.Clear [.leftParen] [] := by
  refine start_bind Clean.inside fun p p' opens => ?_
  refine expectKeyword_bind (fun _ => id) fun _ _ _ => ?_
  refine (objectName_holds known _).freely.bind fun k table table' alike => ?_
  refine (names_follow [] (List.mem_singleton_self _)).freely.bind
    fun k columns columns' alike₂ => ?_
  refine referentialActions_follows.bind fun k actions actions' same => ?_
  obtain ⟨onDelete, onUpdate⟩ := actions
  obtain ⟨onDelete', onUpdate'⟩ := actions'
  obtain ⟨rfl, rfl⟩ : onDelete = onDelete' ∧ onUpdate = onUpdate' := by simpa [Quoted] using same
  refine spanFrom_bind opens fun _ _ _ => follows_pure ?_ ?_ id
  · simp +contextual [Lacks, through_getD]
  · simp_all [Quoted, through_getD]

theorem constraintName?_follows :
    q.Follows limit known i constraintName? constraintName? q.Clean fun _ => q.Clean :=
  eatKeyword_ite (by decide) Clean.calm (fun _ => id)
    (fun _ => someIdentifier_holds.follows fun _ => trivial) fun _ => follows_value (fun _ _ => rfl) id

theorem parenthesizedCondition_follows (calls : q.CallsKeep limit) :
    q.Follows limit known i parenthesizedCondition parenthesizedCondition q.Clean fun _ _ => True := by
  refine expect_bind rfl (fun _ => id) fun _ _ _ => ?_
  refine (calls.any known _).freely.bind fun k e e' alike => ?_
  exact expect_bind rfl (fun _ _ => trivial) fun _ _ _ => follows_pure And.right alike fun _ => trivial

/-- A constraint of any kind is the same one in both texts. -/
theorem columnAlternatives_follow (calls : q.CallsKeep limit) : ∀ a ∈ columnAlternatives,
    q.Follows limit known i a.1 a.1 q.Clean fun _ => q.Clear [.leftParen] [] := by
  have value {kind : ColumnConstraintKind} {known : Prop} {k : Nat}
      (same : ∀ lens lens' : Lens, Visible.through lens kind = Visible.through lens' kind) :
      q.Follows limit known k (Pure.pure kind : SqlRule ColumnConstraintKind) (Pure.pure kind)
        (fun _ => True) fun _ => q.Clear [.leftParen] [] := follows_value same fun _ => trivial
  simp only [columnAlternatives, List.forall_mem_cons, List.not_mem_nil, false_implies, implies_true,
    and_true]
  refine ⟨?_, ?_, ?_, ?_, ?_, ?_, ?_⟩
  · refine expectKeyword_bind (fun _ => id) fun _ _ _ => ?_
    exact expectKeyword_bind (fun _ _ => trivial) fun _ _ _ => value fun _ _ => rfl
  · exact expectKeyword_bind (fun _ => id) fun _ _ _ => value fun _ _ => rfl
  · refine expectKeyword_bind (fun _ => id) fun _ _ _ => ?_
    refine expectKeyword_bind (fun _ _ => trivial) fun _ _ _ => ?_
    refine Keeps.follows ?_ (fun _ => trivial) fun _ _ => Clear.calm
    exact keeps_ifEaten (by decide) (keeps_value fun _ _ => rfl)
      (keeps_ifEaten (by decide) (keeps_value fun _ _ => rfl) (keeps_value fun _ _ => rfl))
  · exact expectKeyword_bind (fun _ => id) fun _ _ _ => value fun _ _ => rfl
  · refine expectKeyword_bind (fun _ => id) fun _ _ _ => ?_
    exact ((calls.expression _).map fun _ _ => rfl).follows
      fun _ => trivial
  · refine expectKeyword_bind (fun _ => id) fun _ _ _ => ?_
    exact ((parenthesizedCondition_follows calls).freely.map fun _ _ => rfl).mono id id fun _ _ _ => trivial
  · exact foreignKey_follows.map fun _ _ => rfl

theorem columnAlternatives_plain : ∀ a ∈ columnAlternatives, a.1.Plain := by
  simp only [columnAlternatives, List.forall_mem_cons, List.not_mem_nil, false_implies, implies_true,
    and_true]
  refine ⟨?_, ?_, ?_, ?_, ?_, ?_, ?_⟩ <;>
    exact Blames.plain (by simp [notNull, null, primaryKey, unique, defaultValue, checkConstraint,
      parenthesizedCondition, references])

/-- Constraints on a column end in front of a parenthesis in neither text. -/
theorem columnConstraintKind_follows (calls : q.CallsKeep limit) :
    q.Follows limit known i columnConstraintKind columnConstraintKind q.Clean
      fun _ => q.Clear [.leftParen] [] :=
  follows_alternatives columnAlternatives columnAlternatives_plain
    (columnAlternatives_follow calls) id columnAlternatives_await columnAlternatives_apart

theorem namedColumnConstraint_follows {kind : SqlRule ColumnConstraintKind} {last : Nat → Prop}
    (follows : ∀ (known : Prop) (i : Nat), q.Follows limit known i kind kind q.Clean fun _ => last) :
    q.Follows limit known i (namedColumnConstraint kind) (namedColumnConstraint kind) q.Clean
      fun _ => last := by
  refine start_bind Clean.inside fun p p' opens => ?_
  refine constraintName?_follows.bind fun k name name' alike => ?_
  refine (follows _ k).bind fun k kind kind' alike₂ => spanFrom_bind opens fun _ _ _ => follows_pure ?_ ?_ id
  · simp +contextual [Lacks]
  · simp_all [Quoted]

/-- A constraint begins with its own word or with CONSTRAINT. -/
theorem namedColumnConstraint_awaits {levels : List (TapeLevel Symbol)} {kind : SqlRule ColumnConstraintKind}
    {words : List Keyword} (awaits : kind.Awaits levels words) :
    (namedColumnConstraint kind).Awaits levels (.CONSTRAINT :: words) := by
  refine .start fun p => ⟨fun s => ?_, fun s t calm shown other => ?_⟩
  · refine yields_bind.mpr (yields_bind.mpr (yields_bind.mpr ((yields_checkKeyword _).mpr fun t shown => ?_)))
    cases spells : t.spells .CONSTRAINT with
    | true => exact yields_of_forall fun _ _ => yields_of_forall fun _ _ => yields_of_forall fun _ _ =>
        ⟨t, shown, .CONSTRAINT, List.mem_cons_self, spells⟩
    | false =>
      refine (yields_pure false).mpr ((yields_pure none).mpr (yields_bind.mpr ((awaits.gives s).mono ?_)))
      exact fun _ _ ⟨t, shown, k, mem, spells⟩ => yields_of_forall fun _ _ =>
        ⟨t, shown, k, List.mem_cons_of_mem _ mem, spells⟩
  · obtain ⟨silent, others⟩ := List.forall_mem_cons.mp other
    exact refuses_then (constraintName?_read shown silent) ((awaits.refuses s t calm shown others).bind _)

/-- An element of a table ends with a comma or a parenthesis, in both texts. -/
def EndsElement (q : Diverging f) (k : Nat) : Prop :=
  q.Clean k ∧ ((q.left.tokenAt k).kind.sameKind .comma = true ∨
    (q.left.tokenAt k).kind.sameKind .rightParen = true)

/-- What stands behind a column is one more constraint on it, or ends it. -/
def BehindColumn (q : Diverging f) (k : Nat) : Prop := q.Begins (constraintWords f) k ∨ q.EndsElement k

/-- Behind an element of a table no element goes on. -/
theorem EndsElement.clear (ends : q.EndsElement i) (words : List Keyword) : q.Clear [.leftParen] words i := by
  obtain ⟨clean, comma | closing⟩ := ends
  · exact clear_of_sameKind comma clean rfl (by simp; rfl)
  · exact clear_of_sameKind closing clean rfl (by simp; rfl)

theorem BehindColumn.clean (behind : q.BehindColumn i) : q.Clean i := behind.elim And.left And.left

/-- Behind a column there is no parenthesis in the second text only. -/
theorem BehindColumn.clear (behind : q.BehindColumn i) : q.Clear [.leftParen] [] i :=
  behind.elim (·.clear (fun _ _ _ mem => absurd mem List.not_mem_nil) (by simp; rfl)) (·.clear [])

theorem columnConstraint_awaits {f : Features} {limit : Nat} :
    (columnConstraint f).Awaits (sqlLevels f limit) (constraintWords f) := by
  have forward := sqlLevels_forward f limit
  have kinds : columnConstraintKind.Awaits (sqlLevels f limit) (columnAlternatives.flatMap Prod.snd) :=
    awaits_choice forward columnAlternatives_await
  unfold columnConstraint constraintWords
  split
  · rename_i k known
    have number : (autoIncrement k).Awaits (sqlLevels f limit) [k] := (awaits_expectKeyword k).bind _
    have each : ∀ a ∈ [(columnConstraintKind, columnAlternatives.flatMap Prod.snd), (autoIncrement k, [k])],
        a.1.Awaits (sqlLevels f limit) a.2 := by
      simpa using ⟨kinds, number⟩
    rw [known]
    simpa using namedColumnConstraint_awaits (awaits_choice forward each)
  · rename_i none
    rw [none]
    simpa [standardColumnConstraint] using namedColumnConstraint_awaits kinds

section

variable (calls : q.CallsKeep limit) (numbers : Numbers f)
  (types : ∀ k ∈ f.autoIncrement, k ∉ typeKeywords)
  (names : ∀ i k, (q.left.tokenAt i).isQuoted = true → (q.left.tokenAt i).spells k = false)

include calls numbers

theorem columnConstraint_follows : q.Follows limit known i (columnConstraint f) (columnConstraint f)
    (q.Begins (constraintWords f)) fun _ => q.BehindColumn := by
  refine Follows.awaiting (?_ : q.Follows limit known i _ _ q.Clean _) columnConstraint_awaits
  have kinds (known : Prop) (i : Nat) : q.Follows limit known i columnConstraintKind columnConstraintKind
      q.Clean fun _ => q.BehindColumn :=
    (columnConstraintKind_follows calls).mono id id fun _ _ => BehindColumn.clear
  unfold columnConstraint
  split
  · rename_i k known
    have forward := sqlLevels_forward f limit
    have number (known : Prop) (i : Nat) : q.Follows limit known i (autoIncrement k) (autoIncrement k)
        q.Clean fun _ => q.BehindColumn :=
      expectKeyword_bind (fun _ => id) fun _ _ _ => follows_value (fun _ _ => rfl) fun _ => trivial
    refine namedColumnConstraint_follows fun known i => ?_
    refine follows_alternatives [(columnConstraintKind, columnAlternatives.flatMap Prod.snd),
      (autoIncrement k, [k])] ?_ ?_ id ?_ ?_
    · simpa using ⟨columnConstraintKind_blames.plain, Blames.plain (by simp [autoIncrement])⟩
    · simpa using ⟨kinds known i, number known i⟩
    · simpa using ⟨awaits_choice forward columnAlternatives_await, (awaits_expectKeyword k).bind _⟩
    · simpa using numbers k ‹_›
  · exact namedColumnConstraint_follows kinds

omit calls numbers
include types names

/-- No type begins behind a column without one. -/
theorem BehindColumn.typeWord? (behind : q.BehindColumn i) : (q.right.tokenAt i).typeWord? true = none := by
  rcases behind with ⟨clean, k, mem, spells⟩ | ⟨clean, ends⟩
  · have other : k ∉ typeKeywords := by
      rcases List.mem_cons.mp mem with rfl | mem
      · decide
      · rcases List.mem_append.mp mem with mem | mem
        · exact (by decide : ∀ k ∈ columnAlternatives.flatMap Prod.snd, k ∉ typeKeywords) k mem
        · exact types k (Option.mem_toList.mp mem)
    have bare : (q.left.tokenAt i).isQuoted = false := by
      rw [Bool.eq_false_iff]
      intro quoted
      rw [names i k quoted] at spells
      cases spells
    rw [(q.like i clean).typeWord?, Token.typeWord?_of_bare bare, Token.typeWord?_of_spells spells other]
  · rw [(q.like i clean).typeWord?, Token.typeWord?]
    split
    · rename_i kind
      rw [kind] at ends
      rcases ends with ends | ends <;> cases ends
    · rename_i kind
      rw [kind] at ends
      rcases ends with ends | ends <;> cases ends
    · rfl

/-- A column may have no type. -/
theorem optionalType_follows : q.Follows limit known i (optional dataType) (optional dataType)
    q.Clean fun _ => q.BehindColumn := by
  refine follows_optional dataType_blames.plain ?_ BehindColumn.clean fun behind _ => ?_
  · exact dataType_follows.mono id id fun _ _ behind => behind.clean.settled
  · refine (comes_typeWord? true).stops ?_
    rw [behind.typeWord? types names]
    exact stops_of_refuses fun _ here => refuses_failAny here.peek _

include calls numbers

/-- A column with its constraints is the same in both texts. -/
theorem columnDef_follows : q.Follows limit known i (columnDef f) (columnDef f) q.Inside
    fun _ => q.EndsElement := by
  have constraints (known : Prop) (i : Nat) : q.Follows limit known i (many (columnConstraint f))
      (many (columnConstraint f)) q.BehindColumn fun _ => q.EndsElement := by
    refine follows_many (columnConstraint_blames f).plain (fun known k => ?_) (fun _ => .inr) fun k ends _ => ?_
    · exact (columnConstraint_follows calls numbers).mono id .inl fun _ _ => id
    · exact columnConstraint_awaits.stops fun j mem => (ends.clear [j]).words j (by simp)
  refine start_bind id fun p p' opens => ?_
  refine (identifier_holds known i).bind fun k name name' alike => ?_
  refine (optionalType_follows types names).freely.bind fun k type type' same => ?_
  refine (constraints _ k).bind fun k constraints constraints' alike₂ =>
    spanFrom_bind opens fun _ _ _ => follows_pure ?_ ?_ id
  · simp +contextual [Lacks]
  · simp_all [Quoted]

omit numbers types names

theorem tableConstraint_follows :
    q.Follows limit known i tableConstraint tableConstraint q.Clean fun _ => q.EndsElement := by
  refine start_bind Clean.inside fun p p' opens => ?_
  refine constraintName?_follows.bind fun k name name' alike => ?_
  have kind (known : Prop) (i : Nat) : q.Follows limit known i tableConstraintKind tableConstraintKind
      q.Clean fun _ => q.EndsElement := by
    refine eatKeyword_ite (by decide) Clean.calm (fun _ => id) (fun _ => ?_) fun _ => ?_
    · refine expectKeyword_bind (fun _ _ => trivial) fun _ _ _ => ?_
      exact (identifierList_follows.map fun _ _ => rfl).mono
        id (fun _ => trivial) fun _ _ _ => trivial
    refine eatKeyword_ite (by decide) Clean.calm (fun _ => id) (fun _ => ?_) fun _ => ?_
    · exact (identifierList_follows.map fun _ _ => rfl).mono
        id (fun _ => trivial) fun _ _ _ => trivial
    refine eatKeyword_ite (by decide) Clean.calm (fun _ => id) (fun _ => ?_) fun _ => ?_
    · refine expectKeyword_bind (fun _ _ => trivial) fun _ _ _ => ?_
      refine identifierList_follows.freely.bind fun k columns columns' alike₂ => ?_
      refine (foreignKey_follows.mono id (fun _ => trivial) fun _ _ ends => ends.clear []).bind
        fun k key key' alike₃ => follows_pure ?_ ?_ id
      · simp +contextual [Lacks]
      · simp_all [Quoted]
    refine eatKeyword_ite (by decide) Clean.calm (fun _ => id) (fun _ => ?_) fun _ => follows_failAny _
    exact ((parenthesizedCondition_follows calls).map fun _ _ => rfl).mono id (fun _ => trivial) fun _ _ _ => trivial
  refine (kind _ k).bind fun k kind kind' alike₂ => spanFrom_bind opens fun _ _ _ => follows_pure ?_ ?_ id
  · simp +contextual [Lacks]
  · simp_all [Quoted]

include numbers types names

/-- An element of a table is the same in both texts, as its first word tells what it is. -/
theorem tableElement_follows : q.Follows limit known i (tableElement f) (tableElement f) q.Inside
    fun _ => q.EndsElement := by
  have constraint : q.Follows limit known i constraintElement constraintElement q.Inside
      fun _ => q.EndsElement :=
    ((tableConstraint_follows calls).map fun _ _ => rfl).mono
      id Clean.inside fun _ _ => id
  have column : q.Follows limit known i (columnElement f) (columnElement f) q.Inside
      fun _ => q.EndsElement :=
    (columnDef_follows calls numbers types names).map fun _ _ => rfl
  refine follows_choice (by simpa using ⟨Blames.plain (by simp [constraintElement]),
    Blames.plain (by simp [columnElement])⟩) (by simpa using ⟨constraint, column⟩) ?_
  -- no constraint begins with a name, with or without quotes
  simp only [List.pairwise_cons, List.mem_singleton, forall_eq, List.not_mem_nil, false_implies,
    implies_true, List.Pairwise.nil, and_true]
  rintro v j - ⟨s, after, here, read, -⟩ - inside -
  obtain ⟨t, shown, name, kind⟩ := columnElement_opens s v after read
  obtain rfl : q.left.tokenAt i = t := Except.ok.inj (here.peek.symm.trans shown)
  exact stops_of_refuses fun _ here' => constraintElement_refuses here'.peek fun k mem =>
    inside.quiet (not_spells_of_identifier (q.telling i) kind mem)

/-- A table ends with the parenthesis behind its elements, whatever stands behind it. -/
theorem createTableStatement_follows : q.Follows limit known i (createTableStatement f)
    (createTableStatement f) q.Clean fun _ _ => True := by
  have temporary : q.Keeps limit temporary :=
    keeps_ifEaten (by decide) (keeps_value fun _ _ => rfl) (keeps_eatKeyword (by decide))
  have ifNotExists : q.Keeps limit (ifNotExists f) := by
    refine keeps_ifHad (by decide) (fun known i => ?_) (keeps_value fun _ _ => rfl)
    refine expectKeyword_bind (fun _ => Clean.calm) fun _ _ _ => ?_
    exact expectKeyword_bind (fun _ _ => trivial) fun _ _ _ => follows_value (fun _ _ => rfl) fun _ => trivial
  have elements (known : Prop) (i : Nat) : q.Follows limit known i (parenthesizedList (tableElement f))
      (parenthesizedList (tableElement f)) (fun _ => True) fun _ _ => True :=
    follows_parenthesizedList
      (blames_choice (by simp [constraintElement, columnElement]) : (tableElement f).Blames .all).plain
      (fun known i => tableElement_follows calls numbers types names)
      (fun k ends clean => ⟨clean, ends⟩) fun _ _ => trivial
  refine start_bind Clean.inside fun p p' opens => ?_
  refine expectKeyword_bind (fun _ => id) fun _ _ _ => ?_
  refine (temporary _ _).freely.bind fun k temporary temporary' same => ?_
  obtain rfl : temporary = temporary' := same
  refine expectKeyword_bind (fun _ => Clean.calm) fun _ _ _ => ?_
  refine (ifNotExists _ _).freely.bind fun k ifNotExists ifNotExists' same => ?_
  obtain rfl : ifNotExists = ifNotExists' := same
  refine ((objectName_holds _ k).mono id Inside.calm fun _ _ => id).bind fun k name name' alike => ?_
  refine (elements _ k).bind fun k elements elements' alike₂ => spanFrom_bind opens fun _ _ _ =>
    follows_pure ?_ ?_ fun _ => trivial
  · simp +contextual [Lacks, Visible.through_columns, Visible.through_constraints]
  · simp_all [Quoted, Visible.through_columns, Visible.through_constraints]

end

end Diverging

end SqlTree
