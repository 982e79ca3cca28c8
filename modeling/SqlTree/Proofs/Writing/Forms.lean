import SqlTree.Proofs.Tree.Lays
import SqlTree.Proofs.Writing.Follow
import SqlTree.Proofs.Writing.Opens
import SqlTree.Proofs.Writing.Types

namespace SqlTree

open Rule

section

variable {Sym : Type → Type} {X α : Type} {levels : List (TapeLevel Sym)} {tokens : List Token}
  {rule : Rule Sym α} {write : X → List Sign} {said : X → α → Prop} {more : List Sign} {s : Tape}

/-- A step of a repetition reads one more item where the rule fits. -/
theorem manyStep_reads {post : α → Tape → Prop} (reads : rule.Succeeds levels s post)
    (calm : s.cancelAfter = none) (items : List α) :
    (manyStep rule items).Succeeds levels s fun found after =>
      ∃ value, found = some (value :: items) ∧ post value after := by
  refine succeeds_bind.mpr (Succeeds.optional (reads.mono fun value after holds => ?_) calm)
  exact (succeeds_pure _).mpr ⟨value, rfl, holds⟩

/-- A step of a repetition reads nothing where the rule does not fit. -/
theorem Offers.manyStep_stops (offers : Offers tokens more s) (refuses : rule.Refuses levels s)
    (items : List α) : (manyStep rule items).Succeeds levels s fun found after =>
      found = none ∧ Offers tokens more after :=
  succeeds_bind.mpr (refuses.optional offers.calm fun m => (succeeds_pure _).mpr ⟨rfl, offers.note m⟩)

/-- A loop over a rule reads what was written one behind the other, if each is read whatever of the
rest stands behind it. -/
theorem Offers.runs {items : List X} (stop : List Sign → Prop)
    (each : ∀ x ∈ items, ∀ rest s, stop rest → Offers tokens (write x ++ rest) s →
      rule.Succeeds levels s fun value after => said x value ∧ Offers tokens rest after)
    (some : ∀ x ∈ items, write x ≠ []) (behind : ∀ x ∈ items, ∀ rest, stop (write x ++ rest))
    (last : stop more) (refuses : ∀ s, Offers tokens more s → rule.Refuses levels s)
    (offers : Offers tokens (items.flatMap write ++ more) s) (read : List α) :
    ∃ values after, Runs (fun items => (manyStep rule items).read levels) read s
        (values.reverse ++ read) after ∧
      List.Forall₂ said items values ∧ Offers tokens more after := by
  induction items generalizing s read with
  | nil =>
    obtain ⟨found, after, step, rfl, stays⟩ := offers.manyStep_stops (refuses s offers) read
    exact ⟨[], after, .stop step, .nil, stays⟩
  | cons x items ih =>
    have offers : Offers tokens (write x ++ (items.flatMap write ++ more)) s := by
      rwa [List.flatMap_cons, List.append_assoc] at offers
    have stops : stop (items.flatMap write ++ more) := by
      cases items with
      | nil => exact last
      | cons y items =>
        rw [List.flatMap_cons, List.append_assoc]
        exact behind y (by simp) _
    have first := each x List.mem_cons_self _ s stops offers
    obtain ⟨found, mid, step, value, rfl, holds, left⟩ := manyStep_reads first offers.calm read
    have later (y : X) (mem : y ∈ items) : y ∈ x :: items := List.mem_cons_of_mem x mem
    obtain ⟨values, after, runs, all, behindAll⟩ := ih (fun y mem => each y (later y mem))
      (fun y mem => some y (later y mem)) (fun y mem => behind y (later y mem)) left (value :: read)
    have moved : s.lastEnd.offset < mid.lastEnd.offset := by
      refine offers.lastEnd_lt left ?_
      have written := List.length_pos_iff.mpr (some x List.mem_cons_self)
      simp only [List.length_append]
      omega
    have whole : (value :: values).reverse ++ read = values.reverse ++ value :: read := by simp
    refine ⟨value :: values, after, .next step moved ?_, .cons holds all, behindAll⟩
    rw [whole]
    exact runs

/-- A rule as often as it fits reads what was written one behind the other, if each is read
whatever of the rest stands behind it. -/
theorem Offers.many {items : List X} (stop : List Sign → Prop)
    (forward : ∀ level ∈ levels, level.Forward)
    (each : ∀ x ∈ items, ∀ rest s, stop rest → Offers tokens (write x ++ rest) s →
      rule.Succeeds levels s fun value after => said x value ∧ Offers tokens rest after)
    (some : ∀ x ∈ items, write x ≠ []) (behind : ∀ x ∈ items, ∀ rest, stop (write x ++ rest))
    (last : stop more) (refuses : ∀ s, Offers tokens more s → rule.Refuses levels s)
    (offers : Offers tokens (items.flatMap write ++ more) s) {post : List α → Tape → Prop}
    (next : ∀ values after, List.Forall₂ said items values → Offers tokens more after →
      post values after) : (Rule.many rule).Succeeds levels s post := by
  obtain ⟨values, after, runs, all, left⟩ :=
    offers.runs stop each some behind last refuses ([] : List α)
  have turned : (values.reverse ++ []).reverse = values := by simp
  rw [Rule.many, succeeds_bind]
  refine succeeds_loop forward ⟨_, _, runs, (succeeds_pure _).mpr ?_⟩
  rw [turned]
  exact next values after all left

/-- Items with commas between them are read if each is read where a comma or the end of the row
stands behind it. -/
theorem Offers.commaSeparated {first : X} {rest : List X}
    (forward : ∀ level ∈ levels, level.Forward)
    (each : ∀ x ∈ first :: rest, ∀ more s, (front more).Closes → Offers tokens (write x ++ more) s →
      rule.Succeeds levels s fun value after => said x value ∧ Offers tokens more after)
    (closes : (front more).Closes) (notComma : (front more).kind.sameKind .comma = false)
    (offers : Offers tokens (write first ++ (rest.flatMap (fun x => .comma :: write x) ++ more)) s)
    {post : List α → Tape → Prop}
    (next : ∀ values after, List.Forall₂ said (first :: rest) values → Offers tokens more after →
      post values after) : (Rule.commaSeparated rule).Succeeds levels s post := by
  have stops : (front (rest.flatMap (fun x => .comma :: write x) ++ more)).Closes := by
    cases rest with
    | nil => exact closes
    | cons => exact closes_comma
  rw [Rule.commaSeparated, succeeds_bind]
  refine (each first List.mem_cons_self _ s stops offers).mono fun value s ⟨holds, offers⟩ => ?_
  rw [succeeds_bind]
  refine offers.many (fun more => (front more).Closes) forward ?_ (fun x mem => by simp) ?_ closes ?_
    fun values after all offers => (succeeds_pure _).mpr (next _ after (.cons holds all) offers)
  · intro x mem more s stop offers
    rw [succeeds_bind]
    refine offers.expect rfl rfl fun _ s offers => ?_
    exact each x (List.mem_cons_of_mem _ mem) _ s stop offers
  · exact fun x mem more => closes_comma
  · intro s offers
    obtain ⟨t, shown, kind, -⟩ := offers.peek
    exact (expect_refuses shown (by rw [kind]; exact notComma)).bind _

end

open SqlRule

/-- Expressions of fewer levels than a limit are read as they were written, up to where an operator
follows that binds them less strongly than what they were asked for with. -/
def ReadsBack (rules : LexicalRules) (f : Features) (tokens : List Token) (limit : Nat) : Prop :=
  ∀ ⦃p : Phrase⦄ ⦃power more op s⦄, p.Fits rules f → p.nesting < limit → p.OpenFrom power →
    Follow rules f more op → (∀ o ∈ op, p.ClosedBefore o ∧ o.leftPower < power) →
    Offers tokens (p.signs rules ++ more) s →
    (call (.expression power) : SqlRule Expr).Succeeds (sqlLevels f limit) s fun e after =>
      e.bare = p.expr ∧ Offers tokens more after

/-- Where any operator may stand, every expression may. -/
theorem Phrase.openFrom_zero : (p : Phrase) → p.OpenFrom 0
  | binary left _ _ => ⟨Nat.zero_le _, left.openFrom_zero⟩
  | isNull operand _ => ⟨Nat.zero_le _, operand.openFrom_zero⟩
  | inList operand _ _ _ => ⟨Nat.zero_le _, operand.openFrom_zero⟩
  | between operand _ _ _ => ⟨Nat.zero_le _, operand.openFrom_zero⟩
  | like operand _ _ _ => ⟨Nat.zero_le _, operand.openFrom_zero⟩
  | integer _ | string _ | blob _ | boolean _ | null | hole _ | parameter _ | column _ _
  | call _ _ _ | paren _ | unary _ _ | caseWhen _ _ _ _ | cast _ _ => trivial

section

variable {rules : LexicalRules} {f : Features} {tokens : List Token} {limit : Nat} {k : Keyword}
  {sign : Sign} {signs more : List Sign} {s : Tape} {l : Label} {p : Phrase}

/-- An expression is read as a whole where nothing goes on with it. -/
theorem ReadsBack.whole (reads : ReadsBack rules f tokens limit) (fits : p.Fits rules f)
    (shallow : p.nesting < limit) (offers : Offers tokens (p.signs rules ++ more) s)
    (closes : (front more).Closes) {post : Expr → Tape → Prop}
    (next : ∀ e after, e.bare = p.expr → Offers tokens more after → post e after) :
    expression.Succeeds (sqlLevels f limit) s post :=
  (reads fits shallow p.openFrom_zero (.ends closes) (fun _ none => by cases none) offers).mono
    fun e after ⟨same, offers⟩ => next e after same offers

theorem Phrase.behindCommas_eq (ps : List Phrase) :
    Phrase.behindCommas rules ps = ps.flatMap fun p => .comma :: p.signs rules := by
  induction ps with
  | nil => rfl
  | cons p ps ih => rw [behindCommas, List.flatMap_cons, ih]

theorem exprs_of_forall₂ {ps : List Phrase} {es : List Expr}
    (all : List.Forall₂ (fun p e => e.bare = p.expr) ps es) :
    Expr.mappedList (fun _ => .nothing) id es = Phrase.exprs ps := by
  induction all with
  | nil => rfl
  | cons same _ ih =>
    rw [Expr.mappedList, Phrase.exprs, ih, ← same]
    rfl

/-- A row of expressions is read up to its closing parenthesis. -/
theorem ReadsBack.row (reads : ReadsBack rules f tokens limit) {first : Phrase} {rest : List Phrase}
    (fits : ∀ q ∈ first :: rest, q.Fits rules f) (shallow : ∀ q ∈ first :: rest, q.nesting < limit)
    (offers : Offers tokens
      (first.signs rules ++ (Phrase.behindCommas rules rest ++ .rightParen :: more)) s)
    {post : List Expr → Tape → Prop}
    (next : ∀ es after,
      Expr.mappedList (fun _ => .nothing) id es = Phrase.exprs (first :: rest) →
      Offers tokens (.rightParen :: more) after → post es after) :
    (commaSeparated expression).Succeeds (sqlLevels f limit) s post := by
  rw [Phrase.behindCommas_eq] at offers
  have each (q : Phrase) (mem : q ∈ first :: rest) (more : List Sign) (s : Tape)
      (closes : (front more).Closes) (offers : Offers tokens (q.signs rules ++ more) s) :
      expression.Succeeds (sqlLevels f limit) s fun e after =>
        e.bare = q.expr ∧ Offers tokens more after :=
    reads.whole (fits q mem) (shallow q mem) offers closes fun e after same offers => ⟨same, offers⟩
  have closes : (front (.rightParen :: more)).Closes := closes_rightParen
  exact Offers.commaSeparated (sqlLevels_forward f limit) each closes rfl offers
    fun es after all => next es after (exprs_of_forall₂ all)

/-- An optional word is there or not. -/
theorem Offers.optionalWord {given : Bool}
    (offers : Offers tokens ((if given then [.word rules k] else []) ++ signs) s)
    (other : given = false → (front signs).spells k = false)
    {levels : List (TapeLevel Symbol)} {post : Bool → Tape → Prop}
    (next : ∀ after, Offers tokens signs after → post given after) :
    (Rule.eatKeyword k : SqlRule Bool).Succeeds levels s post := by
  cases given with
  | true =>
    have offers : Offers tokens (.word rules k :: signs) s := offers
    exact offers.eatWord next
  | false =>
    have offers : Offers tokens signs s := offers
    exact offers.eatKeywordNot (other rfl) (next s offers)

/-- The call of a function is read behind its name. -/
theorem ReadsBack.functionCall (reads : ReadsBack rules f tokens limit) (standard : rules.Standard)
    {name : Ident} (named : name.mapped (fun _ => .nothing) = l.ident) (start : Position)
    {distinct : Bool} {arguments : List Phrase} (fits : ∀ q ∈ arguments, q.Fits rules f)
    (shallow : ∀ q ∈ arguments, q.nesting < limit)
    (offers : Offers tokens (.leftParen :: ((if distinct then [.word rules .DISTINCT] else []) ++
      (Phrase.row rules arguments ++ .rightParen :: more))) s) :
    (SqlRule.functionCall name start).Succeeds (sqlLevels f limit) s fun e after =>
      e.bare = (Phrase.call l distinct arguments).expr ∧ Offers tokens more after := by
  have finish {es : List Expr} {s : Tape}
      (same : Expr.mappedList (fun _ => .nothing) id es = Phrase.exprs arguments)
      (offers : Offers tokens (.rightParen :: more) s) :
      (do
        let _ ← Rule.expect .rightParen
        return ⟨.call ⟨name, es, distinct⟩, ← spanFrom start⟩ : SqlRule Expr).Succeeds
          (sqlLevels f limit) s fun e after =>
            e.bare = (Phrase.call l distinct arguments).expr ∧ Offers tokens more after := by
    refine succeeds_bind.mpr (offers.expect rfl rfl fun _ s offers => ?_)
    refine succeeds_bind.mpr ((succeeds_spanFrom start).mpr ((succeeds_pure _).mpr ⟨?_, offers⟩))
    rw [Phrase.expr, ← same, ← named]
    rfl
  rw [SqlRule.functionCall, succeeds_bind]
  refine offers.expect rfl rfl fun _ s offers => succeeds_bind.mpr ?_
  cases arguments with
  | nil =>
    refine offers.optionalWord (fun _ => rfl) fun s offers => succeeds_bind.mpr ?_
    rw [succeeds_bind]
    have offers : Offers tokens (.rightParen :: more) s := offers
    exact offers.check ((succeeds_pure _).mpr (finish rfl offers))
  | cons first rest =>
    have opens := (fits first List.mem_cons_self).opens standard
      (Phrase.behindCommas rules rest ++ .rightParen :: more)
    rw [Phrase.row, List.append_assoc] at offers
    refine offers.optionalWord (fun _ => opens.words _ (by decide)) fun s offers => ?_
    rw [succeeds_bind, succeeds_bind]
    refine offers.check ?_
    rw [opens.paren, if_neg Bool.false_ne_true, succeeds_bind]
    refine offers.check ?_
    rw [opens.star, if_neg Bool.false_ne_true]
    exact reads.row fits shallow offers fun es s same offers => finish same offers

/-- A name by itself, or behind that of a table, is read as a column. -/
theorem Offers.column {table : Option Label} {levels : List (TapeLevel Symbol)}
    (legible : (Phrase.column table l).Legible rules f)
    (noParen : (front more).kind.sameKind .leftParen = false)
    (noDot : (front more).kind.sameKind .dot = false)
    (offers : Offers tokens ((Phrase.column table l).signs rules ++ more) s) :
    nameExpression.Succeeds levels s fun e after =>
      e.bare = (Phrase.column table l).expr ∧ Offers tokens more after := by
  rw [nameExpression, succeeds_bind]
  refine offers.start fun start => succeeds_bind.mpr ?_
  cases table with
  | none =>
    have offers : Offers tokens (.name rules l :: more) s := offers
    refine offers.identifier legible.1 fun name s named offers => succeeds_bind.mpr ?_
    refine offers.check ?_
    rw [noParen, if_neg Bool.false_ne_true, succeeds_bind, succeeds_bind]
    refine offers.eatNot noDot ((succeeds_pure _).mpr (succeeds_bind.mpr ?_))
    refine (succeeds_spanFrom start).mpr ((succeeds_pure _).mpr ⟨?_, offers⟩)
    rw [Phrase.expr, ← named]
    rfl
  | some table =>
    have offers : Offers tokens (.name rules table :: .dot :: .name rules l :: more) s := offers
    have noStar : (Sign.name rules l).kind.sameKind .star = false := by rw [legible.2.kind]; rfl
    refine offers.identifier legible.1.1 fun owner s owned offers => succeeds_bind.mpr ?_
    refine offers.check ?_
    have noParen : Sign.dot.kind.sameKind .leftParen = false := rfl
    rw [front, noParen, if_neg Bool.false_ne_true, succeeds_bind, succeeds_bind]
    refine offers.eat rfl rfl fun s offers => succeeds_bind.mpr ?_
    refine offers.eatNot noStar (succeeds_bind.mpr ?_)
    refine offers.identifier legible.2 fun name s named offers => (succeeds_pure _).mpr ?_
    refine succeeds_bind.mpr ((succeeds_spanFrom start).mpr ((succeeds_pure _).mpr ⟨?_, offers⟩))
    rw [Phrase.expr, ← named, Option.map_some, ← owned]
    rfl

/-- A cast is read as it was written. -/
theorem ReadsBack.castExpression (reads : ReadsBack rules f tokens limit) {type : DataType}
    (fits : p.Fits rules f) (shallow : p.nesting < limit) (legible : type.Legible)
    (offers : Offers tokens ((Phrase.cast p type).signs rules ++ more) s) :
    SqlRule.castExpression.Succeeds (sqlLevels f limit) s fun e after =>
      e.bare = (Phrase.cast p type).expr ∧ Offers tokens more after := by
  have offers : Offers tokens (.word rules .CAST :: .leftParen :: (p.signs rules ++
      .word rules .AS :: (type.signs rules ++ .rightParen :: more))) s := by
    simpa [Phrase.signs] using offers
  rw [SqlRule.castExpression, succeeds_bind]
  refine offers.start fun start => succeeds_bind.mpr ?_
  refine offers.expectWord fun _ s offers => succeeds_bind.mpr ?_
  refine offers.expect rfl rfl fun _ s offers => succeeds_bind.mpr ?_
  refine reads.whole fits shallow offers (closes_word (by decide)) fun e s same offers => ?_
  refine succeeds_bind.mpr (offers.expectWord fun _ s offers => ?_)
  refine succeeds_bind.mpr (offers.dataType legible rfl rfl fun s offers => succeeds_bind.mpr ?_)
  refine offers.expect rfl rfl fun _ s offers => succeeds_bind.mpr ?_
  refine (succeeds_spanFrom start).mpr ((succeeds_pure _).mpr ⟨?_, offers⟩)
  rw [Phrase.expr, ← same]
  rfl

theorem Clause.list_eq (cs : List Clause) :
    Clause.list rules cs = cs.flatMap (Clause.signs rules) := by
  induction cs with
  | nil => rfl
  | cons c cs ih => rw [list, List.flatMap_cons, ih]

theorem whenClauses_of_forall₂ {cs : List Clause} {ws : List WhenClause}
    (all : List.Forall₂ (fun c w => w.mapped (fun _ => .nothing) id = c.whenClause) cs ws) :
    WhenClause.mappedList (fun _ => .nothing) id ws = Clause.whenClauses cs := by
  induction all with
  | nil => rfl
  | cons same _ ih => rw [WhenClause.mappedList, Clause.whenClauses, ih, same]

theorem ReadsBack.whenClause (reads : ReadsBack rules f tokens limit) {c : Clause}
    (fits : ∀ q ∈ [c.condition, c.result], q.Fits rules f)
    (shallow : ∀ q ∈ [c.condition, c.result], q.nesting < limit) (closes : (front more).Closes)
    (offers : Offers tokens (c.signs rules ++ more) s) :
    SqlRule.whenClause.Succeeds (sqlLevels f limit) s fun w after =>
      w.mapped (fun _ => .nothing) id = c.whenClause ∧ Offers tokens more after := by
  obtain ⟨condition, result⟩ := c
  obtain ⟨fits, fits', -⟩ := List.forall_mem_cons.mp fits |>.imp_right List.forall_mem_cons.mp
  obtain ⟨shallow, shallow', -⟩ :=
    List.forall_mem_cons.mp shallow |>.imp_right List.forall_mem_cons.mp
  have offers : Offers tokens (.word rules .WHEN :: (condition.signs rules ++
      .word rules .THEN :: (result.signs rules ++ more))) s := by
    simpa [Clause.signs] using offers
  rw [SqlRule.whenClause, succeeds_bind]
  refine offers.start fun start => succeeds_bind.mpr ?_
  refine offers.expectWord fun _ s offers => succeeds_bind.mpr ?_
  refine reads.whole fits shallow offers (closes_word (by decide)) fun e s same offers => ?_
  refine succeeds_bind.mpr (offers.expectWord fun _ s offers => ?_)
  refine succeeds_bind.mpr (reads.whole fits' shallow' offers closes fun e' s same' offers => ?_)
  refine succeeds_bind.mpr ((succeeds_spanFrom start).mpr ((succeeds_pure _).mpr ⟨?_, offers⟩))
  rw [Clause.whenClause, ← same, ← same']
  rfl

/-- What stands behind the last clause of a case. -/
theorem closes_behindClauses (otherwise : Option Phrase) (more : List Sign) :
    (front (Phrase.behindElse rules otherwise ++ .word rules .END :: more)).Closes := by
  cases otherwise with
  | none => exact closes_word (by decide)
  | some => exact closes_word (by decide)

/-- All clauses of a case are read, up to what stands behind the last one. -/
theorem ReadsBack.whenClauses (reads : ReadsBack rules f tokens limit) {cs : List Clause}
    (fits : ∀ q ∈ cs.flatMap fun c => [c.condition, c.result], q.Fits rules f)
    (shallow : ∀ q ∈ cs.flatMap fun c => [c.condition, c.result], q.nesting < limit)
    (closes : (front more).Closes) (noWhen : (front more).spells .WHEN = false)
    (offers : Offers tokens (Clause.list rules cs ++ more) s) {post : List WhenClause → Tape → Prop}
    (next : ∀ ws after,
      List.Forall₂ (fun c w => w.mapped (fun _ => .nothing) id = c.whenClause) cs ws →
      Offers tokens more after → post ws after) :
    (many SqlRule.whenClause).Succeeds (sqlLevels f limit) s post := by
  have each (c : Clause) (mem : c ∈ cs) (more : List Sign) (s : Tape)
      (closes : (front more).Closes) (offers : Offers tokens (c.signs rules ++ more) s) :
      SqlRule.whenClause.Succeeds (sqlLevels f limit) s fun w after =>
        w.mapped (fun _ => .nothing) id = c.whenClause ∧ Offers tokens more after :=
    reads.whenClause (fun q inside => fits q (List.mem_flatMap.mpr ⟨c, mem, inside⟩))
      (fun q inside => shallow q (List.mem_flatMap.mpr ⟨c, mem, inside⟩)) closes offers
  have refuses (s : Tape) (offers : Offers tokens more s) :
      SqlRule.whenClause.Refuses (sqlLevels f limit) s := by
    obtain ⟨t, shown, -, same⟩ := offers.peek
    refine refuses_start shown (Refuses.bind ?_ _)
    exact expectKeyword_refuses shown ((same _).trans noWhen)
  rw [Clause.list_eq] at offers
  refine offers.many (fun more => (front more).Closes) (sqlLevels_forward f limit) each ?_ ?_ closes
    refuses next
  · rintro ⟨condition, result⟩ -
    simp [Clause.signs]
  · rintro ⟨condition, result⟩ - rest
    exact closes_word (by decide)

/-- What stands between CASE and the first WHEN. -/
theorem ReadsBack.caseOperand (reads : ReadsBack rules f tokens limit) (standard : rules.Standard)
    {operand : Option Phrase} (fits : ∀ q ∈ operand.toList, q.Fits rules f)
    (shallow : ∀ q ∈ operand.toList, q.nesting < limit)
    (offers : Offers tokens (Phrase.optional rules operand ++ .word rules .WHEN :: more) s)
    {post : Option Expr → Tape → Prop}
    (next : ∀ e after, Expr.mappedOption (fun _ => .nothing) id e = Phrase.exprOption operand →
      Offers tokens (.word rules .WHEN :: more) after → post e after) :
    (do if ← checkKeyword .WHEN then return none else return some (← expression) :
      SqlRule (Option Expr)).Succeeds (sqlLevels f limit) s post := by
  rw [succeeds_bind]
  refine offers.checkKeyword ?_
  cases operand with
  | none =>
    have offers : Offers tokens (.word rules .WHEN :: more) s := offers
    have spells : (front (Phrase.optional rules none ++ .word rules .WHEN :: more)).spells .WHEN =
        true := Sign.word_spells_self rules .WHEN
    rw [spells, if_pos rfl]
    exact (succeeds_pure _).mpr (next none s rfl offers)
  | some p =>
    have fits : p.Fits rules f := fits p List.mem_cons_self
    have opens := (fits.opens standard (.word rules .WHEN :: more)).words .WHEN (by decide)
    have offers : Offers tokens (p.signs rules ++ .word rules .WHEN :: more) s := offers
    rw [Phrase.optional, opens, if_neg Bool.false_ne_true, succeeds_bind]
    refine reads.whole fits (shallow p List.mem_cons_self) offers
      (closes_word (by decide)) fun e s same offers => ?_
    exact (succeeds_pure _).mpr (next (some e) s (congrArg some same) offers)

/-- What stands between the last clause of a case and END. -/
theorem ReadsBack.caseElse (reads : ReadsBack rules f tokens limit)
    {otherwise : Option Phrase} (fits : ∀ q ∈ otherwise.toList, q.Fits rules f)
    (shallow : ∀ q ∈ otherwise.toList, q.nesting < limit)
    (offers : Offers tokens (Phrase.behindElse rules otherwise ++ .word rules .END :: more) s)
    {post : Option Expr → Tape → Prop}
    (next : ∀ e after, Expr.mappedOption (fun _ => .nothing) id e = Phrase.exprOption otherwise →
      Offers tokens (.word rules .END :: more) after → post e after) :
    (do if ← eatKeyword .ELSE then return some (← expression) else return none :
      SqlRule (Option Expr)).Succeeds (sqlLevels f limit) s post := by
  rw [succeeds_bind]
  cases otherwise with
  | none =>
    have offers : Offers tokens (.word rules .END :: more) s := offers
    exact offers.eatKeywordNot (Sign.word_spells_ne rules (by decide))
      ((succeeds_pure _).mpr (next none s rfl offers))
  | some p =>
    have offers : Offers tokens
        (.word rules .ELSE :: (p.signs rules ++ .word rules .END :: more)) s := offers
    refine offers.eatWord fun s offers => ?_
    rw [if_pos rfl, succeeds_bind]
    refine reads.whole (fits p List.mem_cons_self) (shallow p List.mem_cons_self) offers
      (closes_word (by decide)) fun e s same offers => ?_
    exact (succeeds_pure _).mpr (next (some e) s (congrArg some same) offers)

/-- What stands behind the last clause of a case begins no other clause. -/
theorem behindElse_not_when (otherwise : Option Phrase) (more : List Sign) :
    (front (Phrase.behindElse rules otherwise ++ .word rules .END :: more)).spells .WHEN = false := by
  cases otherwise with
  | none => exact Sign.word_spells_ne rules (by decide)
  | some => exact Sign.word_spells_ne rules (by decide)

theorem ReadsBack.caseExpression (reads : ReadsBack rules f tokens limit) (standard : rules.Standard)
    {operand : Option Phrase} {first : Clause} {rest : List Clause} {otherwise : Option Phrase}
    (fits : ∀ q ∈ (Phrase.caseWhen operand first rest otherwise).parts, q.Fits rules f)
    (shallow : ∀ q ∈ (Phrase.caseWhen operand first rest otherwise).parts, q.nesting < limit)
    (offers : Offers tokens ((Phrase.caseWhen operand first rest otherwise).signs rules ++ more) s) :
    SqlRule.caseExpression.Succeeds (sqlLevels f limit) s fun e after =>
      e.bare = (Phrase.caseWhen operand first rest otherwise).expr ∧ Offers tokens more after := by
  simp only [Phrase.parts, List.forall_mem_append] at fits shallow
  obtain ⟨⟨fitsOperand, fitsClauses⟩, fitsElse⟩ := fits
  obtain ⟨⟨shallowOperand, shallowClauses⟩, shallowElse⟩ := shallow
  have offers : Offers tokens (.word rules .CASE :: (Phrase.optional rules operand ++
      (Clause.list rules (first :: rest) ++
        (Phrase.behindElse rules otherwise ++ .word rules .END :: more)))) s := by
    simpa [Phrase.signs, Clause.list] using offers
  obtain ⟨tail, clauses⟩ : ∃ tail, Clause.list rules (first :: rest) ++
      (Phrase.behindElse rules otherwise ++ .word rules .END :: more) =
        .word rules .WHEN :: tail := by
    obtain ⟨condition, result⟩ := first
    exact ⟨_, rfl⟩
  rw [clauses] at offers
  rw [SqlRule.caseExpression, succeeds_bind]
  refine offers.start fun start => succeeds_bind.mpr ?_
  refine offers.expectWord fun _ s offers => succeeds_bind.mpr ?_
  refine reads.caseOperand standard fitsOperand shallowOperand offers fun o s sameOperand offers => ?_
  rw [← clauses] at offers
  refine succeeds_bind.mpr (reads.whenClauses fitsClauses shallowClauses
    (closes_behindClauses otherwise more) (behindElse_not_when otherwise more) offers
    fun ws s all offers => ?_)
  obtain ⟨w, ws, -, -, rfl⟩ := List.forall₂_cons_left_iff.mp all
  rw [List.isEmpty_cons, if_neg Bool.false_ne_true, succeeds_bind]
  refine reads.caseElse fitsElse shallowElse offers fun e s sameElse offers => succeeds_bind.mpr ?_
  refine offers.expectWord fun _ s offers => succeeds_bind.mpr ?_
  refine (succeeds_spanFrom start).mpr ((succeeds_pure _).mpr ⟨?_, offers⟩)
  have sameClauses := whenClauses_of_forall₂ all
  rw [Clause.whenClauses] at sameClauses
  rw [Phrase.expr, ← sameOperand, ← sameElse, ← sameClauses]
  rfl

end

end SqlTree
