import SqlTree.Proofs.Tree.Models
import SqlTree.Proofs.Writing.Expressions
import SqlTree.Proofs.Writing.Solid

namespace SqlTree

open Rule SqlRule

section

variable {rules : LexicalRules} {f : Features} {k : Keyword} {p : Phrase} {l : Label}

theorem solid_word (standard : rules.Standard) (k : Keyword) : (Sign.word rules k).Solid rules := by
  have bare : ∀ k ∈ Keyword.all, isBareWord k.spelling = true := by decide +kernel
  exact solid_bare standard (bare k k.mem_all)

theorem Label.Legible.solid (legible : l.Legible rules) (standard : rules.Standard) :
    (Sign.name rules l).Solid rules :=
  solid_name standard (legible.imp_right And.left)

theorem Label.Calls.solid (calls : l.Calls rules) (standard : rules.Standard) :
    (Sign.name rules l).Solid rules := by
  rcases calls with leads | ⟨-, word, -⟩
  · exact leads.1.solid standard
  · exact solid_name standard (.inr word)

theorem solid_leftParen (standard : rules.Standard) : Sign.leftParen.Solid rules :=
  solid_mark standard (by decide) none

theorem solid_rightParen (standard : rules.Standard) : Sign.rightParen.Solid rules :=
  solid_mark standard (by decide) none

theorem solid_comma (standard : rules.Standard) : Sign.comma.Solid rules :=
  solid_mark standard (by decide) none

theorem solid_binary (standard : rules.Standard) (op : BinaryOp) :
    (Sign.binary rules op).Solid rules := by
  cases op with
  | and | or => exact solid_word standard _
  | _ => exact solid_mark standard (by decide) _

theorem solid_unary (standard : rules.Standard) (op : UnaryOp) :
    (Sign.unary rules op).Solid rules := by
  cases op with
  | not => exact solid_word standard _
  | neg | bitNot => exact solid_mark standard (by decide) _

/-- All of some signs are scanned as what they are to be. -/
def Solids (rules : LexicalRules) (signs : List Sign) : Prop := ∀ sign ∈ signs, sign.Solid rules

namespace Solids

variable {sign : Sign} {signs more : List Sign}

theorem nil : Solids rules [] := fun _ mem => by cases mem

theorem cons (first : sign.Solid rules) (rest : Solids rules signs) : Solids rules (sign :: signs) :=
  List.forall_mem_cons.mpr ⟨first, rest⟩

theorem one (solid : sign.Solid rules) : Solids rules [sign] := cons solid nil

theorem append (first : Solids rules signs) (rest : Solids rules more) :
    Solids rules (signs ++ more) :=
  List.forall_mem_append.mpr ⟨first, rest⟩

theorem flatMap {X : Type} {items : List X} {write : X → List Sign}
    (each : ∀ x ∈ items, Solids rules (write x)) : Solids rules (items.flatMap write) := by
  intro sign mem
  obtain ⟨x, inside, mem⟩ := List.mem_flatMap.mp mem
  exact each x inside sign mem

end Solids

open Solids

/-- A word that may be left out. -/
theorem solids_optional (standard : rules.Standard) (k : Keyword) (given : Bool) :
    Solids rules (if given then [.word rules k] else []) := by
  cases given with
  | false => exact nil
  | true => exact one (solid_word standard k)

/-- Numbers between parentheses are scanned sign by sign. -/
theorem solids_arguments (standard : rules.Standard) {ns : List Nat}
    (small : ∀ n ∈ ns, n ≤ maxInteger) : Solids rules (Sign.arguments ns) := by
  cases ns with
  | nil => exact nil
  | cons n ns =>
    obtain ⟨first, others⟩ := List.forall_mem_cons.mp small
    have behind : Solids rules (ns.flatMap fun n => [.comma, .integer n]) :=
      flatMap fun n mem => cons (solid_comma standard) (one (solid_integer standard (others n mem)))
    have opened := cons (solid_leftParen standard) (cons (solid_integer standard first) behind)
    exact append opened (one (solid_rightParen standard))

theorem DataType.Legible.isBareWord {type : DataType} (legible : type.Legible) :
    isBareWord type.parts.1 = true := by
  have words : ∀ w ∈ typeNames, SqlTree.isBareWord w = true := by decide +kernel
  exact words _ legible.mem_typeNames

theorem DataType.Legible.le_maxInteger {type : DataType} (legible : type.Legible) :
    ∀ n ∈ type.parts.2, n ≤ maxInteger := by
  have small {limit : Nat} {length : Option Nat} (le : ∀ n ∈ length, n ≤ limit)
      (most : limit ≤ maxInteger) : ∀ n ∈ length.toList, n ≤ maxInteger := fun n mem =>
    Nat.le_trans (le n (Option.mem_toList.mp mem)) most
  cases type with
  | decimal | numeric =>
    exact List.forall_mem_append.mpr ⟨small legible.1 (by decide), small legible.2.1 (by decide)⟩
  | char | varchar | binary | varbinary => exact small legible (by decide)
  | custom => exact legible.elim
  | _ => simp [DataType.parts]

theorem solids_type (standard : rules.Standard) {type : DataType} (legible : type.Legible) :
    Solids rules (type.signs rules) :=
  cons (solid_bare standard legible.isBareWord) (solids_arguments standard legible.le_maxInteger)

theorem solids_operator (standard : rules.Standard) {op : InfixOp} (legible : op.Legible f) :
    Solids rules (op.signs rules) := by
  cases op with
  | binary op => exact one (solid_binary standard op)
  | isNull => exact one (solid_word standard _)
  | inList negated | between negated | like _ negated =>
    exact append (solids_optional standard _ negated) (one (solid_word standard _))
  | cast => exact legible.elim

theorem solids_behindCommas (standard : rules.Standard) {ps : List Phrase}
    (each : ∀ q ∈ ps, Solids rules (q.signs rules)) : Solids rules (Phrase.behindCommas rules ps) := by
  rw [Phrase.behindCommas_eq]
  exact flatMap fun q mem => cons (solid_comma standard) (each q mem)

/-- What stands behind an operand is scanned sign by sign. -/
theorem solids_tail (standard : rules.Standard) (each : ∀ q ∈ p.parts, Solids rules (q.signs rules)) :
    Solids rules (p.tail rules) := by
  cases p with
  | binary left op right => exact each right (by simp [Phrase.parts])
  | isNull operand negated =>
    exact append (solids_optional standard _ negated) (one (solid_word standard _))
  | inList operand first rest negated =>
    have others : Solids rules (Phrase.behindCommas rules rest) :=
      solids_behindCommas standard fun q mem => each q (by simp [Phrase.parts, mem])
    refine cons (solid_leftParen standard) (append (each first (by simp [Phrase.parts])) ?_)
    exact append others (one (solid_rightParen standard))
  | between operand low high negated =>
    exact append (each low (by simp [Phrase.parts]))
      (cons (solid_word standard _) (each high (by simp [Phrase.parts])))
  | like operand pattern caseInsensitive negated => exact each pattern (by simp [Phrase.parts])
  | _ => exact nil

theorem solids_case (standard : rules.Standard) {operand otherwise : Option Phrase} {first : Clause}
    {rest : List Clause} (each : ∀ q ∈ (Phrase.caseWhen operand first rest otherwise).parts,
      Solids rules (q.signs rules)) :
    Solids rules ((Phrase.caseWhen operand first rest otherwise).signs rules) := by
  have word (k : Keyword) := solid_word standard k
  have clause (c : Clause) (mem : c ∈ first :: rest) : Solids rules (c.signs rules) := by
    have inside (q : Phrase) (part : q ∈ [c.condition, c.result]) :
        q ∈ (Phrase.caseWhen operand first rest otherwise).parts :=
      List.mem_append_left _ (List.mem_append_right _ (List.mem_flatMap.mpr ⟨c, mem, part⟩))
    obtain ⟨condition, result⟩ := c
    exact append (cons (word _) (each condition (inside condition (by simp))))
      (cons (word _) (each result (inside result (by simp))))
  have clauses : Solids rules (Clause.list rules rest) := by
    rw [Clause.list_eq]
    exact flatMap fun c mem => clause c (List.mem_cons_of_mem _ mem)
  have before : Solids rules (Phrase.optional rules operand) := by
    cases operand with
    | none => exact nil
    | some p => exact each p (by simp [Phrase.parts])
  have behind : Solids rules (Phrase.behindElse rules otherwise) := by
    cases otherwise with
    | none => exact nil
    | some p => exact cons (word _) (each p (by simp [Phrase.parts]))
  have opened := cons (word .CASE) before
  have arms := append (append opened (clause first List.mem_cons_self)) clauses
  exact append (append arms behind) (one (word _))

theorem solids_call (standard : rules.Standard) (calls : l.Calls rules) {distinct : Bool}
    {arguments : List Phrase} (each : ∀ q ∈ arguments, Solids rules (q.signs rules)) :
    Solids rules ((Phrase.call l distinct arguments).signs rules) := by
  have row : Solids rules (Phrase.row rules arguments) := by
    cases arguments with
    | nil => exact nil
    | cons first rest =>
      exact append (each first List.mem_cons_self)
        (solids_behindCommas standard fun q mem => each q (List.mem_cons_of_mem _ mem))
  have opened := cons (calls.solid standard)
    (cons (solid_leftParen standard) (solids_optional standard .DISTINCT distinct))
  exact append (append opened row) (one (solid_rightParen standard))

/-- All signs of an expression that can be written are scanned as what they are to be. -/
theorem Phrase.Fits.solids (fits : p.Fits rules f) (standard : rules.Standard) :
    Solids rules (p.signs rules) := by
  have operation {p left : Phrase} {op : InfixOp} (operates : p.Operates left op)
      (legible : p.Legible rules f) (each : ∀ q ∈ p.parts, Solids rules (q.signs rules)) :
      Solids rules (p.signs rules) := by
    rw [operates.signs_eq]
    exact append (each left operates.mem_parts)
      (append (solids_operator standard (operates.legible legible)) (solids_tail standard each))
  induction fits with
  | @intro p binds legible parts ih =>
    cases p with
    | integer value => exact one (solid_integer standard legible)
    | string value => exact one (solid_string standard value)
    | blob bytes => exact one (solid_blob standard bytes)
    | boolean | null => exact one (solid_word standard _)
    | hole number => exact one (solid_mark standard (by decide) (some number))
    | parameter name =>
      have colon : Sign.colon.Solid rules := solid_mark standard (by decide) none
      exact cons colon (one (Label.Legible.solid legible standard))
    | column table name =>
      cases table with
      | none => exact one (legible.1.solid standard)
      | some table =>
        have dot : Sign.dot.Solid rules := solid_mark standard (by decide) none
        exact cons (legible.1.1.solid standard) (cons dot (one (legible.2.solid standard)))
    | call name distinct arguments => exact solids_call standard legible ih
    | paren inner =>
      have opened := cons (solid_leftParen standard) (ih inner List.mem_cons_self)
      exact append opened (one (solid_rightParen standard))
    | unary op operand => exact cons (solid_unary standard op) (ih operand List.mem_cons_self)
    | caseWhen operand first rest otherwise => exact solids_case standard ih
    | cast operand type =>
      have opened := cons (solid_word standard .CAST)
        (cons (solid_leftParen standard) (ih operand List.mem_cons_self))
      have named := cons (solid_word standard .AS) (solids_type standard legible)
      exact append (append opened named) (one (solid_rightParen standard))
    | binary => exact operation .binary legible ih
    | isNull => exact operation .isNull legible ih
    | inList => exact operation .inList legible ih
    | between => exact operation .between legible ih
    | like => exact operation .like legible ih

end

section

variable {rules : LexicalRules} {signs : List Sign} {cs rest gap : List Char}

/-- The lexer reads a sign behind white space as the token that it is to be. -/
theorem nextToken_of_solid {sign : Sign} (solid : sign.Solid rules)
    (white : ∀ c ∈ gap, isWhiteSpace c = true) (ends : EndsToken rest) {c : Cursor}
    (ahead : c.rest = gap ++ (sign.text.toList ++ rest)) :
    ∃ t after, nextToken rules c = (.ok t, after) ∧ sign.Fits t ∧ after.rest = rest := by
  have layout := scanLayout_gap white rules.hashComments (solid.layout rest ends)
  have next : nextToken rules c = (.ok ⟨sign.kind, sign.text, ⟨c.position.afterAll gap,
      (c.position.afterAll gap).afterAll sign.text.toList⟩⟩,
      ⟨(c.position.afterAll gap).afterAll sign.text.toList, rest⟩) := by
    simp only [nextToken, ahead, layout, solid.scan rest ends, if_true, String.ofList_toList]
  exact ⟨_, _, next, ⟨rfl, rfl⟩, rfl⟩

/-- The tokens of a text that writes signs are what these signs are to be. -/
theorem Spaced.lexes (spaced : Spaced signs cs) (solid : Solids rules signs)
    {c : Cursor} (ahead : c.rest = cs) :
    ∃ tokens eof, Lexes rules c tokens (.ok eof) ∧ List.Forall₂ Sign.Fits signs tokens := by
  induction spaced generalizing c with
  | @blank gap white =>
    have layout : scanLayout rules.hashComments .gap (gap ++ []) = ⟨0, gap, []⟩ :=
      scanLayout_gap white _ rfl
    have next : nextToken rules c = (.ok ⟨.eof, "", ⟨c.position.afterAll gap,
        c.position.afterAll gap⟩⟩, ⟨c.position.afterAll gap, []⟩) := by
      rw [List.append_nil] at layout
      simp only [nextToken, ahead, layout, scanToken, if_true, Position.afterAll_nil]
    exact ⟨[], _, .eof next rfl, .nil⟩
  | @sign sign signs gap rest white ends spaced ih =>
    obtain ⟨t, after, next, fits, left⟩ :=
      nextToken_of_solid (solid sign List.mem_cons_self) white ends ahead
    obtain ⟨tokens, eof, lexes, all⟩ := ih (fun s mem => solid s (List.mem_cons_of_mem _ mem)) left
    have notEof : t.isEof = false := by
      rw [Token.isEof, fits.kind]
      exact beq_eq_false_iff_ne.mpr (solid sign List.mem_cons_self).notEof
    exact ⟨t :: tokens, eof, .token next notEof lexes, .cons fits all⟩

/-- The tape of a text that writes the signs of an expression offers them. -/
theorem Spaced.offers (spaced : Spaced signs cs) (solid : Solids rules signs)
    (numbered : Numbered 1 signs) : ∃ tokens eof, Lexes rules (.ofText cs) tokens (.ok eof) ∧
      Offers tokens signs (.ofText cs tokens (.ok eof)) := by
  obtain ⟨tokens, eof, lexes, fits⟩ := spaced.lexes solid (c := .ofText cs) rfl
  exact ⟨tokens, eof, lexes, lexes.along, rfl, ⟨eof, rfl⟩, fits, numbered⟩

/-- An entry for a whole text gives what it reads, if nothing is left behind it. -/
theorem Offers.run {Sym : Type → Type} {α : Type} {levels : List (TapeLevel Sym)}
    {tokens : List Token} {s : Tape} {entry : Rule Sym α} {said : α → Prop} (calm : s.cancelAfter = none)
    (reads : entry.Succeeds levels s fun value after => said value ∧ Offers tokens [] after) :
    entry.run.Succeeds levels s fun value _ => said value := by
  have whole : (complete entry).Succeeds levels s fun value _ => said value := by
    refine succeeds_bind.mpr (Succeeds.orElse (reads.mono fun value s ⟨holds, offers⟩ => ?_) calm _)
    refine succeeds_bind.mpr (offers.eatNot rfl (succeeds_bind.mpr (offers.check ?_)))
    exact (succeeds_pure _).mpr holds
  obtain ⟨value, after, read, holds⟩ := whole
  exact ⟨value, after, by simp only [Rule.run, Rule.read, read], holds⟩

/-- A text that writes signs with one blank in front of each. -/
def spacedOut (signs : List Sign) : List Char := signs.flatMap fun sign => ' ' :: sign.text.toList

/-- With one blank in front of each sign, a text writes its signs. -/
theorem spaced_spacedOut (signs : List Sign) : Spaced signs (spacedOut signs) := by
  induction signs with
  | nil =>
    have none : ∀ c ∈ ([] : List Char), isWhiteSpace c = true := by simp
    exact .blank none
  | cons sign signs ih =>
    have ends : EndsToken (spacedOut signs) := by
      cases signs with
      | nil => exact fun c first => by cases first
      | cons sign signs => exact fun c first => by cases first; rfl
    have white : ∀ c ∈ [' '], isWhiteSpace c = true := List.forall_mem_singleton.mpr rfl
    exact .sign white ends ih

/-- Every expression that can be written is what its text is parsed as: its signs one behind the
other, with any white space between them. -/
theorem Dialect.parse_written {d : Dialect} (builtin : d ∈ Dialect.builtin) {p : Phrase}
    (fits : p.Fits d.lexical d.features) (numbered : Numbered 1 (p.signs d.lexical))
    (shallow : p.nesting < maxNesting) {text : String}
    (spaced : Spaced (p.signs d.lexical) text.toList) :
    ∃ e, d.parse .expression text = .ok (.expression e) ∧ e.bare = p.expr := by
  have standard := Dialect.standard_of_builtin builtin
  have supported : ∀ d ∈ Dialect.builtin, d.supports .expression := by decide
  obtain ⟨tokens, eof, lexes, offers⟩ := spaced.offers (fits.solids standard) numbered
  rw [← List.append_nil (p.signs d.lexical)] at offers
  have reads : (entry d.features .expression).Succeeds (sqlLevels d.features maxNesting)
      (.ofText text.toList tokens (.ok eof)) fun m after =>
        (∃ e, m = .expression e ∧ e.bare = p.expr) ∧ Offers tokens [] after := by
    refine succeeds_bind.mpr ((readsBack standard maxNesting).whole fits shallow offers closes_end ?_)
    exact fun e after same offers => (succeeds_pure _).mpr ⟨⟨e, rfl, same⟩, offers⟩
  obtain ⟨m, after, read, e, rfl, same⟩ := Offers.run rfl reads
  exact ⟨e, Dialect.parse_of_read (supported d builtin) lexes read, same⟩

end

/-- A bounded column, and another one that is not NULL. -/
def boundedPhrase : Phrase :=
  .binary (.between (.column none ⟨"x", false⟩) (.integer 1) (.hole 1) false) .and
    (.unary .not (.isNull (.column none ⟨"y z", true⟩) false))

theorem boundedPhrase_fits : boundedPhrase.Fits Dialect.sqlite.lexical Dialect.sqlite.features := by
  have pair {p q : Phrase} {fits : Phrase → Prop} (first : fits p) (second : fits q) :
      ∀ r ∈ [p, q], fits r :=
    List.forall_mem_cons.mpr ⟨first, List.forall_mem_singleton.mpr second⟩
  have leaf {p : Phrase} (binds : p.Binds)
      (legible : p.Legible Dialect.sqlite.lexical Dialect.sqlite.features) (none : p.parts = []) :
      p.Fits Dialect.sqlite.lexical Dialect.sqlite.features :=
    .intro binds legible (by simp [none])
  have x : (Phrase.column none ⟨"x", false⟩).Fits Dialect.sqlite.lexical Dialect.sqlite.features :=
    leaf trivial ⟨.inr (by decide), fun _ => by decide⟩ rfl
  have y : (Phrase.column none ⟨"y z", true⟩).Fits Dialect.sqlite.lexical Dialect.sqlite.features :=
    leaf trivial ⟨.inl rfl, fun bare => by cases bare⟩ rfl
  have one : (Phrase.integer 1).Fits Dialect.sqlite.lexical Dialect.sqlite.features :=
    leaf trivial (by decide : 1 ≤ maxInteger) rfl
  have hole : (Phrase.hole 1).Fits Dialect.sqlite.lexical Dialect.sqlite.features :=
    leaf trivial trivial rfl
  refine .intro ⟨⟨by decide, trivial⟩, trivial⟩ trivial (pair ?_ ?_)
  · refine .intro ⟨trivial, trivial, trivial⟩ trivial (List.forall_mem_cons.mpr ⟨x, ?_⟩)
    exact pair one hole
  · refine .intro ⟨by decide, trivial⟩ trivial (List.forall_mem_singleton.mpr ?_)
    exact .intro trivial trivial (List.forall_mem_singleton.mpr y)

theorem Dialect.sqlite_parse_written : ∃ e, Dialect.sqlite.parse .expression
    " x BETWEEN 1 AND ? AND NOT \"y z\" IS NULL" = .ok (.expression e) ∧
      e.bare = boundedPhrase.expr := by
  refine Dialect.parse_written (by decide) boundedPhrase_fits rfl (by decide) ?_
  have written : " x BETWEEN 1 AND ? AND NOT \"y z\" IS NULL".toList =
      spacedOut (boundedPhrase.signs Dialect.sqlite.lexical) := by
    decide
  rw [written]
  exact spaced_spacedOut _

end SqlTree
