import SqlTree.Proofs.Lexing.Pieces
import SqlTree.Proofs.Writing.Texts

namespace SqlTree

/-- Characters that write signs one behind the other, and go on with others. -/
inductive Tight (rules : LexicalRules) (rest : List Char) : List Sign → List Char → Prop
  | nil : Tight rules rest [] rest
  | sign {s signs gap cs} : (∀ c ∈ gap, isWhiteSpace c = true) → s.Scans rules cs → Tight rules rest signs cs →
      Tight rules rest (s :: signs) (gap ++ (s.text.toList ++ cs))

section

variable {rules : LexicalRules} {sign : Sign} {signs : List Sign} {gap cs rest : List Char} {c : Char}
  {kind : TokenKind}

/-- White space in front of a sign changes nothing about it. -/
theorem nextToken_of_scans (scans : sign.Scans rules rest) (white : ∀ c ∈ gap, isWhiteSpace c = true)
    (p : Position) : ∃ t, nextToken rules ⟨p, gap ++ (sign.text.toList ++ rest)⟩ =
      (.ok t, ⟨p.afterAll (gap ++ sign.text.toList), rest⟩) ∧ sign.Fits t := by
  have layout := scanLayout_gap white rules.hashComments scans.layout
  refine ⟨⟨sign.kind, sign.text, ⟨p.afterAll gap, p.afterAll (gap ++ sign.text.toList)⟩⟩, ?_, ⟨rfl, rfl⟩⟩
  simp only [nextToken, layout, scans.scan, if_true, String.ofList_toList, Position.afterAll_append]

/-- The tokens of the signs stand in front of those of what the text goes on with. -/
theorem Tight.lexes (tight : Tight rules rest signs cs) : ∃ read, cs = read ++ rest ∧
    ∀ {p : Position} {tokens : List Token} {stop : Except LexError Token},
      Lexes rules ⟨p.afterAll read, rest⟩ tokens stop →
      ∃ used, Lexes rules ⟨p, cs⟩ (used ++ tokens) stop ∧ List.Forall₂ Sign.Fits signs used := by
  induction tight with
  | nil => exact ⟨[], rfl, fun lexes => ⟨[], lexes, .nil⟩⟩
  | @sign s signs gap cs white scans tight ih =>
    obtain ⟨read, rfl, behind⟩ := ih
    refine ⟨gap ++ (s.text.toList ++ read), by simp, fun {p _ _} lexes => ?_⟩
    obtain ⟨t, next, fits⟩ := nextToken_of_scans scans white p
    rw [← List.append_assoc, Position.afterAll_append] at lexes
    obtain ⟨used, lexes, all⟩ := behind lexes
    have notEof : t.isEof = false := by
      rw [Token.isEof, fits.kind]
      exact beq_eq_false_iff_ne.mpr scans.notEof
    exact ⟨t :: used, .token next notEof lexes, .cons fits all⟩

/-- A text that writes signs has just their tokens. -/
theorem Tight.whole (tight : Tight rules [] signs cs) : ∃ tokens eof, Lexes rules (.ofText cs) tokens (.ok eof) ∧
    List.Forall₂ Sign.Fits signs tokens := by
  obtain ⟨read, -, behind⟩ := tight.lexes
  have ended : Lexes rules ⟨Position.start.afterAll read, []⟩ [] (.ok ⟨.eof, "", ⟨_, _⟩⟩) := .eof rfl rfl
  obtain ⟨used, lexes, fits⟩ := behind ended
  rw [List.append_nil] at lexes
  exact ⟨used, _, lexes, fits⟩

/-- A mark that is one character long, and that nothing makes longer. -/
theorem scans_mark (standard : rules.Standard) (noQuote : c ∉ quoteChars) (isSign : c ∈ signChars)
    (noComment : c ∉ ['#', '-', '/']) (found : ∀ cs, symbol? (c :: cs) = some (kind, 1)) (notEof : kind ≠ .eof)
    (written : sign.text.toList = [c]) (same : sign.kind = kind) : sign.Scans rules rest := by
  simp only [List.mem_cons, List.not_mem_nil, or_false, not_or] at noComment
  refine ⟨same ▸ notEof, ?_, ?_⟩
  · rw [written]
    exact scanLayout_ends (isWhiteSpace_signChar isSign) noComment.1 (fun dash => absurd dash noComment.2.1)
      (fun slash => absurd slash noComment.2.2) _
  · rw [written, List.singleton_append, scanToken_symbol standard noQuote (found rest), same]
    rfl

/-- Signs of a type that are one character long. -/
theorem scans_leftParen (standard : rules.Standard) : Sign.leftParen.Scans rules rest :=
  scans_mark standard (by decide) (by decide) (by decide) (fun _ => rfl) (by decide) rfl rfl

theorem scans_rightParen (standard : rules.Standard) : Sign.rightParen.Scans rules rest :=
  scans_mark standard (by decide) (by decide) (by decide) (fun _ => rfl) (by decide) rfl rfl

theorem scans_comma (standard : rules.Standard) : Sign.comma.Scans rules rest :=
  scans_mark standard (by decide) (by decide) (by decide) (fun _ => rfl) (by decide) rfl rfl

/-- A word ends at a blank. -/
theorem breaks_blank (cs : List Char) : Breaks (' ' :: cs) := by
  rintro c ⟨⟩
  exact .inl rfl

theorem breaks_mark {c : Char} (mark : c ∈ ['(', ')', ',']) (cs : List Char) : Breaks (c :: cs) := by
  rintro d ⟨⟩
  exact .inr mark

/-- Numbers between parentheses, as they are written behind the name of a type. -/
def argumentChars : List Nat → List Char
  | [] => []
  | n :: ns => '(' :: (n.repr.toList ++ (ns.flatMap (fun n => ',' :: ' ' :: n.repr.toList) ++ [')']))

/-- Numbers between parentheses, with a comma and a blank between two of them. -/
theorem tight_arguments (standard : rules.Standard) {ns : List Nat} (small : ∀ n ∈ ns, n ≤ maxInteger) :
    Breaks (argumentChars ns) ∧ Tight rules [] (Sign.arguments ns) (argumentChars ns) := by
  have noGap : ∀ c ∈ ([] : List Char), isWhiteSpace c = true := nofun
  have blank : ∀ c ∈ [' '], isWhiteSpace c = true := by
    simp only [List.mem_singleton, forall_eq]
    rfl
  cases ns with
  | nil => exact ⟨nofun, .nil⟩
  | cons n ns =>
    obtain ⟨first, others⟩ := List.forall_mem_cons.mp small
    have behind : Breaks (ns.flatMap (fun n => ',' :: ' ' :: n.repr.toList) ++ [')']) ∧ Tight rules []
        (ns.flatMap (fun n => [.comma, .integer n]) ++ [.rightParen])
        (ns.flatMap (fun n => ',' :: ' ' :: n.repr.toList) ++ [')']) := by
      clear small
      induction ns with
      | nil => exact ⟨breaks_mark (by decide) [], .sign noGap (scans_rightParen standard) .nil⟩
      | cons m ns ih =>
        obtain ⟨le, others⟩ := List.forall_mem_cons.mp others
        obtain ⟨ends, tight⟩ := ih others
        have integer := Tight.sign blank (scans_integer standard le ends) tight
        have comma := Tight.sign noGap (scans_comma standard) integer
        rw [List.flatMap_cons, List.flatMap_cons, List.append_assoc, List.append_assoc]
        exact ⟨breaks_mark (by decide) _, comma⟩
    have integer := Tight.sign noGap (scans_integer standard first behind.1) behind.2
    exact ⟨breaks_mark (by decide) _, .sign noGap (scans_leftParen standard) integer⟩

/-- A type that all dialects share is written as a word with its arguments. -/
theorem DataType.sql_toList {type : DataType} (legible : type.Legible) :
    type.sql.toList = type.parts.1.toList ++ argumentChars type.parts.2 := by
  have one (name : String) (length : Option Nat) :
      (withLength name length).toList = name.toList ++ argumentChars length.toList := by
    cases length with
    | none => exact (List.append_nil _).symm
    | some n =>
      rw [withLength, show s!"{name}({n})" = name ++ "(" ++ n.repr ++ ")" from rfl]
      simp [argumentChars]
  have two (name : String) (precision scale : Option Nat) (behind : scale.isSome = true → precision.isSome = true) :
      (withScale name precision scale).toList =
        name.toList ++ argumentChars (precision.toList ++ scale.toList) := by
    cases precision with
    | none =>
      cases scale with
      | none => exact (List.append_nil _).symm
      | some => cases behind rfl
    | some n =>
      cases scale with
      | none =>
        rw [withScale, show s!"{name}({n})" = name ++ "(" ++ n.repr ++ ")" from rfl]
        simp [argumentChars]
      | some m =>
        rw [withScale, show s!"{name}({n}, {m})" = name ++ "(" ++ n.repr ++ ", " ++ m.repr ++ ")" from rfl]
        simp [argumentChars]
  cases type with
  | decimal | numeric => exact two _ _ _ legible.2.2
  | char | varchar | binary | varbinary => exact one _ _
  | custom => exact legible.elim
  | _ => exact (List.append_nil _).symm

/-- The text of a type that all dialects share writes its name and its arguments. -/
theorem tight_type (standard : rules.Standard) {type : DataType} (legible : type.Legible) :
    Tight rules [] (type.signs rules) type.sql.toList := by
  have noGap : ∀ c ∈ ([] : List Char), isWhiteSpace c = true := nofun
  obtain ⟨breaks, tight⟩ := tight_arguments standard legible.le_maxInteger
  rw [DataType.sql_toList legible]
  exact .sign noGap (scans_bare standard legible.isBareWord breaks) tight

/-- No placeholder stands among the arguments of a type. -/
theorem unnumbered_arguments (ns : List Nat) : (Sign.arguments ns).filterMap (·.number) = [] := by
  rw [List.filterMap_eq_nil_iff]
  cases ns with
  | nil => nofun
  | cons n ns =>
    intro sign mem
    rw [Sign.arguments, List.mem_append, List.mem_cons, List.mem_cons, List.mem_flatMap, List.mem_singleton] at mem
    obtain (rfl | rfl | ⟨_, _, mem⟩) | rfl := mem
    · rfl
    · rfl
    · simp only [List.mem_cons, List.not_mem_nil, or_false] at mem
      obtain rfl | rfl := mem <;> rfl
    · rfl

/-- No placeholder is counted in a type. -/
theorem numbered_type (rules : LexicalRules) (type : DataType) (first : Nat) :
    Numbered first (type.signs rules) := by
  have plain : (type.signs rules).filterMap (·.number) = [] :=
    (List.filterMap_cons_none rfl).trans (unnumbered_arguments type.parts.2)
  rw [Numbered, plain]
  rfl

end

end SqlTree
