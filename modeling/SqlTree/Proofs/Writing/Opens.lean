import SqlTree.Proofs.Writing.Names

namespace SqlTree

/-- A sign that neither ends a list nor fills it by itself, and that spells none of some words. -/
structure Sign.Opens (words : List Keyword) (sign : Sign) : Prop where
  paren : sign.kind.sameKind .rightParen = false
  star : sign.kind.sameKind .star = false
  words : ∀ k ∈ words, sign.spells k = false

namespace Phrase

/-- No operator stands in front of the expression, behind it or between its parts. -/
def Standalone : Phrase → Prop
  | unary .. | binary .. | isNull .. | inList .. | between .. | like .. => False
  | _ => True

theorem nesting_lt_depths {q : Phrase} {ps : List Phrase} (mem : q ∈ ps) :
    q.nesting < depths ps := by
  induction ps with
  | nil => cases mem
  | cons p ps ih =>
    rw [depths]
    rcases List.mem_cons.mp mem with rfl | mem
    · omega
    · have := ih mem
      omega

theorem nesting_lt_depth {q : Phrase} {p : Option Phrase} (mem : q ∈ p.toList) :
    q.nesting < depth p := by
  cases p with
  | none => cases mem
  | some p =>
    obtain rfl := List.mem_singleton.mp mem
    exact Nat.lt_succ_self _

theorem nesting_lt_clause {q : Phrase} {c : Clause} (mem : q ∈ [c.condition, c.result]) :
    q.nesting < c.depth := by
  obtain ⟨condition, result⟩ := c
  rw [Clause.depth]
  simp only [List.mem_cons, List.not_mem_nil, or_false] at mem
  rcases mem with rfl | rfl <;> omega

theorem nesting_lt_clauses {q : Phrase} {cs : List Clause}
    (mem : q ∈ cs.flatMap fun c => [c.condition, c.result]) : q.nesting < Clause.depths cs := by
  induction cs with
  | nil => cases mem
  | cons c cs ih =>
    rw [Clause.depths]
    rcases List.mem_append.mp mem with mem | mem
    · have := nesting_lt_clause mem
      omega
    · have := ih mem
      omega

/-- The parts of an expression without operators are on a deeper level. -/
theorem Standalone.nesting_lt {p q : Phrase} (alone : p.Standalone) (mem : q ∈ p.parts) :
    q.nesting < p.nesting := by
  cases p with
  | call => exact nesting_lt_depths mem
  | paren | cast =>
    obtain rfl := List.mem_singleton.mp mem
    exact Nat.lt_succ_self _
  | caseWhen operand first rest otherwise =>
    simp only [parts, List.flatMap_cons, List.mem_append, or_assoc] at mem
    rw [nesting]
    rcases mem with mem | mem | mem | mem
    · have := nesting_lt_depth mem
      omega
    · have := nesting_lt_clause mem
      omega
    · have := nesting_lt_clauses mem
      omega
    · have := nesting_lt_depth mem
      omega
  | unary | binary | isNull | inList | between | like => exact alone.elim
  | _ => cases mem

end Phrase

section

variable {rules : LexicalRules} {f : Features} {k : Keyword} {l : Label} {p : Phrase}
  {words : List Keyword}

/-- A word opens what none of some words opens, unless it is one of them. -/
theorem opens_word (other : k ∉ words) : (Sign.word rules k).Opens words where
  paren := Sign.word_sameKind rules k _ rfl rfl
  star := Sign.word_sameKind rules k _ rfl rfl
  words := by
    intro j mem
    refine Sign.word_spells_ne rules ?_
    rintro rfl
    exact other mem

theorem Sign.Opens.mono {fewer : List Keyword} {sign : Sign} (opens : sign.Opens words)
    (sub : fewer ⊆ words) : sign.Opens fewer :=
  ⟨opens.paren, opens.star, fun k mem => opens.words k (sub mem)⟩

/-- The words that tell apart what an expression may follow. -/
def openingWords : List Keyword := [.SELECT, .DISTINCT, .WHEN]

/-- A sign with which an expression without operators begins. -/
structure Sign.Leads (sign : Sign) : Prop where
  opens : sign.Opens (.NOT :: openingWords)
  noSign : sign.kind.signOp? = none

/-- A word leads unless it tells apart what an expression may follow. -/
theorem leads_word (other : k ∉ Keyword.NOT :: openingWords) : (Sign.word rules k).Leads := by
  refine ⟨opens_word other, ?_⟩
  rcases Sign.word_kind rules k with kind | kind <;> rw [kind] <;> rfl

/-- A name with which an expression may start leads. -/
theorem Label.Leads.leads (leads : l.Leads rules) (standard : rules.Standard) :
    (Sign.name rules l).Leads := by
  have kind := leads.1.kind
  refine ⟨⟨by rw [kind]; rfl, by rw [kind]; rfl, fun k mem => ?_⟩, by rw [kind]; rfl⟩
  have reserved : ∀ k ∈ Keyword.NOT :: openingWords, k ∈ [Keyword.SELECT, .DISTINCT, .AND, .OR,
    .NOT, .NULL, .AS, .CASE, .WHEN, .THEN, .ELSE, .END, .CAST] := by decide
  exact leads.not_spells standard (.inr (standard.reserved k (reserved k mem)))

/-- A name of a function that is a reserved word is its keyword. -/
theorem Sign.name_kind_of_reserved (bare : l.quoted = false)
    (known : rules.keywords.classify? l.value = some k) :
    Sign.name rules l = ⟨l.value, .keyword k, none⟩ := by
  rw [Sign.name, bare, if_neg Bool.false_ne_true, Sign.bare, known]

theorem Label.Calls.leads (calls : l.Calls rules) (standard : rules.Standard) :
    (Sign.name rules l).Leads := by
  rcases calls with leads | ⟨bare, -, k, mem, known⟩
  · exact leads.leads standard
  · rw [Sign.name_kind_of_reserved bare known]
    refine ⟨⟨rfl, rfl, fun j mem' => ?_⟩, rfl⟩
    have differ : ∀ k ∈ SqlRule.functionKeywords, ∀ j ∈ Keyword.NOT :: openingWords,
        (k == j) = false := by decide
    exact differ k mem j mem'

/-- An expression without operators begins with a sign that leads. -/
theorem Phrase.Standalone.leads (alone : p.Standalone) (legible : p.Legible rules f)
    (standard : rules.Standard) (more : List Sign) :
    (front (p.signs rules ++ more)).Leads := by
  have plain {sign : Sign} (other : ∀ k ∈ Keyword.NOT :: openingWords, sign.spells k = false)
      (paren : sign.kind.sameKind .rightParen = false) (star : sign.kind.sameKind .star = false)
      (noSign : sign.kind.signOp? = none) : sign.Leads := ⟨⟨paren, star, other⟩, noSign⟩
  cases p with
  | boolean value => cases value <;> exact leads_word (by decide)
  | null | caseWhen | cast => exact leads_word (by decide)
  | column table name =>
    cases table with
    | none => exact Label.Leads.leads legible standard
    | some table => exact legible.1.leads standard
  | call => exact Label.Calls.leads legible standard
  | unary | binary | isNull | inList | between | like => exact alone.elim
  | _ => exact plain (fun _ _ => rfl) rfl rfl rfl

/-- Every expression that fits begins with a sign that opens it. -/
theorem Phrase.Fits.opens (fits : p.Fits rules f) (standard : rules.Standard) (more : List Sign) :
    (front (p.signs rules ++ more)).Opens openingWords := by
  induction fits generalizing more with
  | @intro p binds legible parts ih =>
    cases p with
    | unary op operand =>
      cases op with
      | neg | bitNot => exact ⟨rfl, rfl, fun _ _ => rfl⟩
      | not => exact opens_word (by decide)
    | binary left | isNull left | inList left | between left | like left =>
      simp only [signs, List.append_assoc]
      exact ih left (by simp [Phrase.parts]) _
    | _ =>
      refine (Standalone.leads (f := f) ?_ legible standard more).opens.mono (by simp)
      trivial

end

end SqlTree
