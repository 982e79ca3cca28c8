import Mathlib.Data.List.Forall2
import SqlTree.Proofs.Reading.Succeeds
import SqlTree.Proofs.Tree.Laid
import SqlTree.Proofs.Writing.Words

namespace SqlTree

open Rule

/-- A token is what a sign was to be. -/
structure Sign.Fits (sign : Sign) (t : Token) : Prop where
  kind : t.kind = sign.kind
  text : t.text = sign.text

theorem Sign.Fits.spells {sign : Sign} {t : Token} (fits : sign.Fits t) (k : Keyword) :
    t.spells k = sign.spells k := by
  rw [Sign.spells, Token.spells, Token.spells, fits.kind, fits.text]

/-- The first of some signs; behind the last one the text ends. -/
def front : List Sign → Sign
  | [] => ⟨"", .eof, none⟩
  | sign :: _ => sign

/-- The tokens in front of a tape on its way through a text are what some signs were to be, and
nothing stands in the way of its end. -/
structure Offers (tokens : List Token) (signs : List Sign) (s : Tape) : Prop where
  along : s.Along tokens
  calm : s.cancelAfter = none
  eof : ∃ eof, s.stop = .ok eof
  fits : List.Forall₂ Sign.Fits signs s.tokens
  numbered : Numbered (s.params + 1) signs

namespace Offers

variable {Sym : Type → Type} {α : Type} {levels : List (TapeLevel Sym)} {tokens : List Token}
  {sign : Sign} {signs : List Sign} {s : Tape} {kind : TokenKind} {k : Keyword}

/-- The next token is what the first sign was to be, or the end of the text. -/
theorem peek (offers : Offers tokens signs s) : ∃ t, s.peek = .ok t ∧ t.kind = (front signs).kind ∧
    ∀ k, t.spells k = (front signs).spells k := by
  have fits := offers.fits
  unfold Tape.peek
  cases eq : s.tokens with
  | nil =>
    rw [eq, List.forall₂_nil_right_iff] at fits
    obtain ⟨eof, ended⟩ := offers.eof
    have isEof : eof.kind = .eof := by simpa [Token.isEof] using offers.along.eof eof ended
    refine ⟨eof, by rw [ended]; rfl, by rw [fits, isEof]; rfl, fun k => ?_⟩
    rw [fits, Token.spells, isEof]
    rfl
  | cons t rest =>
    rw [eq] at fits
    obtain ⟨sign, signs', first, -, rfl⟩ := List.forall₂_cons_right_iff.mp fits
    exact ⟨t, rfl, first.kind, first.spells⟩

/-- The tokens that are left begin with the one that the first sign was to be. -/
theorem uncons (offers : Offers tokens (sign :: signs) s) :
    ∃ t rest, s.tokens = t :: rest ∧ sign.Fits t ∧ List.Forall₂ Sign.Fits signs rest := by
  obtain ⟨t, rest, first, others, eq⟩ := List.forall₂_cons_left_iff.mp offers.fits
  exact ⟨t, rest, eq, first, others⟩

theorem start (offers : Offers tokens signs s) {post : Position → Tape → Prop}
    (next : ∀ p, post p s) : (Rule.start : Rule Sym Position).Succeeds levels s post := by
  obtain ⟨t, shown, -⟩ := offers.peek
  exact (succeeds_start shown).mpr (next _)

theorem check (offers : Offers tokens signs s) {post : Bool → Tape → Prop}
    (next : post ((front signs).kind.sameKind kind) s) :
    (Rule.check kind : Rule Sym Bool).Succeeds levels s post := by
  obtain ⟨t, shown, same, -⟩ := offers.peek
  rw [succeeds_check shown, same]
  exact next

theorem checkKeyword (offers : Offers tokens signs s) {post : Bool → Tape → Prop}
    (next : post ((front signs).spells k) s) :
    (Rule.checkKeyword k : Rule Sym Bool).Succeeds levels s post := by
  obtain ⟨t, shown, -, same⟩ := offers.peek
  rw [succeeds_checkKeyword shown, same]
  exact next

/-- The next token is what the first sign was to be. -/
theorem peekNext (offers : Offers tokens (sign :: signs) s) {post : Token → Tape → Prop}
    (next : ∀ t, sign.Fits t → post t s) : (Rule.peek : Rule Sym Token).Succeeds levels s post := by
  obtain ⟨t, rest, eq, fits, -⟩ := offers.uncons
  have shown : s.peek = .ok t := by rw [Tape.peek, eq]
  exact (succeeds_peek shown).mpr (next t fits)

theorem moves (offers : Offers tokens (sign :: signs) s) :
    ∃ t rest, s.bump = (.ok t, { s with tokens := rest, lastEnd := t.span.stop }) ∧ sign.Fits t ∧
      s.Moves [t] { s with tokens := rest, lastEnd := t.span.stop } ∧
        List.Forall₂ Sign.Fits signs rest := by
  obtain ⟨t, rest, eq, fits, others⟩ := offers.uncons
  exact ⟨t, rest, by rw [Tape.bump, eq], fits, ⟨rfl, rfl, eq, rfl⟩, others⟩

/-- To consume a token leaves what the other signs were to be. -/
theorem bump (offers : Offers tokens (sign :: signs) s) (plain : sign.number = none)
    {post : Token → Tape → Prop}
    (next : ∀ t after, sign.Fits t → Offers tokens signs after → post t after) :
    (Rule.bump : Rule Sym Token).Succeeds levels s post := by
  obtain ⟨t, rest, bumped, fits, moves, others⟩ := offers.moves
  have numbered := offers.numbered
  simp only [Numbered, List.filterMap_cons, plain] at numbered
  exact ⟨t, _, bumped, next t _ fits ⟨offers.along.moves moves, offers.calm, offers.eof, others, numbered⟩⟩

/-- A placeholder gets the next number. -/
theorem hole {number : Nat} {rest : Nat → Rule Sym α} (offers : Offers tokens (.hole number :: signs) s)
    {post : α → Tape → Prop}
    (next : ∀ after, Offers tokens signs after → (rest number).Succeeds levels after post) :
    (do
      let _ ← Rule.bump
      let position ← nextParam
      rest position).Succeeds levels s post := by
  obtain ⟨t, tail, bumped, fits, moves, others⟩ := offers.moves
  have numbered := offers.numbered
  simp only [Numbered, List.filterMap_cons, Sign.hole, List.length_cons, List.range'_succ,
    List.cons.injEq] at numbered
  obtain ⟨rfl, numbered⟩ := numbered
  refine succeeds_bind.mpr ⟨t, _, bumped, succeeds_bind.mpr ⟨_, _, rfl, next _ ?_⟩⟩
  refine ⟨?_, offers.calm, offers.eof, others, numbered⟩
  exact (offers.along.moves moves).moves (.of_place rfl rfl rfl rfl)

theorem eat (offers : Offers tokens (sign :: signs) s) (same : sign.kind.sameKind kind = true)
    (plain : sign.number = none) {post : Bool → Tape → Prop}
    (next : ∀ after, Offers tokens signs after → post true after) :
    (Rule.eat kind : Rule Sym Bool).Succeeds levels s post := by
  rw [Rule.eat, succeeds_bind]
  refine offers.check ?_
  rw [front, same, if_pos rfl, succeeds_bind]
  exact offers.bump plain fun t after _ offers => (succeeds_pure _).mpr (next after offers)

/-- What is not found is not consumed. -/
theorem eatNot (offers : Offers tokens signs s) (other : (front signs).kind.sameKind kind = false)
    {post : Bool → Tape → Prop} (next : post false s) :
    (Rule.eat kind : Rule Sym Bool).Succeeds levels s post := by
  rw [Rule.eat, succeeds_bind]
  refine offers.check ?_
  rw [other]
  exact (succeeds_pure _).mpr next

theorem eatKeyword (offers : Offers tokens (sign :: signs) s) (spells : sign.spells k = true)
    (plain : sign.number = none) {post : Bool → Tape → Prop}
    (next : ∀ after, Offers tokens signs after → post true after) :
    (Rule.eatKeyword k : Rule Sym Bool).Succeeds levels s post := by
  rw [Rule.eatKeyword, succeeds_bind]
  refine offers.checkKeyword ?_
  rw [front, spells, if_pos rfl, succeeds_bind]
  exact offers.bump plain fun t after _ offers => (succeeds_pure _).mpr (next after offers)

theorem eatKeywordNot (offers : Offers tokens signs s) (other : (front signs).spells k = false)
    {post : Bool → Tape → Prop} (next : post false s) :
    (Rule.eatKeyword k : Rule Sym Bool).Succeeds levels s post := by
  rw [Rule.eatKeyword, succeeds_bind]
  refine offers.checkKeyword ?_
  rw [other]
  exact (succeeds_pure _).mpr next

/-- A token that was written can be expected. -/
theorem expect (offers : Offers tokens (sign :: signs) s) (same : sign.kind.sameKind kind = true)
    (plain : sign.number = none) {post : Token → Tape → Prop}
    (next : ∀ t after, Offers tokens signs after → post t after) :
    (Rule.expect kind : Rule Sym Token).Succeeds levels s post := by
  rw [Rule.expect, succeeds_bind]
  refine offers.check ?_
  rw [front, same, if_pos rfl]
  exact offers.bump plain fun t after _ => next t after

theorem expectKeyword (offers : Offers tokens (sign :: signs) s) (spells : sign.spells k = true)
    (plain : sign.number = none) {post : Token → Tape → Prop}
    (next : ∀ t after, Offers tokens signs after → post t after) :
    (Rule.expectKeyword k : Rule Sym Token).Succeeds levels s post := by
  rw [Rule.expectKeyword, succeeds_bind]
  refine offers.checkKeyword ?_
  rw [front, spells, if_pos rfl]
  exact offers.bump plain fun t after _ => next t after

/-- A word that was written is found. -/
theorem eatWord {rules : LexicalRules} (offers : Offers tokens (.word rules k :: signs) s)
    {post : Bool → Tape → Prop} (next : ∀ after, Offers tokens signs after → post true after) :
    (Rule.eatKeyword k : Rule Sym Bool).Succeeds levels s post :=
  offers.eatKeyword (Sign.word_spells_self rules k) rfl next

theorem expectWord {rules : LexicalRules} (offers : Offers tokens (.word rules k :: signs) s)
    {post : Token → Tape → Prop} (next : ∀ t after, Offers tokens signs after → post t after) :
    (Rule.expectKeyword k : Rule Sym Token).Succeeds levels s post :=
  offers.expectKeyword (Sign.word_spells_self rules k) rfl next

/-- To put a mismatch aside changes nothing in front of the tape. -/
theorem note (offers : Offers tokens signs s) (m : Mismatch) : Offers tokens signs (s.note m) :=
  ⟨offers.along.moves (.of_place rfl rfl rfl rfl), offers.calm, offers.eof, offers.fits, offers.numbered⟩

/-- A tape in front of which fewer signs are left is further on. -/
theorem lastEnd_lt {more : List Sign} {after : Tape} (offers : Offers tokens signs s)
    (offers' : Offers tokens more after) (fewer : more.length < signs.length) :
    s.lastEnd.offset < after.lastEnd.offset := by
  refine offers.along.lastEnd_lt_of_length offers'.along ?_
  rwa [← offers.fits.length_eq, ← offers'.fits.length_eq]

end Offers

end SqlTree
