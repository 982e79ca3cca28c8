import SqlTree.Proofs.Diverging.Sketch
import SqlTree.Proofs.Errors.Owns
import SqlTree.Proofs.Lexing.Quoted
import SqlTree.Proofs.Lockstep.Sheet
import SqlTree.Proofs.Reading.Awaits

namespace SqlTree

open Rule SqlRule

/-- The lens of names that shows the ones at a place as quoted. -/
def Ident.quotedAt (place : Span) (i : Ident) : Ident :=
  if i.span = place then ⟨i.value, true, .nothing⟩ else i.bare

/-- Whether tokens of a kind are words or quoted names. -/
def TokenKind.isWord : TokenKind → Bool
  | .identifier _ | .keyword _ => true
  | _ => false

/-- The words that an operator begins with. -/
def operatorWords (f : Features) : List Keyword :=
  [.IS, .NOT, .IN, .BETWEEN, .LIKE] ++ if f.ilike then [.ILIKE] else []

/-- A token with which no operand and no operator goes on. -/
structure Token.EndsExpr (f : Features) (t : Token) : Prop where
  kind : t.kind.isWord = true ∨ t.kind = .comma ∨ t.kind = .eof
  binary : t.kind.binaryOp? = none
  words : ∀ k ∈ operatorWords f, t.spells k = false
  select : t.spells .SELECT = false

/-- Whether a token is an unreserved word and no quoted name. -/
def Token.isPlainWord (t : Token) (word : String) : Bool :=
  match t.kind with
  | .identifier _ => sameWord t.text word
  | _ => false

/-- A type written in some words, and without arguments, goes on with one more word. -/
inductive TypeGoesOn : List Token → Token → Prop
  | precision {first t : Token} {name : String} : first.typeWord? true = some name →
      sameWord name "DOUBLE" = true → t.spells .PRECISION = true → TypeGoesOn [first] t
  | varying {first t : Token} {name : String} : first.typeWord? true = some name →
      sameWord name "CHARACTER" = true → t.isPlainWord "VARYING" = true → TypeGoesOn [first] t
  | verbatim {first t : Token} {words : List Token} {name word : String} :
      first.typeWord? true = some name → DataType.argumentsOf name = .verbatim →
      (∀ u ∈ words, u.typeWord? false ≠ none) → t.typeWord? false = some word →
      TypeGoesOn (first :: words) t

/-- The words of the clause that the rest of a query may be. -/
def limitWords : List Keyword := [.LIMIT, .OFFSET]

/-- Two texts with the same tokens up to a spot. -/
structure Diverging (f : Features) where
  left : Sheet
  right : Sheet
  /-- How many tokens they have in common. -/
  spot : Nat
  /-- Whether there is a name at the spot, quoted in the second text, behind which they are alike. -/
  rejoins : Prop
  value : String
  /-- How many placeholders were counted before in the second text, and in the first one. -/
  ahead : Nat
  behind : Nat
  spot_le : spot ≤ left.length
  spot_le_right : spot ≤ right.length
  isEof : left.closing.isEof = true
  isEof_right : right.closing.isEof = true
  like : ∀ i, i < spot ∨ rejoins ∧ spot < i → (left.tokenAt i).Like (right.tokenAt i)
  length : rejoins → right.length = left.length
  lt : rejoins → spot < left.length
  /-- The name is a word or quoted, or a reserved word that is let through. -/
  named : rejoins → (left.tokenAt spot).kind = .identifier value ∨
    (left.tokenAt spot).isKeyword = true ∧ (left.tokenAt spot).text = value
  kind : rejoins → (right.tokenAt spot).kind = .identifier value
  isQuoted : rejoins → (right.tokenAt spot).isQuoted = true
  /-- A quoted name is no word. -/
  unlike : rejoins → ∀ word : String, (∃ c cs, word.toList = c :: cs ∧ c.toLower.isAlpha = true) →
    sameWord (right.tokenAt spot).text word = false
  ends : (right.tokenAt spot).EndsExpr f
  /-- No type behind the sign of a cast goes on over the spot. -/
  casts : ∀ i < spot, (left.tokenAt i).kind = .doubleColon →
    ¬ TypeGoesOn ((left.tokens.take spot).drop (i + 1)) (right.tokenAt spot)
  written : ∀ i j, i < j → j ≤ left.length → j ≤ spot ∨ rejoins ∧ spot < i →
    right.written i j = left.written i j
  telling : ∀ i, (left.tokenAt i).Telling
  /-- How the places of both texts are shown, such that corresponding ones are shown alike. -/
  place : Position → Position
  place' : Position → Position
  /-- Behind a name that is in quotes no places are shown. -/
  placeless : rejoins → place = (fun _ => .start) ∧ place' = fun _ => .start
  shown_placed : ∀ p, place' (place p) = place p
  start_placed : ∀ i ≤ left.length, i < spot ∨ rejoins → place (left.startAt i) = place' (right.startAt i)
  stop_placed : ∀ i ≤ left.length, ∀ p, place (left.startAt i) = place' p → ∀ j ≤ left.length,
    j ≤ spot ∨ rejoins →
      place ((left.stopAt j).later (left.startAt i)) = place' ((right.stopAt j).later p)

/-- A tape stands at one place only. -/
theorem Tape.At.same {sheet : Sheet} {s : Tape} {i j : Nat} (here : s.At sheet i)
    (there : s.At sheet j) : i = j := by
  have ends : sheet.stopAt i = sheet.stopAt j := here.lastEnd.symm.trans there.lastEnd
  rcases Nat.lt_trichotomy i j with lt | rfl | lt
  · have := sheet.stopAt_lt lt there.within
    rw [ends] at this
    omega
  · rfl
  · have := sheet.stopAt_lt lt here.within
    rw [ends] at this
    omega

/-- Behind the first `i` tokens of a sheet a rule comes to a value and behind the first `k` tokens. -/
def Rule.Comes {β : Type} (rule : SqlRule β) (levels : List (TapeLevel Symbol)) (sheet : Sheet)
    (i : Nat) (b : β) (k : Nat) : Prop :=
  ∀ s : Tape, s.At sheet i → rule.Succeeds levels s fun value after =>
    value = b ∧ after.At sheet k ∧ after.params = s.params

/-- Behind the first `i` tokens of a sheet a rule fails. -/
def Rule.Never {β : Type} (rule : SqlRule β) (levels : List (TapeLevel Symbol)) (sheet : Sheet)
    (i : Nat) : Prop :=
  ∀ s : Tape, s.At sheet i → rule.Yields levels s fun _ _ => False

/-- A rule that succeeds gives what it has to. -/
theorem Rule.Succeeds.yields {α : Type} {rule : SqlRule α} {levels : List (TapeLevel Symbol)} {s : Tape}
    {post : α → Tape → Prop} (succeeds : rule.Succeeds levels s post) : rule.Yields levels s post := by
  obtain ⟨value, after, read, holds⟩ := succeeds
  intro value' after' read'
  obtain ⟨same, rfl⟩ := Prod.mk.inj (read.symm.trans read')
  cases same
  exact holds

namespace Diverging

section

variable {f : Features} (q : Diverging f) {α β : Type} [Visible α] [Visible β] {limit i j k : Nat}

/-- The name in quotes is no word. -/
theorem noWord (rejoins : q.rejoins) (k : Keyword) : (q.right.tokenAt q.spot).spells k = false := by
  rw [Token.spells, q.kind rejoins]
  exact q.unlike rejoins _ k.spelling_letter

/-- Where the name stands in the first text, or where the texts part. -/
def here : Span := (q.left.tokenAt q.spot).span

/-- The number in the second text of a placeholder of the first one. -/
def number (n : Nat) : Nat := n + q.ahead - q.behind

/-- The texts are alike from one place to another. -/
def Alike (i j : Nat) : Prop := j ≤ q.spot ∨ q.rejoins ∧ q.spot < i

/-- Both texts are read up to a place. -/
def Reads (i : Nat) : Prop := i ≤ q.spot ∨ q.rejoins

/-- The next tokens are alike. -/
def Clean (i : Nat) : Prop := i < q.spot ∨ q.rejoins ∧ q.spot < i

/-- The next tokens are alike, or both are the name. -/
def Inside (i : Nat) : Prop := i < q.spot ∨ q.rejoins

variable {q} in
/-- Where the next tokens are alike a run may go on. -/
theorem Clean.inside (clean : q.Clean i) : q.Inside i := clean.imp id And.left

variable {q} in
/-- Where a run may go on it reads both texts. -/
theorem Inside.reads (inside : q.Inside i) : q.Reads i := inside.imp Nat.le_of_lt id

variable {q} in
/-- Texts that are alike up to a place are both read up to every place in front of it. -/
theorem Alike.reads (alike : q.Alike i j) (le : i ≤ j) : q.Reads i :=
  alike.imp (Nat.le_trans le) And.left

/-- From a place to itself there is nothing to be alike. -/
theorem alike_self : q.Alike i i ↔ q.Reads i := by
  refine ⟨fun alike => alike.reads (Nat.le_refl i), fun reads => ?_⟩
  rcases reads with le | rejoins
  · exact .inl le
  · rcases Nat.lt_or_ge q.spot i with lt | le
    · exact .inr ⟨rejoins, lt⟩
    · exact .inl le

theorem alike_succ : q.Alike i (i + 1) ↔ q.Clean i := Iff.rfl

variable {q} in
/-- Texts are alike within what is alike. -/
theorem Alike.mono (alike : q.Alike i j) {i' j' : Nat} (le : i ≤ i') (le' : j' ≤ j) : q.Alike i' j' :=
  alike.imp (Nat.le_trans le') fun ⟨rejoins, lt⟩ => ⟨rejoins, Nat.lt_of_lt_of_le lt le⟩

/-- The next tokens are alike everywhere but at the spot. -/
theorem clean_of_ne (reads : q.Reads i) (ne : i ≠ q.spot) : q.Clean i := by
  rcases reads with le | rejoins
  · exact .inl (Nat.lt_of_le_of_ne le ne)
  · rcases Nat.lt_or_gt_of_ne ne with lt | gt
    · exact .inl lt
    · exact .inr ⟨rejoins, gt⟩

variable {q} in
theorem Clean.ne (clean : q.Clean i) : i ≠ q.spot := by
  rcases clean with lt | ⟨-, lt⟩ <;> omega

variable {q} in
/-- What leads further leads here. -/
theorem Inside.mono (inside : q.Inside j) (le : i ≤ j) : q.Inside i :=
  inside.imp (Nat.lt_of_le_of_lt le) id

/-- A way to show names that leaves all of them as they are but the one at the spot. -/
structure Shows (name : Ident → Ident) : Prop where
  rejoins : q.rejoins
  bare : ∀ i, (name i).bare = name i
  other : ∀ i : Ident, i.span ≠ q.here → name i = i.bare

/-- The lens of a model of the first text in which nothing but the places and numbers is changed. -/
def plain : Lens := .placing q.place q.number

open Classical in
/-- The lens of a model of the first text that shows what the second text has. -/
noncomputable def shown : Lens :=
  { q.plain with name i := if q.rejoins then i.quotedAt q.here else i.placed q.place }

/-- The lens of a model of the second text. -/
def seen : Lens := .placing q.place' id

/-- The name at the spot is no name of a value. -/
def Lacks (v : α) : Prop :=
  ∀ name, q.Shows name →
    Visible.through ⟨name, q.plain.number, q.plain.span⟩ v = Visible.through q.plain v

/-- One value says the same as another one in which the name at the spot is quoted. -/
def Quoted (v v' : α) : Prop :=
  Visible.through q.shown v = Visible.through q.seen v'

/-- Places where the next tokens of both texts start, as far as they are alike. -/
structure Opens (p p' : Position) : Prop where
  start : ∃ i ≤ q.left.length, p = q.left.startAt i
  place : q.place p = q.place' p'

/-- If the texts go on behind the name, no places of names are shown. -/
theorem placed_eq_bare (rejoins : q.rejoins) : Ident.placed q.place = Ident.bare := by
  rw [(q.placeless rejoins).1]
  rfl

theorem placed_eq_bare' (rejoins : q.rejoins) : Ident.placed q.place' = Ident.bare := by
  rw [(q.placeless rejoins).2]
  rfl

/-- What the lens of the first text shows is what the lens of the second one shows of it. -/
theorem seen_shown (i : Ident) : q.seen.name (q.shown.name i) = q.shown.name i := by
  unfold shown
  dsimp only
  split
  · rename_i rejoins
    change Ident.placed q.place' _ = _
    rw [q.placed_eq_bare' rejoins]
    unfold Ident.quotedAt
    split <;> rfl
  · simp only [seen, Lens.placing, Ident.placed, Span.placed, q.shown_placed]

/-- Without a name that is quoted nothing is shown as quoted. -/
theorem shown_of_not (parts : ¬ q.rejoins) : q.shown = q.plain := by
  unfold shown plain
  simp only [parts, if_false]
  rfl

/-- No name but the one at the spot is shown as quoted. -/
theorem shown_name_of_ne {i : Ident} (other : i.span ≠ q.here) : q.shown.name i = i.placed q.place := by
  unfold shown
  dsimp only
  split
  · rename_i rejoins
    rw [q.placed_eq_bare rejoins, Ident.quotedAt, if_neg other]
  · rfl

/-- The name at the spot is shown as quoted. -/
theorem shown_name_here (rejoins : q.rejoins) (value : String) (quoted : Bool) :
    q.shown.name ⟨value, quoted, q.here⟩ = ⟨value, true, .nothing⟩ := by
  unfold shown
  dsimp only
  rw [if_pos rejoins, Ident.quotedAt, if_pos rfl]

/-- Every value says the same as some value in which the name is quoted. -/
theorem exists_quoted (v : α) : ∃ v', q.Quoted v v' := by
  have spans (s : Span) : q.seen.span (q.shown.span s) = q.shown.span s := by
    simp only [seen, shown, plain, Lens.placing, Span.placed, q.shown_placed]
  have same : q.shown.andThen q.seen = q.shown := by
    rw [Lens.andThen, funext q.seen_shown, funext spans]
    rfl
  exact ⟨Visible.through q.shown v, by rw [Quoted, Visible.through_through, same]⟩

theorem spans_of_rejoins (rejoins : q.rejoins) (s s' : Span) : q.shown.span s = q.seen.span s' := by
  change Span.placed q.place s = Span.placed q.place' s'
  rw [(q.placeless rejoins).1, (q.placeless rejoins).2]
  rfl

/-- Behind a name in quotes all places are shown alike. -/
theorem opens_of_rejoins (rejoins : q.rejoins) {p : Position} (start : ∃ i ≤ q.left.length, p = q.left.startAt i)
    (p' : Position) : q.Opens p p' :=
  ⟨start, by rw [(q.placeless rejoins).1, (q.placeless rejoins).2]⟩

/-- Where a place of the first text is put. -/
theorem opens_placed (within : i ≤ q.left.length) : q.Opens (q.left.startAt i) (q.place (q.left.startAt i)) :=
  ⟨⟨i, within, rfl⟩, (q.shown_placed _).symm⟩

/-- If the run over the first text comes past the spot, then over a name that is one in what it gives. -/
def Kept (known : Prop) (i j : Nat) (v : α) : Prop :=
  (i ≤ q.spot → known) ∧ (q.Alike i j ∨ q.rejoins ∧ ¬ q.Lacks v)

/-- Both runs have counted the same placeholders behind those that were counted before. -/
def Counts (s s' : Tape) : Prop := s'.params + q.behind = s.params + q.ahead

/-- What a run over the first text has come to from behind `i` tokens, and what the other run comes to
from there. What was read before is `known` to lack the name; `free` is what follows on the first text,
and then `need` is what followed where the run began. -/
structure Step (limit : Nat) (known : Prop) (i : Nat) (rule' : SqlRule α)
    (need : Nat → Prop) (free : α → Nat → Prop) (s : Tape) (v : α) (after : Tape) (j : Nat) : Prop where
  le : i ≤ j
  place : after.At q.left j
  lacks : known → q.Alike i j → q.Lacks v
  need : free v j → q.Kept known i j v → need i
  right : free v j → q.Kept known i j v → ∀ s' : Tape, s'.At q.right i → q.Counts s s' →
    rule'.Succeeds (sqlLevels f limit) s' fun v' after' =>
      after'.At q.right j ∧ q.Counts after after' ∧ q.Quoted v v'

/-- Whatever a rule gives behind the first `i` tokens of the first text, another rule gives the same
in the second text, with the name quoted. -/
def Follows (limit : Nat) (known : Prop) (i : Nat) (rule rule' : SqlRule α)
    (need : Nat → Prop) (free : α → Nat → Prop) : Prop :=
  ∀ s : Tape, s.At q.left i → rule.Yields (sqlLevels f limit) s fun v after =>
    ∃ j, q.Step limit known i rule' need free s v after j

variable {q} {known : Prop} {rule rule' : SqlRule α} {need : Nat → Prop} {free : α → Nat → Prop}

/-- A run that gave something read both texts. -/
theorem Kept.reads {v : α} (kept : q.Kept known i j v) (le : i ≤ j) : q.Reads i :=
  kept.2.elim (·.reads le) fun h => .inr h.1

/-- Where the first text never lets a rule through, there is nothing to follow. -/
theorem follows_of_never (never : rule.Never (sqlLevels f limit) q.left i) :
    q.Follows limit known i rule rule' need free :=
  fun s here => (never s here).mono fun _ _ => False.elim

/-- Knowing more, needing less, and leaving more open. -/
theorem Follows.mono (follows : q.Follows limit known i rule rule' need free) {known' : Prop}
    {need' : Nat → Prop} {free' : α → Nat → Prop} (more : known' → known)
    (less : need i → need' i) (ends : ∀ v j, free' v j → free v j) :
    q.Follows limit known' i rule rule' need' free' := by
  intro s here v after read
  obtain ⟨j, step⟩ := follows s here v after read
  have kept (kept : q.Kept known' i j v) : q.Kept known i j v := ⟨fun le => more (kept.1 le), kept.2⟩
  exact ⟨j, step.le, step.place, fun holds => step.lacks (more holds),
    fun holds all => less (step.need (ends v j holds) (kept all)),
    fun holds all => step.right (ends v j holds) (kept all)⟩

/-- What is needed where a run ends within the texts it needs where it begins. -/
theorem Follows.also (follows : q.Follows limit known i rule rule' need free) {more : Nat → Prop}
    (back : ∀ v j, i ≤ j → q.Reads i → free v j → more i) :
    q.Follows limit known i rule rule' (fun i => more i ∧ need i) free := by
  intro s here v after read
  obtain ⟨j, step⟩ := follows s here v after read
  exact ⟨j, step.le, step.place, step.lacks,
    fun holds all => ⟨back v j step.le (all.reads step.le) holds, step.need holds all⟩, step.right⟩

/-- Values that both runs give at once. -/
theorem follows_pure {v v' : α} (lacks : known → q.Lacks v) (quoted : q.Quoted v v')
    (ends : free v i → need i) :
    q.Follows limit known i (Pure.pure v : SqlRule α) (Pure.pure v') need free := by
  intro s here
  refine (yields_pure v).mpr ⟨i, Nat.le_refl i, here, fun holds _ => lacks holds,
    fun holds _ => ends holds, fun _ _ s' here' counts => ?_⟩
  exact (succeeds_pure v').mpr ⟨here', counts, quoted⟩

/-- What follows the first rule needs what it needs on both sides, and the name is a name in what the
whole gives only if it is one in one of the parts. What the run over the first text comes to is known
behind the first rule. -/
theorem Follows.bindKnown {first first' : SqlRule β} {next next' : β → SqlRule α}
    {free : α → Nat → Prop} {mid : β → Nat → Prop} (fact : β → Nat → Prop)
    (head : q.Follows limit known i first first' need mid)
    (learns : ∀ s : Tape, s.At q.left i → first.Yields (sqlLevels f limit) s fun b between =>
      ∃ k, between.At q.left k ∧ fact b k)
    (rest : ∀ k b b', fact b k → q.Quoted b b' →
      q.Follows limit (known ∧ q.Lacks b) k (next b) (next' b') (mid b) free) :
    q.Follows limit known i (first >>= next) (first' >>= next') need free := by
  intro s here
  refine yields_bind.mpr fun b between read₁ v after read => ?_
  obtain ⟨k, front⟩ := head s here b between read₁
  obtain ⟨k', place, holds⟩ := learns s here b between read₁
  obtain rfl := front.place.same place
  obtain ⟨b₀, quoted₀⟩ := q.exists_quoted b
  obtain ⟨j, back⟩ := rest k b b₀ holds quoted₀ between front.place v after read
  have le := back.le
  have le' := front.le
  have lacks (holds : known) (alike : q.Alike i j) : q.Lacks v :=
    back.lacks ⟨holds, front.lacks holds (alike.mono (Nat.le_refl i) le)⟩ (alike.mono le' (Nat.le_refl j))
  have kept (all : q.Kept known i j v) : q.Kept (known ∧ q.Lacks b) k j v := by
    refine ⟨fun before => ?_, all.2.imp (·.mono le' (Nat.le_refl j)) id⟩
    have holds := all.1 (Nat.le_trans le' before)
    exact ⟨holds, front.lacks holds (.inl before)⟩
  have keptFront (all : q.Kept known i j v) : q.Kept known i k b := by
    refine ⟨all.1, ?_⟩
    rcases all.2 with alike | ⟨rejoins, names⟩
    · exact .inl (alike.mono (Nat.le_refl i) le)
    · by_cases alike : q.Alike i k
      · exact .inl alike
      · obtain ⟨before, past⟩ : i ≤ q.spot ∧ q.spot < k := by
          unfold Alike at alike
          simp only [rejoins, true_and] at alike
          omega
        exact .inr ⟨rejoins, fun lacks => names
          (back.lacks ⟨all.1 before, lacks⟩ (.inr ⟨rejoins, past⟩))⟩
  refine ⟨j, Nat.le_trans le' le, back.place, lacks, fun ends all => ?_,
    fun ends all s' here' counts => ?_⟩
  · exact front.need (back.need ends (kept all)) (keptFront all)
  · refine succeeds_bind.mpr ?_
    obtain ⟨b', between', read', place', counts', quoted⟩ :=
      front.right (back.need ends (kept all)) (keptFront all) s' here' counts
    refine ⟨b', between', read', ?_⟩
    obtain ⟨j', back'⟩ := rest k b b' holds quoted between front.place v after read
    obtain rfl := back.place.same back'.place
    exact back'.right ends (kept all) between' place' counts'

/-- One rule behind another one. -/
theorem Follows.bind {first first' : SqlRule β} {next next' : β → SqlRule α}
    {free : α → Nat → Prop} {mid : β → Nat → Prop}
    (head : q.Follows limit known i first first' need mid)
    (rest : ∀ k b b', q.Quoted b b' →
      q.Follows limit (known ∧ q.Lacks b) k (next b) (next' b') (mid b) free) :
    q.Follows limit known i (first >>= next) (first' >>= next') need free :=
  .bindKnown (fun _ _ => True) head
    (fun s here => (head s here).mono fun _ _ ⟨k, step⟩ => ⟨k, step.place, trivial⟩)
    fun k b b' _ => rest k b b'

/-- A first step of which it is known what it comes to. If it passes the spot, the name is no name in
it, and the second run may be anything. -/
theorem Follows.behind {β : Type} {first first' : SqlRule β} {next next' : β → SqlRule α} {b b' : β}
    {k : Nat} {mid : Nat → Prop} (le : i ≤ k)
    (left : first.Comes (sqlLevels f limit) q.left i b k)
    (right : q.Alike i k → first'.Comes (sqlLevels f limit) q.right i b' k)
    (rest : q.Follows limit known k (next b) (next' b') mid free)
    (enter : q.Alike i k → mid k → need i) :
    q.Follows limit known i (first >>= next) (first' >>= next') need free := by
  intro s here
  refine yields_bind.mpr ((left s here).yields.mono ?_)
  rintro _ between ⟨rfl, there, same⟩ v after read
  obtain ⟨j, step⟩ := rest between there v after read
  have le' := step.le
  have spares (all : q.Kept known i j v) : q.Alike i k := by
    rcases all.2 with alike | ⟨rejoins, names⟩
    · exact alike.mono (Nat.le_refl i) le'
    · by_contra passes
      obtain ⟨before, past⟩ : i ≤ q.spot ∧ q.spot < k := by
        unfold Alike at passes
        simp only [rejoins, true_and] at passes
        omega
      exact names (step.lacks (all.1 before) (.inr ⟨rejoins, past⟩))
  have kept (all : q.Kept known i j v) : q.Kept known k j v :=
    ⟨fun before => all.1 (Nat.le_trans le before), all.2.imp (·.mono le (Nat.le_refl j)) id⟩
  refine ⟨j, Nat.le_trans le le', step.place,
    fun holds alike => step.lacks holds (alike.mono le (Nat.le_refl j)),
    fun ends all => enter (spares all) (step.need ends (kept all)), fun ends all s' here' counts => ?_⟩
  obtain ⟨_, between', read', rfl, there', same'⟩ := right (spares all) s' here'
  refine succeeds_bind.mpr ⟨_, between', read', step.right ends (kept all) between' there' ?_⟩
  rw [Counts, same, same']
  exact counts

/-- What the second rule reads from a place is all that counts. -/
theorem Follows.congr {other : SqlRule α}
    (follows : q.Follows limit known i rule rule' need free)
    (same : ∀ s : Tape, s.At q.right i → ∀ post, rule'.Succeeds (sqlLevels f limit) s post →
      other.Succeeds (sqlLevels f limit) s post) :
    q.Follows limit known i rule other need free := by
  intro s here v after read
  obtain ⟨j, step⟩ := follows s here v after read
  exact ⟨j, step.le, step.place, step.lacks, step.need, fun ends all s' here' counts =>
    same s' here' _ (step.right ends all s' here' counts)⟩

/-- Where what a rule needs is not met, nothing is to be shown of the second text. -/
theorem Follows.lost {other : SqlRule α} {need' : Nat → Prop}
    (follows : q.Follows limit known i rule rule' need free) (unmet : ¬ need i) :
    q.Follows limit known i rule other need' free := by
  intro s here v after read
  obtain ⟨j, step⟩ := follows s here v after read
  exact ⟨j, step.le, step.place, step.lacks, fun ends all => absurd (step.need ends all) unmet,
    fun ends all => absurd (step.need ends all) unmet⟩

/-- Where the second text is not read, nothing is to be shown of it. -/
theorem Follows.unread {other : SqlRule α} {need' : Nat → Prop}
    (follows : q.Follows limit known i rule rule' need free) (beyond : ¬ q.Reads i) :
    q.Follows limit known i rule other need' free := by
  intro s here v after read
  obtain ⟨j, step⟩ := follows s here v after read
  exact ⟨j, step.le, step.place, step.lacks, fun _ all => absurd (all.reads step.le) beyond,
    fun _ all => absurd (all.reads step.le) beyond⟩

/-- Where the second text never lets a rule through, the first text does not lead there. -/
theorem Follows.barred {other : SqlRule α}
    (follows : q.Follows limit known i rule rule' need free)
    (never : q.Reads i → rule'.Never (sqlLevels f limit) q.right i) :
    q.Follows limit known i rule other (fun _ => True) free := by
  intro s here v after read
  obtain ⟨j, step⟩ := follows s here v after read
  refine ⟨j, step.le, step.place, step.lacks, fun _ _ => trivial, fun ends all s' here' counts => ?_⟩
  obtain ⟨v', after', read', -⟩ := step.right ends all s' here' counts
  exact (never (all.reads step.le) s' here' v' after' read').elim

end

end Diverging

end SqlTree
