import SqlTree.Proofs.Reading.Succeeds

namespace SqlTree

/-- A rule that gives a value only in front of some tokens. -/
def Rule.Opens {Sym : Type → Type} {α : Type} (rule : Rule Sym α) (levels : List (TapeLevel Sym))
    (p : Token → Prop) : Prop :=
  ∀ s : Tape, rule.Yields levels s fun _ _ => ∃ t, s.peek = .ok t ∧ p t

/-- Where a rule fails at a mismatch, the mismatch fits. -/
def Rule.Misses {Sym : Type → Type} {α : Type} (rule : Rule Sym α) (levels : List (TapeLevel Sym))
    (s : Tape) (post : Mismatch → Prop) : Prop :=
  ∀ m after, rule.read levels s = (.error (.mismatch m), after) → post m

/-- A rule that gives a value only in front of one of some words, and refuses any other token. -/
structure Rule.Awaits {Sym : Type → Type} {α : Type} (rule : Rule Sym α) (levels : List (TapeLevel Sym))
    (words : List Keyword) : Prop where
  gives : rule.Opens levels fun t => ∃ k ∈ words, t.spells k = true
  refuses : ∀ (s : Tape) (t : Token), s.cancelAfter = none → s.peek = .ok t →
    (∀ k ∈ words, t.spells k = false) → rule.Refuses levels s

/-- No word of one list is spelled as a word of another one. -/
abbrev Apart (words others : List Keyword) : Prop :=
  ∀ j ∈ words, ∀ k ∈ others, sameWord j.spelling k.spelling = false

/-- A token is a word of one list only. -/
theorem Apart.not_spells {words others : List Keyword} (apart : Apart words others) {t : Token}
    {j : Keyword} (mem : j ∈ words) (spells : t.spells j = true) : ∀ k ∈ others, t.spells k = false :=
  fun k mem' => Token.not_spells_of_spells spells (apart j mem k mem')

/-- From one place, a token leads to one place. -/
theorem Tape.Moves.bump {s s' : Tape} (stays : s.Moves [] s') : s.bump.2.Moves [] s'.bump.2 := by
  have tokens : s'.tokens = s.tokens := stays.tokens.symm
  have stop := stays.stop
  unfold Tape.bump
  rw [tokens, stop]
  split
  · exact .of_place stays.text rfl rfl rfl
  · split
    · exact .of_place stays.text rfl rfl rfl
    · exact stays

theorem Tape.Moves.peek_eq {s after : Tape} (stays : s.Moves [] after) : after.peek = s.peek := by
  unfold Tape.peek
  rw [stays.tokens, stays.stop, List.nil_append]

theorem Mismatch.merge_position {m m' : Mismatch} (same : m.position = m'.position) :
    (m.merge m').position = m.position := by
  unfold Mismatch.merge
  split
  · rfl
  · split
    · exact same.symm
    · rfl

namespace Rule

section

variable {Sym : Type → Type} {α β : Type} {levels : List (TapeLevel Sym)} {words : List Keyword}
  {s after : Tape} {p : Token → Prop}

/-- What a sequence of rules opens with is settled by its first rule. -/
theorem Opens.bind {rule : Rule Sym α} (opens : rule.Opens levels p) (next : α → Rule Sym β) :
    (rule >>= next).Opens levels p := fun s =>
  yields_bind.mpr ((opens s).mono fun _ _ found => yields_of_forall fun _ _ => found)

theorem Opens.mono {rule : Rule Sym α} {q : Token → Prop} (opens : rule.Opens levels p)
    (weaken : ∀ t, p t → q t) : rule.Opens levels q := fun s =>
  (opens s).mono fun _ _ ⟨t, shown, holds⟩ => ⟨t, shown, weaken t holds⟩

/-- A rule that asks first where it starts. -/
theorem Opens.start {rule : Position → Rule Sym α} (opens : ∀ place, (rule place).Opens levels p) :
    (Rule.start >>= rule).Opens levels p := fun s =>
  yields_bind.mpr (yields_start.mpr fun t _ => opens t.span.start s)

/-- To expect a token is to wait for one of its kind. -/
theorem opens_expect (kind : TokenKind) :
    (expect kind : Rule Sym Token).Opens levels fun t => t.kind.sameKind kind = true := fun s => by
  simp only [expect, yields_bind, yields_check]
  intro t shown
  split
  · rename_i same
    exact yields_of_forall fun _ _ => ⟨t, shown, same⟩
  · exact (yields_failAny _).mpr trivial

theorem yields_leads (rule : Rule Sym α) (forward : ∀ level ∈ levels, level.Forward) (s : Tape) :
    rule.Yields levels s fun _ after => s.Leads after := by
  intro value after read
  have leads := rule.read_leads forward s
  rwa [read] at leads

theorem yields_call {body : ∀ α : Type, Sym α → Rule Sym α} {name : Sym α} {limit : Nat}
    {post : α → Tape → Prop}
    (yields : ∀ limit, (body α name).Yields (tapeLevels body limit) s post) :
    (call name).Yields (tapeLevels body limit) s post := by
  cases limit with
  | zero => exact yields_tooDeep
  | succ limit => exact yields limit

/-- Alternatives that wait for the same tokens wait for them together. -/
theorem opens_choiceAfter {rules : List (Rule Sym α)} (forward : ∀ level ∈ levels, level.Forward)
    (all : ∀ rule ∈ rules, rule.Opens levels p) (noted : Option Mismatch) :
    (choiceAfter noted rules).Opens levels p := by
  induction rules generalizing noted with
  | nil =>
    intro s
    cases noted with
    | none => exact (yields_failAny []).mpr trivial
    | some m => exact (yields_fail _).mpr trivial
  | cons rule rules ih =>
    obtain ⟨first, all⟩ := List.forall_mem_cons.mp all
    cases noted <;>
      exact fun s => yields_orElse
        (fun checked stays _ => stays.peek_eq ▸ first checked)
        (fun m checked stays _ => stays.peek_eq ▸ ih all _ checked) forward

section

variable {post : Mismatch → Prop}

/-- A sequence of rules misses where its first one does, or behind it. -/
theorem misses_bind {first : Rule Sym α} {next : α → Rule Sym β}
    (head : first.Misses levels s post)
    (tail : first.Yields levels s fun value after => (next value).Misses levels after post) :
    (first >>= next).Misses levels s post := by
  intro m after fails
  change (first.bind next).read levels s = _ at fails
  rw [Rule.read] at fails
  split at fails
  · rename_i value mid read
    exact tail value mid read m after fails
  · rename_i failure mid read
    cases fails
    exact head m after read

theorem misses_peek : (peek : Rule Sym Token).Misses levels s post := by
  intro m after fails
  simp only [Rule.read, Tape.peek] at fails
  split at fails
  · cases fails
  · cases stop : s.stop <;> rw [stop] at fails <;> cases fails

theorem misses_bump : (bump : Rule Sym Token).Misses levels s post := by
  intro m after fails
  simp only [Rule.read, Tape.bump] at fails
  split at fails
  · cases fails
  · split at fails <;> cases fails

theorem misses_pure (value : α) : (Pure.pure value : Rule Sym α).Misses levels s post := by
  intro m after fails
  cases fails

theorem misses_start : (start : Rule Sym Position).Misses levels s post :=
  misses_bind misses_peek (yields_of_forall fun _ _ => misses_pure _)

theorem misses_failAny {expected : List String}
    (holds : ∀ t, s.peek = .ok t → post ⟨t.span.start, expected, t.describe⟩) :
    (failAny expected : Rule Sym α).Misses levels s post := by
  refine misses_bind misses_peek (yields_peek.mpr fun t shown m after fails => ?_)
  cases fails
  exact holds t shown

theorem misses_expect {kind : TokenKind}
    (holds : ∀ t m, s.peek = .ok t → m.position = t.span.start → post m) :
    (expect kind : Rule Sym Token).Misses levels s post := by
  refine misses_bind (misses_bind misses_peek (yields_of_forall fun _ _ => misses_pure _)) ?_
  refine (yields_check kind).mpr fun t shown => ?_
  split
  · exact misses_bump
  · exact misses_failAny fun t shown => holds t _ shown rfl

theorem misses_expectKeyword {k : Keyword}
    (holds : ∀ t m, s.peek = .ok t → m.position = t.span.start → post m) :
    (expectKeyword k : Rule Sym Token).Misses levels s post := by
  refine misses_bind (misses_bind misses_peek (yields_of_forall fun _ _ => misses_pure _)) ?_
  refine (yields_checkKeyword k).mpr fun t shown => ?_
  split
  · exact misses_bump
  · exact misses_failAny fun t shown => holds t _ shown rfl

theorem yields_expect {kind : TokenKind} {post : Token → Tape → Prop}
    (holds : ∀ t, s.peek = .ok t → t.kind.sameKind kind = true → ∀ u, post u s.bump.2) :
    (expect kind : Rule Sym Token).Yields levels s post := by
  refine yields_bind.mpr ((yields_check kind).mpr fun t shown => ?_)
  split
  · rename_i same
    exact yields_bump.mpr fun u _ => holds t shown same u
  · exact (yields_failAny _).mpr trivial

theorem yields_expectKeyword {k : Keyword} {post : Token → Tape → Prop}
    (holds : ∀ t, s.peek = .ok t → t.spells k = true → ∀ u, post u s.bump.2) :
    (expectKeyword k : Rule Sym Token).Yields levels s post := by
  refine yields_bind.mpr ((yields_checkKeyword k).mpr fun t shown => ?_)
  split
  · rename_i same
    exact yields_bump.mpr fun u _ => holds t shown same u
  · exact (yields_failAny _).mpr trivial

end

/-- To expect a word is to wait for it. -/
theorem awaits_expectKeyword (k : Keyword) :
    (expectKeyword k : Rule Sym Token).Awaits levels [k] where
  gives s := by
    simp only [expectKeyword, yields_bind, yields_checkKeyword]
    intro t shown
    split
    · rename_i spells
      exact yields_of_forall fun _ _ => ⟨t, shown, k, List.mem_singleton_self k, spells⟩
    · exact (yields_failAny _).mpr trivial
  refuses _ _ _ shown other := expectKeyword_refuses shown (other k (List.mem_singleton_self k))

/-- What follows a rule has no say in the words that it waits for. -/
theorem Awaits.bind {rule : Rule Sym α} (awaits : rule.Awaits levels words) (next : α → Rule Sym β) :
    (rule >>= next).Awaits levels words where
  gives := awaits.gives.bind next
  refuses s t calm shown other := (awaits.refuses s t calm shown other).bind next

theorem Awaits.mono {rule : Rule Sym α} (awaits : rule.Awaits levels words) {more : List Keyword}
    (sub : words ⊆ more) : rule.Awaits levels more where
  gives := awaits.gives.mono fun _ ⟨k, mem, spells⟩ => ⟨k, sub mem, spells⟩
  refuses s t calm shown other := awaits.refuses s t calm shown fun k mem => other k (sub mem)

/-- A rule that asks first where it starts. -/
theorem Awaits.start {rule : Position → Rule Sym α} (awaits : ∀ p, (rule p).Awaits levels words) :
    (Rule.start >>= rule).Awaits levels words where
  gives := .start fun place => (awaits place).gives
  refuses s t calm shown other :=
    refuses_start shown ((awaits t.span.start).refuses s t calm shown other)

/-- The name of a rule waits for what the rule waits for, as long as a level of nesting is left. -/
theorem awaits_call {body : ∀ α : Type, Sym α → Rule Sym α} {name : Sym α} {limit : Nat}
    (awaits : (body α name).Awaits (tapeLevels body limit) words) :
    (call name).Awaits (tapeLevels body (limit + 1)) words :=
  ⟨awaits.gives, awaits.refuses⟩

end

section

variable {Sym : Type → Type} {α : Type} {levels : List (TapeLevel Sym)} {s after : Tape}
  {alternatives : List (Rule Sym α × List Keyword)}

/-- What is left of a choice behind its first alternative, whose mismatch is kept. -/
theorem choiceAfter_cons (noted : Option Mismatch) (rule : Rule Sym α) (rules : List (Rule Sym α)) :
    choiceAfter noted (rule :: rules) =
      orElse rule fun m => choiceAfter (some ((noted.map (·.merge m)).getD m)) rules := by
  cases noted <;> rfl

/-- A choice gives a value in front of a word of one of its alternatives only. -/
theorem choiceAfter_gives (forward : ∀ level ∈ levels, level.Forward)
    (awaits : ∀ a ∈ alternatives, a.1.Awaits levels a.2) (noted : Option Mismatch) :
    (choiceAfter noted (alternatives.map Prod.fst)).Opens levels fun t =>
      ∃ k ∈ alternatives.flatMap Prod.snd, t.spells k = true := by
  refine opens_choiceAfter forward (fun rule member => ?_) noted
  obtain ⟨a, mem, rfl⟩ := List.mem_map.mp member
  exact (awaits a mem).gives.mono fun t ⟨k, word, spells⟩ =>
    ⟨k, List.mem_flatMap.mpr ⟨a, mem, word⟩, spells⟩

/-- A choice refuses each token that is no word of its alternatives. -/
theorem choiceAfter_refuses (awaits : ∀ a ∈ alternatives, a.1.Awaits levels a.2)
    (calm : s.cancelAfter = none) {t : Token} (shown : s.peek = .ok t)
    (other : ∀ k ∈ alternatives.flatMap Prod.snd, t.spells k = false) {noted : Option Mismatch}
    (place : ∀ m ∈ noted, m.position = t.span.start) :
    (choiceAfter noted (alternatives.map Prod.fst)).Refuses levels s := by
  induction alternatives generalizing noted with
  | nil =>
    cases noted with
    | none => exact refuses_failAny shown []
    | some m =>
      refine ⟨m, rfl, fun u same => ?_⟩
      rw [shown] at same
      cases same
      exact place m rfl
  | cons a rest ih =>
    obtain ⟨first, awaits⟩ := List.forall_mem_cons.mp awaits
    have refuses := first.refuses s t calm shown fun k mem => other k (List.mem_append_left _ mem)
    rw [List.map_cons, choiceAfter_cons]
    obtain ⟨m, here, same⟩ := refuses.orElse calm fun m =>
      choiceAfter (some ((noted.map (·.merge m)).getD m)) (rest.map Prod.fst)
    have place' : ∀ n ∈ some ((noted.map (·.merge m)).getD m), n.position = t.span.start := by
      rintro _ ⟨⟩
      cases noted with
      | none => exact here t shown
      | some previous =>
        have before := place previous rfl
        exact (Mismatch.merge_position (before.trans (here t shown).symm)).trans before
    obtain ⟨m', read, here'⟩ := ih awaits (fun k mem => other k (List.mem_append_right _ mem)) place'
    exact ⟨m', same.trans read, here'⟩

/-- A choice waits for the words of all its alternatives. -/
theorem awaits_choice (forward : ∀ level ∈ levels, level.Forward)
    (awaits : ∀ a ∈ alternatives, a.1.Awaits levels a.2) :
    (choice (alternatives.map Prod.fst)).Awaits levels (alternatives.flatMap Prod.snd) where
  gives := choiceAfter_gives forward awaits none
  refuses _ _ calm shown other := choiceAfter_refuses awaits calm shown other nofun

/-- Of alternatives that wait for different words, the one that fits is taken, whichever comes first. -/
theorem choiceAfter_read_iff (forward : ∀ level ∈ levels, level.Forward)
    (awaits : ∀ a ∈ alternatives, a.1.Awaits levels a.2)
    (apart : (alternatives.map Prod.snd).Pairwise Apart) (calm : s.cancelAfter = none)
    (noted : Option Mismatch) {value : α} :
    (choiceAfter noted (alternatives.map Prod.fst)).read levels s = (.ok value, after) ↔
      ∃ a ∈ alternatives, a.1.read levels s = (.ok value, after) := by
  induction alternatives generalizing noted with
  | nil =>
    refine ⟨fun read => ?_, fun ⟨_, mem, _⟩ => nomatch mem⟩
    cases noted with
    | none =>
      have never : (choiceAfter none ([] : List (Rule Sym α))).Yields levels s fun _ _ => False :=
        (yields_failAny []).mpr trivial
      exact (never value after read).elim
    | some m => cases read
  | cons a rest ih =>
    obtain ⟨first, awaits⟩ := List.forall_mem_cons.mp awaits
    obtain ⟨apartFirst, apart⟩ := List.pairwise_cons.mp apart
    have firstRefuses {b : Rule Sym α × List Keyword} (mem : b ∈ rest) {t : Token} {k : Keyword}
        (shown : s.peek = .ok t) (word : k ∈ b.2) (spells : t.spells k = true) :
        a.1.Refuses levels s := by
      refine first.refuses s t calm shown fun j mem' => ?_
      rw [Bool.eq_false_iff]
      intro spells'
      have other := (apartFirst b.2 (List.mem_map_of_mem mem)).not_spells mem' spells' k word
      rw [spells] at other
      cases other
    rw [List.map_cons, choiceAfter_cons]
    simp only [List.mem_cons, exists_eq_or_imp]
    constructor
    · intro read
      simp only [Rule.read, Tape.checkCancelled_of_none calm] at read
      split at read
      · rename_i fits
        exact .inl (fits.trans read)
      · rename_i m tried fails
        have leads := a.1.read_leads forward s
        rw [fails] at leads
        have stays : s.Moves [] (tried.backTo s) := .of_place leads.text leads.stop rfl rfl
        obtain ⟨t, shown, k, word, spells⟩ :=
          choiceAfter_gives forward awaits _ _ value after read
        obtain ⟨b, mem, word⟩ := List.mem_flatMap.mp word
        obtain ⟨m', refuses, -⟩ := firstRefuses mem (stays.peek_eq ▸ shown) word spells
        obtain ⟨-, rfl⟩ := Prod.mk.inj (fails.symm.trans refuses)
        exact .inr ((ih awaits apart _).mp read)
      · cases read
    · rintro (fits | ⟨b, mem, fits⟩)
      · simp only [Rule.read, Tape.checkCancelled_of_none calm, fits]
      · obtain ⟨t, shown, k, word, spells⟩ := (awaits b mem).gives s value after fits
        obtain ⟨m, -, same⟩ := (firstRefuses mem shown word spells).orElse calm fun m =>
          choiceAfter (some ((noted.map (·.merge m)).getD m)) (rest.map Prod.fst)
        exact same.trans ((ih awaits apart _).mpr ⟨b, mem, fits⟩)

end

end Rule

end SqlTree
