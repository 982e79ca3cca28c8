import Mathlib.Data.List.Forall2
import SqlTree.Dialect.Features
import SqlTree.Proofs.Reading.Succeeds

namespace SqlTree

/-- The words that the clauses and operators start with that only some dialects have. -/
def Features.ownWords (f : Features) : List Keyword :=
  [.LIMIT, .OFFSET, .RETURNING, .ILIKE, .IF, .NULLS, .PRAGMA] ++ f.autoIncrement.toList

/-- A token that means the same with some features as without them. -/
structure Token.Common (f : Features) (t : Token) : Prop where
  sign : t.kind ≠ .doubleColon
  words : ∀ k ∈ f.ownWords, t.spells k = false

/-- Tapes over the same text that nobody asks to leave. -/
structure Tape.Beneath (f : Features) (s s' : Tape) : Prop where
  text : s'.text = s.text
  stop : s'.stop = s.stop
  ended : ∃ eof, s.stop = .ok eof ∧ eof.Common f
  calm : s.cancelAfter = none
  calm' : s'.cancelAfter = none

/-- Tapes that stand at the same place of the same text. -/
structure Tape.Twin (f : Features) (s s' : Tape) : Prop extends s.Beneath f s' where
  tokens : s'.tokens = s.tokens
  common : ∀ t ∈ s.tokens, t.Common f
  lastEnd : s'.lastEnd = s.lastEnd
  params : s'.params = s.params

/-- Readings that come to the same, whatever a mismatch says. -/
inductive Reading.Concurs (f : Features) {α : Type} : Reading α → Reading α → Prop
  | ok {value t t'} : t.Twin f t' → Concurs f (.ok value, t) (.ok value, t')
  | mismatch {m m' t t'} : t.Beneath f t' → Concurs f (.error (.mismatch m), t) (.error (.mismatch m'), t')
  | terminal {failure t t'} : failure.isTerminal → t.Beneath f t' →
      Concurs f (.error failure, t) (.error failure, t')

/-- What the named rules do comes to the same on both sides. -/
def TapeLevel.Concurs {Sym : Type → Type} (f : Features) (level level' : TapeLevel Sym) : Prop :=
  ∀ α name s s', s.Twin f s' → (level α name s).Concurs f (level' α name s')

namespace Tape

variable {f : Features} {s s' t t' : Tape}

/-- The next token is there on both sides. -/
theorem Twin.peek (twin : s.Twin f s') : ∃ t : Token, s.peek = .ok t ∧ s'.peek = .ok t ∧ t.Common f := by
  simp only [Tape.peek, twin.tokens, twin.stop]
  cases tokens : s.tokens with
  | cons t rest => exact ⟨t, rfl, rfl, twin.common t (by simp [tokens])⟩
  | nil =>
    obtain ⟨eof, stop, common⟩ := twin.ended
    exact ⟨eof, by rw [stop]; rfl, by rw [stop]; rfl, common⟩

/-- Consuming the next token comes to the same on both sides. -/
theorem Twin.bump (twin : s.Twin f s') : s.bump.Concurs f s'.bump := by
  simp only [Tape.bump, twin.tokens, twin.stop]
  cases tokens : s.tokens with
  | cons t rest =>
    exact .ok { twin.toBeneath with
      stop := rfl
      tokens := rfl
      common := fun u mem => twin.common u (by simp [tokens, mem])
      lastEnd := rfl
      params := twin.params }
  | nil =>
    obtain ⟨eof, stop, common⟩ := twin.ended
    simp only [stop]
    exact .ok { twin with
      stop := rfl
      ended := ⟨eof, rfl, common⟩
      tokens := rfl
      common := fun _ mem => absurd mem List.not_mem_nil
      lastEnd := rfl }

/-- Going back from a failure. -/
theorem Beneath.backTo (beneath : t.Beneath f t') (twin : s.Twin f s') :
    (t.backTo s).Twin f (t'.backTo s') :=
  { beneath with
    tokens := twin.tokens
    common := twin.common
    lastEnd := twin.lastEnd
    params := twin.params }

/-- What is put aside may differ. -/
theorem Twin.note (twin : s.Twin f s') (m m' : Mismatch) : (s.note m).Twin f (s'.note m') :=
  { twin with }

theorem Beneath.report (beneath : s.Beneath f s') (m m' : Mismatch) :
    (s.report m).2.Beneath f (s'.report m').2 := by
  unfold Tape.report
  cases s.furthest <;> cases s'.furthest <;> exact { beneath with }

theorem Twin.tooDeep {α : Type} (twin : s.Twin f s') :
    (s.tooDeep : Reading α).Concurs f (s'.tooDeep : Reading α) := by
  obtain ⟨t, shown, shown', -⟩ := twin.peek
  simp only [Tape.tooDeep, shown, shown']
  exact .terminal rfl twin.toBeneath

end Tape

namespace Rule

section

variable {Sym : Type → Type} {α β σ : Type} {f : Features} {rule rule' : Rule Sym α}

/-- Two rules that come to the same wherever they are read. -/
def Concurs (f : Features) (rule rule' : Rule Sym α) : Prop :=
  ∀ levels levels', List.Forall₂ (TapeLevel.Concurs f) levels levels' →
    ∀ s s', s.Twin f s' → (rule.read levels s).Concurs f (rule'.read levels' s')

theorem concurs_pure (value : α) : (Pure.pure value : Rule Sym α).Concurs f (Pure.pure value) :=
  fun _ _ _ _ _ twin => .ok twin

/-- Sequences come to the same if their first rules do, and the rests behind every value. -/
theorem Concurs.bind {first first' : Rule Sym β} {next next' : β → Rule Sym α}
    (same : first.Concurs f first') (rest : ∀ value, (next value).Concurs f (next' value)) :
    (first >>= next).Concurs f (first' >>= next') := by
  intro levels levels' concur s s' twin
  have readings := same levels levels' concur s s' twin
  change ((first.bind next).read levels s).Concurs f ((first'.bind next').read levels' s')
  simp only [Rule.read]
  revert readings
  generalize first.read levels s = reading
  generalize first'.read levels' s' = reading'
  rintro (twin | beneath | ⟨terminal, beneath⟩)
  · exact rest _ levels levels' concur _ _ twin
  · exact .mismatch beneath
  · exact .terminal terminal beneath

theorem concurs_fail (failure : Failure) : (fail failure : Rule Sym α).Concurs f (fail failure) := by
  intro _ _ _ _ _ twin
  cases failure with
  | mismatch => exact .mismatch twin.toBeneath
  | _ => exact .terminal rfl twin.toBeneath

theorem concurs_mismatch (m m' : Mismatch) :
    (fail (.mismatch m) : Rule Sym α).Concurs f (fail (.mismatch m')) :=
  fun _ _ _ _ _ twin => .mismatch twin.toBeneath

/-- The next token is the same one on both sides and means the same. -/
theorem concurs_peek {next next' : Token → Rule Sym α}
    (rest : ∀ t : Token, t.Common f → (next t).Concurs f (next' t)) :
    (peek >>= next).Concurs f (peek >>= next') := by
  intro levels levels' concur s s' twin
  obtain ⟨t, shown, shown', common⟩ := twin.peek
  change ((peek.bind next).read levels s).Concurs f ((peek.bind next').read levels' s')
  simp only [Rule.read, shown, shown']
  exact rest t common levels levels' concur s s' twin

theorem concurs_note (m m' : Mismatch) : (note m : Rule Sym Unit).Concurs f (note m') :=
  fun _ _ _ _ _ twin => .ok (twin.note m m')

/-- Alternatives come to the same whatever their mismatches say. -/
theorem Concurs.orElse {other other' : Mismatch → Rule Sym α} (same : rule.Concurs f rule')
    (rest : ∀ m m', (other m).Concurs f (other' m')) :
    (orElse rule other).Concurs f (Rule.orElse rule' other') := by
  intro levels levels' concur s s' twin
  have readings := same levels levels' concur s s' twin
  simp only [Rule.read, Tape.checkCancelled_of_none twin.calm, Tape.checkCancelled_of_none twin.calm']
  revert readings
  generalize rule.read levels s = reading
  generalize rule'.read levels' s' = reading'
  rintro (twin' | beneath | ⟨terminal, beneath⟩)
  · exact .ok twin'
  · exact rest _ _ levels levels' concur _ _ (beneath.backTo twin)
  · rename_i failure t t'
    cases failure with
    | mismatch => cases terminal
    | _ => exact .terminal rfl (beneath.backTo twin).toBeneath

theorem Concurs.lookahead (same : rule.Concurs f rule') :
    (lookahead rule).Concurs f (Rule.lookahead rule') := by
  intro levels levels' concur s s' twin
  have readings := same levels levels' concur s s' twin
  simp only [Rule.read]
  revert readings
  generalize rule.read levels s = reading
  generalize rule'.read levels' s' = reading'
  rintro (twin' | beneath | ⟨terminal, beneath⟩)
  · exact .ok (twin'.toBeneath.backTo twin)
  · exact .mismatch (beneath.backTo twin).toBeneath
  · exact .terminal terminal (beneath.backTo twin).toBeneath

theorem Concurs.reporting (same : rule.Concurs f rule') :
    (reporting rule).Concurs f (Rule.reporting rule') := by
  intro levels levels' concur s s' twin
  have readings := same levels levels' concur s s' twin
  simp only [Rule.read]
  revert readings
  generalize rule.read levels s = reading
  generalize rule'.read levels' s' = reading'
  rintro (twin' | beneath | ⟨terminal, beneath⟩)
  · exact .ok twin'
  · exact .mismatch (beneath.report _ _)
  · rename_i failure t t'
    cases failure with
    | mismatch => cases terminal
    | _ => exact .terminal rfl beneath

/-- Loops come to the same if their steps do. -/
theorem Concurs.loop {step step' : σ → Rule Sym (Option σ)} (same : ∀ x, (step x).Concurs f (step' x))
    (first : σ) : (loop step first).Concurs f (Rule.loop step' first) := by
  intro levels levels' concur s s' twin
  simp only [Rule.read, twin.tokens]
  generalize s.tokens.length + 1 = fuel
  -- On how often the step may still be repeated; both sides stop where they move nowhere.
  induction fuel generalizing first s s' with
  | zero =>
    have readings := same first levels levels' concur s s' twin
    unfold Tape.iterate
    revert readings
    generalize (step first).read levels s = reading
    generalize (step' first).read levels' s' = reading'
    rintro (twin' | beneath | ⟨terminal, beneath⟩)
    · rename_i value t t'
      cases value <;> simp only [ite_self] <;> exact .ok twin'
    · exact .mismatch beneath
    · exact .terminal terminal beneath
  | succ fuel ih =>
    have readings := same first levels levels' concur s s' twin
    unfold Tape.iterate
    revert readings
    generalize (step first).read levels s = reading
    generalize (step' first).read levels' s' = reading'
    rintro (twin' | beneath | ⟨terminal, beneath⟩)
    · rename_i value t t'
      cases value with
      | none => exact .ok twin'
      | some next =>
        simp only [twin.lastEnd, twin'.lastEnd]
        split
        · exact ih next t t' twin'
        · exact .ok twin'
    · exact .mismatch beneath
    · exact .terminal terminal beneath

theorem Concurs.ite {c : Bool} {alternative alternative' : Rule Sym α} (found : rule.Concurs f rule')
    (missing : alternative.Concurs f alternative') :
    (if c then rule else alternative).Concurs f (if c then rule' else alternative') := by
  cases c
  · exact missing
  · exact found

theorem concurs_failAny (expected : List String) :
    (failAny expected : Rule Sym α).Concurs f (failAny expected) :=
  concurs_peek fun _ _ => concurs_fail _

theorem Concurs.attempt (same : rule.Concurs f rule') : (attempt rule).Concurs f (attempt rule') :=
  same.orElse fun m m' => concurs_mismatch m m'

/-- What is left of a choice comes to the same if there was a mismatch before on both sides or on none. -/
theorem concurs_choiceAfter {rules rules' : List (Rule Sym α)}
    (same : List.Forall₂ (Concurs f) rules rules') {failure failure' : Option Mismatch}
    (both : failure.isSome = failure'.isSome) :
    (choiceAfter failure rules).Concurs f (choiceAfter failure' rules') := by
  induction same generalizing failure failure' with
  | nil =>
    cases failure <;> cases failure' <;> cases both
    · exact concurs_failAny _
    · exact concurs_mismatch _ _
  | cons first rest ih =>
    cases failure <;> cases failure' <;> cases both
    · exact first.orElse fun _ _ => ih rfl
    · exact first.orElse fun _ _ => ih rfl

/-- Choices come to the same if their alternatives do one by one. -/
theorem concurs_choice {rules rules' : List (Rule Sym α)} (same : List.Forall₂ (Concurs f) rules rules') :
    (choice rules).Concurs f (choice rules') :=
  concurs_choiceAfter same rfl

theorem Concurs.optional (same : rule.Concurs f rule') : (optional rule).Concurs f (optional rule') :=
  (same.bind fun _ => concurs_pure _).orElse fun m m' => (concurs_note m m').bind fun _ => concurs_pure _

theorem Concurs.many (same : rule.Concurs f rule') : (many rule).Concurs f (many rule') := by
  rw [many_eq, many_eq]
  exact (Concurs.loop (fun _ => same.optional.bind fun _ => concurs_pure _) []).bind
    fun _ => concurs_pure _

end

end Rule

end SqlTree
