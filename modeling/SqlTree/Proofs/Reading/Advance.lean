import SqlTree.Proofs.Reading.Tape

namespace SqlTree

/-- The end of the last one of some tokens, or `p` when there are none. -/
def endBehind (p : Position) (tokens : List Token) : Position :=
  tokens.foldl (fun _ t => t.span.stop) p

@[simp] theorem endBehind_nil (p : Position) : endBehind p [] = p := rfl

@[simp] theorem endBehind_cons (p : Position) (t : Token) (tokens : List Token) :
    endBehind p (t :: tokens) = endBehind t.span.stop tokens := rfl

theorem endBehind_append (p : Position) (a b : List Token) :
    endBehind p (a ++ b) = endBehind (endBehind p a) b := by
  simp [endBehind]

namespace Tape

/-- The whole text is consumed, the layout behind its last token included. -/
def atEnd (s : Tape) : Prop := s.tokens = [] ∧ ∃ eof, s.stop = .ok eof ∧ s.lastEnd = eof.span.stop

/-- Further on in the same text: some tokens were consumed, or the end of the text was. -/
structure Leads (s after : Tape) : Prop where
  text : after.text = s.text
  stop : after.stop = s.stop
  moved : (∃ used, s.tokens = used ++ after.tokens ∧ after.lastEnd = endBehind s.lastEnd used) ∨
    after.atEnd

theorem Leads.refl (s : Tape) : s.Leads s := ⟨rfl, rfl, .inl ⟨[], rfl, rfl⟩⟩

theorem Leads.trans {s mid after : Tape} (first : s.Leads mid) (second : mid.Leads after) :
    s.Leads after := by
  refine ⟨second.text.trans first.text, second.stop.trans first.stop, ?_⟩
  rcases second.moved with ⟨used, tokens, lastEnd⟩ | ended
  · rcases first.moved with ⟨before, tokens', lastEnd'⟩ | ended
    · refine .inl ⟨before ++ used, ?_, ?_⟩
      · rw [tokens', tokens, List.append_assoc]
      · rw [lastEnd, lastEnd', endBehind_append]
    · obtain ⟨empty, eof, stop, place⟩ := ended
      rw [empty] at tokens
      obtain ⟨rfl, empty'⟩ := List.append_eq_nil_iff.mp tokens.symm
      exact .inr ⟨empty', eof, second.stop.trans stop, lastEnd.trans place⟩
  · exact .inr ended

/-- The place on the tape is the same and all else may differ. -/
theorem Leads.of_place {s after : Tape} (text : after.text = s.text) (stop : after.stop = s.stop)
    (tokens : after.tokens = s.tokens) (lastEnd : after.lastEnd = s.lastEnd) : s.Leads after :=
  ⟨text, stop, .inl ⟨[], tokens.symm, lastEnd⟩⟩

theorem leads_bump (s : Tape) : s.Leads s.bump.2 := by
  unfold bump
  split
  · rename_i t tokens eq
    exact ⟨rfl, rfl, .inl ⟨[t], eq, rfl⟩⟩
  · rename_i empty
    split
    · rename_i eof stop
      exact ⟨rfl, rfl, .inr ⟨empty, eof, stop, rfl⟩⟩
    · exact .refl s

theorem leads_checkCancelled (s : Tape) : s.Leads s.checkCancelled.2 := by
  unfold checkCancelled
  split <;> exact .of_place rfl rfl rfl rfl

/-- A failed attempt that goes back has not led back further. -/
theorem Leads.backTo {s after : Tape} (leads : s.Leads after) : s.Leads (after.backTo s) :=
  .of_place leads.text leads.stop rfl rfl

/-- How often a tape can still move on. -/
noncomputable def ahead (s : Tape) : Nat :=
  open Classical in if s.atEnd then 0 else s.tokens.length + 1

theorem ahead_le (s : Tape) : s.ahead ≤ s.tokens.length + 1 := by
  unfold ahead
  split <;> omega

/-- Moving on takes one of the moves that are left. -/
theorem Leads.ahead_lt {s after : Tape} (leads : s.Leads after)
    (further : s.lastEnd.offset < after.lastEnd.offset) : after.ahead < s.ahead := by
  have notEnded : ¬ s.atEnd := by
    intro ended
    rcases leads.moved with ⟨used, tokens, lastEnd⟩ | ended'
    · rw [ended.1] at tokens
      obtain ⟨rfl, -⟩ := List.append_eq_nil_iff.mp tokens.symm
      rw [lastEnd] at further
      exact Nat.lt_irrefl _ further
    · obtain ⟨-, eof, stop, place⟩ := ended
      obtain ⟨-, eof', stop', place'⟩ := ended'
      rw [leads.stop, stop] at stop'
      cases stop'
      rw [place, place'] at further
      exact Nat.lt_irrefl _ further
  rcases leads.moved with ⟨used, tokens, lastEnd⟩ | ended
  · have := after.ahead_le
    have longer := congrArg List.length tokens
    rw [List.length_append] at longer
    have used : 0 < used.length := by
      cases used with
      | nil => exact absurd further (by rw [lastEnd]; exact Nat.lt_irrefl _)
      | cons => simp
    rw [show s.ahead = s.tokens.length + 1 from if_neg notEnded]
    omega
  · rw [show after.ahead = 0 from if_pos ended, show s.ahead = s.tokens.length + 1 from if_neg notEnded]
    omega

end Tape

/-- No answer of a named rule leads back in the text. -/
def TapeLevel.Forward {Sym : Type → Type} (level : TapeLevel Sym) : Prop :=
  ∀ α (name : Sym α) (s : Tape), s.Leads (level α name s).2

namespace Tape

section iterate

variable {σ : Type} {step : σ → Tape → Reading (Option σ)} {fuel : Nat} {x y : σ} {s after : Tape}

/-- A repetition ends where a step fails. -/
theorem iterate_error {failure : Failure} (eq : step x s = (.error failure, after)) :
    iterate step fuel x s = (.error failure, after) := by
  unfold iterate
  rw [eq]

/-- A repetition ends where a step gives nothing. -/
theorem iterate_none (eq : step x s = (.ok none, after)) :
    iterate step fuel x s = (.ok x, after) := by
  unfold iterate
  rw [eq]

/-- A repetition ends where a step moves on no further. -/
theorem iterate_stay (eq : step x s = (.ok (some y), after))
    (stays : ¬ s.lastEnd.offset < after.lastEnd.offset) :
    iterate step fuel x s = (.ok y, after) := by
  unfold iterate
  rw [eq]
  exact if_neg stays

/-- A repetition goes on behind a step that gives something further on. -/
theorem iterate_next (eq : step x s = (.ok (some y), after))
    (further : s.lastEnd.offset < after.lastEnd.offset) :
    iterate step (fuel + 1) x s = iterate step fuel y after := by
  rw [iterate, eq]
  exact if_pos further

end iterate

/-- A repetition of steps that lead forward leads forward. -/
theorem leads_iterate {σ : Type} {step : σ → Tape → Reading (Option σ)}
    (forward : ∀ x (s : Tape), s.Leads (step x s).2) (fuel : Nat) (x : σ) (s : Tape) :
    s.Leads (iterate step fuel x s).2 := by
  induction fuel generalizing x s with
  | zero =>
    have leads := forward x s
    unfold iterate
    split
    · rename_i eq; rwa [eq] at leads
    · rename_i eq; rwa [eq] at leads
    · rename_i eq; rw [eq] at leads; split <;> exact leads
  | succ fuel ih =>
    have leads := forward x s
    unfold iterate
    split
    · rename_i eq; rwa [eq] at leads
    · rename_i eq; rwa [eq] at leads
    · rename_i eq
      rw [eq] at leads
      split
      · exact leads.trans (ih _ _)
      · exact leads

theorem leads_tooDeep {α : Type} (s : Tape) : s.Leads (s.tooDeep : Reading α).2 := by
  unfold tooDeep
  split <;> exact .refl s

theorem leads_note (s : Tape) (m : Mismatch) : s.Leads (s.note m) := .of_place rfl rfl rfl rfl

theorem leads_report (s : Tape) (m : Mismatch) : s.Leads (s.report m).2 := by
  unfold report
  split <;> exact .of_place rfl rfl rfl rfl

end Tape

/-- No rule leads back in the text. -/
theorem Rule.read_leads {Sym : Type → Type} {α : Type} (rule : Rule Sym α)
    {levels : List (TapeLevel Sym)} (forward : ∀ level ∈ levels, level.Forward) (s : Tape) :
    s.Leads (rule.read levels s).2 := by
  induction rule generalizing levels s with
  | pure value => exact .refl s
  | bind first next ihFirst ihNext =>
    have leads := ihFirst forward s
    simp only [read]
    split
    · rename_i eq
      rw [eq] at leads
      exact leads.trans (ihNext _ forward _)
    · rename_i eq
      rwa [eq] at leads
  | fail failure => exact .refl s
  | peek => exact .refl s
  | bump => exact s.leads_bump
  | lastEnd => exact .refl s
  | slice span => exact .refl s
  | nextParam => exact .of_place rfl rfl rfl rfl
  | note m => exact s.leads_note m
  | checkCancelled => exact s.leads_checkCancelled
  | setCancelAfter checks => exact .of_place rfl rfl rfl rfl
  | orElse rule other ihRule ihOther =>
    have leads := s.leads_checkCancelled
    simp only [read]
    split
    · rename_i eq
      rwa [eq] at leads
    · rename_i checked eq
      rw [eq] at leads
      have inner := ihRule forward checked
      split
      · rename_i eq
        rw [eq] at inner
        exact leads.trans inner
      · rename_i eq
        rw [eq] at inner
        exact leads.trans (inner.backTo.trans (ihOther _ forward _))
      · rename_i eq
        rw [eq] at inner
        exact leads.trans inner.backTo
  | lookahead rule ih => exact (ih forward s).backTo
  | reporting rule ih =>
    have leads := ih forward s
    simp only [read]
    split
    · rename_i eq
      rw [eq] at leads
      exact leads.trans (Tape.leads_report _ _)
    · exact leads
  | nested rule ih =>
    cases levels with
    | nil => exact s.leads_tooDeep
    | cons level deeper => exact ih (fun l mem => forward l (List.mem_cons_of_mem _ mem)) s
  | loop step first ih => exact Tape.leads_iterate (fun x s => ih x forward s) _ _ _
  | call name =>
    cases levels with
    | nil => exact s.leads_tooDeep
    | cons level deeper => exact forward level List.mem_cons_self _ name s

/-- However many levels of nesting there are, the rules on them lead forward. -/
theorem Rule.tapeLevels_forward {Sym : Type → Type} (body : ∀ α : Type, Sym α → Rule Sym α)
    (limit : Nat) : ∀ level ∈ tapeLevels body limit, level.Forward := by
  induction limit with
  | zero => simp [tapeLevels]
  | succ limit ih =>
    simp only [tapeLevels, List.forall_mem_cons]
    exact ⟨fun α name s => (body α name).read_leads ih s, ih⟩

end SqlTree
