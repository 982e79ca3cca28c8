import SqlTree.Proofs.Reading.Awaits

namespace SqlTree

namespace Rule

section

variable {Sym : Type → Type} {α β σ : Type} {levels : List (TapeLevel Sym)}

/-- Whatever a rule gives is good. -/
def Makes (levels : List (TapeLevel Sym)) (rule : Rule Sym α) (good : α → Prop) : Prop :=
  ∀ s, rule.Yields levels s fun value _ => good value

/-- Whatever a rule gives is good for the place where the rule starts. -/
def MakesFrom (levels : List (TapeLevel Sym)) (rule : Rule Sym α) (good : Position → α → Prop) : Prop :=
  ∀ s t, s.peek = .ok t → rule.Yields levels s fun value _ => good t.span.start value

variable {good better : α → Prop} {P : β → Prop} {rule : Rule Sym α}

theorem makes_pure {value : α} (holds : good value) : (Pure.pure value : Rule Sym α).Makes levels good :=
  fun _ => (yields_pure _).mpr holds

/-- What a sequence gives is good if its rest makes it so from whatever its first rule gives. -/
theorem Makes.bind {first : Rule Sym β} {next : β → Rule Sym α} (makes : first.Makes levels P)
    (rest : ∀ value, P value → (next value).Makes levels good) :
    (first >>= next).Makes levels good :=
  fun s => yields_bind.mpr ((makes s).mono fun value after holds => rest value holds after)

/-- What a rule gives first makes no difference. -/
theorem makes_then {first : Rule Sym β} {next : β → Rule Sym α}
    (rest : ∀ value, (next value).Makes levels good) : (first >>= next).Makes levels good :=
  fun _ => yields_then fun value after => rest value after

theorem makes_fail (failure : Failure) : (fail failure : Rule Sym α).Makes levels good :=
  fun _ => (yields_fail _).mpr trivial

theorem makes_failAny (expected : List String) : (failAny expected : Rule Sym α).Makes levels good :=
  fun _ => (yields_failAny _).mpr trivial

theorem Makes.mono (makes : rule.Makes levels better) (weaken : ∀ value, better value → good value) :
    rule.Makes levels good :=
  fun s => (makes s).mono fun value _ => weaken value

theorem Makes.ite {c : Prop} [Decidable c] {alternative : Rule Sym α} (found : rule.Makes levels good)
    (missing : alternative.Makes levels good) :
    (if c then rule else alternative).Makes levels good := by
  split
  · exact found
  · exact missing

/-- A rule that begins by asking where it starts. -/
theorem makesFrom_start {good : Position → α → Prop} {next : Position → Rule Sym α}
    (makes : ∀ p, (next p).Makes levels (good p)) : (start >>= next).MakesFrom levels good := by
  intro s t peek
  rw [yields_bind, yields_start]
  intro u peek'
  obtain rfl := Except.ok.inj (peek.symm.trans peek')
  exact makes _ s

section

variable (forward : ∀ level ∈ levels, level.Forward)
include forward

/-- What an alternative gives is good if both rules give good values only. -/
theorem Makes.orElse {second : Mismatch → Rule Sym α} (makes : rule.Makes levels good)
    (makes' : ∀ m, (second m).Makes levels good) : (orElse rule second).Makes levels good :=
  fun _ => yields_orElse (fun checked _ _ => makes checked) (fun m checked _ _ => makes' m checked)
    forward

/-- What a choice gives is good if each alternative gives good values only. -/
theorem makes_choice {rules : List (Rule Sym α)} (makes : ∀ rule ∈ rules, rule.Makes levels good) :
    (choice rules).Makes levels good := by
  have after (failure : Option Mismatch) : (choiceAfter failure rules).Makes levels good := by
    induction rules generalizing failure with
    | nil =>
      cases failure with
      | none => exact makes_failAny _
      | some => exact makes_fail _
    | cons rule rules ih =>
      have first := makes rule List.mem_cons_self
      have rest := ih fun rule mem => makes rule (List.mem_cons_of_mem _ mem)
      cases failure with
      | none => exact Makes.orElse forward first fun m => rest _
      | some => exact Makes.orElse forward first fun m => rest _
  exact after none

theorem Makes.attempt (makes : rule.Makes levels good) : (attempt rule).Makes levels good :=
  Makes.orElse forward makes fun _ => makes_fail _

theorem Makes.optional (makes : rule.Makes levels good) :
    (optional rule).Makes levels fun value => ∀ x ∈ value, good x := by
  refine Makes.orElse forward (makes.bind fun value holds => makes_pure ?_) fun m => ?_
  · rintro x ⟨⟩
    exact holds
  · exact makes_then fun _ => makes_pure (by simp)

/-- What holds at the start of a loop and is kept by its step. -/
theorem makes_loop {step : σ → Rule Sym (Option σ)} {first : σ} (kept : σ → Prop) (start : kept first)
    (keeps : ∀ x, kept x → (step x).Makes levels fun next => ∀ y ∈ next, kept y) :
    (loop step first).Makes levels kept := by
  intro s
  refine yields_loop_of_kept (fun x _ => kept x) forward start fun x s holds => ?_
  refine (keeps x holds s).mono fun next _ each => ?_
  cases next with
  | none => exact holds
  | some y => exact each y rfl

/-- Every item of a repetition is good if the rule gives good items. -/
theorem Makes.many (makes : rule.Makes levels good) :
    (many rule).Makes levels fun values => ∀ x ∈ values, good x := by
  rw [many_eq]
  refine Makes.bind (P := fun values => ∀ x ∈ values, good x) ?_ fun values each => ?_
  · refine makes_loop forward _ (by simp) fun values each => ?_
    refine (Makes.optional forward makes).bind fun next holds => makes_pure ?_
    intro longer found
    obtain ⟨value, given, rfl⟩ := Option.map_eq_some_iff.mp found
    exact List.forall_mem_cons.mpr ⟨holds value given, each⟩
  · exact makes_pure fun x mem => each x (List.mem_reverse.mp mem)

theorem Makes.commaSeparated (makes : rule.Makes levels good) :
    (commaSeparated rule).Makes levels fun values => ∀ x ∈ values, good x := by
  refine makes.bind fun first holds => ?_
  refine (Makes.many forward (makes_then fun _ => makes)).bind fun rest each => ?_
  exact makes_pure (List.forall_mem_cons.mpr ⟨holds, each⟩)

theorem Makes.parenthesizedList (makes : rule.Makes levels good) :
    (parenthesizedList rule).Makes levels fun values => ∀ x ∈ values, good x := by
  refine makes_then fun _ => (Makes.commaSeparated forward makes).bind fun values each => ?_
  exact makes_then fun _ => makes_pure each

theorem Makes.run (makes : rule.Makes levels good) : rule.run.Makes levels good := by
  refine fun s => yields_reporting ?_
  refine (Makes.attempt forward makes).bind (fun value holds => ?_) s
  refine makes_then fun _ => makes_then fun ended => ?_
  cases ended with
  | true => exact makes_pure holds
  | false => exact makes_failAny _

theorem makesFrom_choice {good : Position → α → Prop} {rules : List (Rule Sym α)}
    (makes : ∀ rule ∈ rules, rule.MakesFrom levels good) : (choice rules).MakesFrom levels good := by
  intro s t peek
  have after (failure : Option Mismatch) (s : Tape) (peek : s.peek = .ok t) :
      (choiceAfter failure rules).Yields levels s fun value _ => good t.span.start value := by
    induction rules generalizing failure s with
    | nil =>
      cases failure with
      | none => exact (yields_failAny _).mpr trivial
      | some => exact (yields_fail _).mpr trivial
    | cons rule rules ih =>
      have rest := ih fun rule mem => makes rule (List.mem_cons_of_mem _ mem)
      have first {checked : Tape} (stays : s.Moves [] checked) :=
        makes rule List.mem_cons_self checked t (stays.peek_eq.trans peek)
      have behind (failure : Option Mismatch) {checked : Tape} (stays : s.Moves [] checked) :=
        rest failure checked (stays.peek_eq.trans peek)
      cases failure with
      | none => exact yields_orElse (fun _ stays _ => first stays) (fun m _ stays _ => behind _ stays) forward
      | some => exact yields_orElse (fun _ stays _ => first stays) (fun m _ stays _ => behind _ stays) forward
  exact after none s peek

end

end

end Rule

end SqlTree
