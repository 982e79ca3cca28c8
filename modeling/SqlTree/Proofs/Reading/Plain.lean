import SqlTree.Proofs.Reading.Blames
import SqlTree.Proofs.Reading.Confined

namespace SqlTree

/-- A rule that neither asks for the mismatches put aside nor says when to leave, and that goes deeper
only by the names of rules. -/
def Rule.Plain {Sym : Type → Type} {α : Type} : Rule Sym α → Prop
  | bind first next => first.Plain ∧ ∀ value, (next value).Plain
  | orElse rule other => rule.Plain ∧ ∀ m, (other m).Plain
  | lookahead rule => rule.Plain
  | loop step _ => ∀ x, (step x).Plain
  | setCancelAfter _ | reporting _ | nested _ => False
  | _ => True

/-- There are grounds for everything. -/
def Grounds.all : Grounds where
  token _ := True
  lexical _ := True
  mismatch _ := True
  unmet _ _ _ := trivial
  merge _ _ := trivial

namespace Rule

variable {Sym : Type → Type} {α β : Type}

theorem gives_all (rule : Rule Sym α) (value : α) : rule.Gives .all value := by
  cases rule <;> trivial

/-- A rule that fails only on good grounds is plain, since there are grounds for everything. -/
theorem Blames.plain {rule : Rule Sym α} (blames : rule.Blames .all) : rule.Plain := by
  induction rule with
  | bind first next ihFirst ihNext =>
    exact ⟨ihFirst blames.1, fun value => ihNext value (blames.2 value (gives_all first value))⟩
  | orElse rule other ihRule ihOther =>
    exact ⟨ihRule blames.1, fun m => ihOther m (blames.2 m trivial)⟩
  | lookahead rule ih => exact ih blames
  | loop step first ih => exact fun x => ih x (blames x)
  | setCancelAfter | reporting | nested => exact blames.elim
  | _ => trivial

theorem Plain.complete {rule : Rule Sym α} (plain : rule.Plain) : (complete rule).Plain := by
  refine ⟨⟨plain, fun _ => trivial⟩, fun value => ⟨(blames_eat .semicolon).plain, fun _ =>
    ⟨(blames_check .eof).plain, fun ended => ?_⟩⟩⟩
  cases ended
  · exact (blames_failAny_one _).plain
  · trivial

/-- A plain rule is confined. -/
theorem Plain.confined {rule : Rule Sym α} (plain : rule.Plain) {reports cancels : Prop} :
    rule.Confined reports cancels := by
  induction rule with
  | bind first next ihFirst ihNext =>
    exact ⟨ihFirst plain.1, fun value => ihNext value (plain.2 value)⟩
  | orElse rule other ihRule ihOther => exact ⟨ihRule plain.1, fun m => ihOther m (plain.2 m)⟩
  | lookahead rule ih => exact ih plain
  | loop step first ih => exact fun x => ih x (plain x)
  | setCancelAfter | reporting | nested => exact plain.elim
  | _ => trivial

/-- A sequence is confined if its first rule is and its rest is behind every value. -/
theorem confined_bind {reports cancels : Prop} {first : Rule Sym α} {next : α → Rule Sym β} :
    (first >>= next).Confined reports cancels ↔
      first.Confined reports cancels ∧ ∀ value, (next value).Confined reports cancels := Iff.rfl

end Rule

/-- The same tape, where nobody asks to leave. -/
def Tape.calm (s : Tape) : Tape := { s with cancelAfter := none }

/-- The reading `whole` is the reading `cut`, unless this one ends with a failure that no other
alternative gets over. -/
def Reading.Persists {α : Type} (cut whole : Reading α) : Prop :=
  (∃ failure, cut.1 = .error failure ∧ failure.isTerminal = true) ∨ whole = (cut.1, cut.2.calm)

/-- The second levels of nesting go on where the first ones do, and deeper. -/
inductive LevelsGrow {Sym : Type → Type} : List (TapeLevel Sym) → List (TapeLevel Sym) → Prop
  | none {levels} : LevelsGrow [] levels
  | cons {level level' deeper deeper'} :
      (∀ α (name : Sym α) (s : Tape), (level α name s).Persists (level' α name s.calm)) →
      LevelsGrow deeper deeper' → LevelsGrow (level :: deeper) (level' :: deeper')

section

variable {Sym : Type → Type} {α σ : Type}

/-- Where nobody asks to leave, the look for a request finds none. -/
theorem Tape.checkCancelled_calm (s : Tape) : s.checkCancelled.Persists s.calm.checkCancelled := by
  unfold Tape.checkCancelled
  split
  · exact .inr rfl
  · exact .inl ⟨.cancelled, rfl, rfl⟩
  · exact .inr rfl

theorem Tape.bump_calm (s : Tape) : s.calm.bump = (s.bump.1, s.bump.2.calm) := by
  simp only [Tape.bump, Tape.calm]
  split
  · rfl
  · split <;> rfl

theorem Tape.tooDeep_fails (s : Tape) :
    ∃ failure, (s.tooDeep : Reading α).1 = .error failure ∧ failure.isTerminal = true := by
  rcases s with ⟨_, tokens, stop, _, _, _, _⟩
  cases tokens with
  | cons t tokens => exact ⟨_, rfl, rfl⟩
  | nil => cases stop <;> exact ⟨_, rfl, rfl⟩

/-- Where a reading persists it ends at once, or both come to the same. -/
@[elab_as_elim]
theorem Reading.Persists.elim {motive : Reading α → Reading α → Prop} {cut whole : Reading α}
    (persists : cut.Persists whole)
    (fails : ∀ failure after whole, failure.isTerminal = true → motive (.error failure, after) whole)
    (goes : ∀ result after, motive (result, after) (result, after.calm)) : motive cut whole := by
  obtain ⟨result, after⟩ := cut
  rcases persists with ⟨failure, rfl, terminal⟩ | rfl
  · exact fails failure after whole terminal
  · exact goes result after

/-- A repetition persists if its steps do. -/
theorem Tape.iterate_calm {step step' : σ → Tape → Reading (Option σ)}
    (steps : ∀ x s, (step x s).Persists (step' x s.calm)) (fuel : Nat) (x : σ) (s : Tape) :
    (Tape.iterate step fuel x s).Persists (Tape.iterate step' fuel x s.calm) := by
  induction fuel generalizing x s with
  | zero =>
    unfold Tape.iterate
    refine (steps x s).elim (fun failure after _ terminal => .inl ⟨failure, rfl, terminal⟩) ?_
    rintro (_ | _ | y) after
    · exact .inr rfl
    · exact .inr rfl
    · simp only [ite_self]
      exact .inr rfl
  | succ fuel ih =>
    unfold Tape.iterate
    refine (steps x s).elim (fun failure after _ terminal => .inl ⟨failure, rfl, terminal⟩) ?_
    rintro (_ | _ | y) after
    · exact .inr rfl
    · exact .inr rfl
    · by_cases further : s.lastEnd.offset < after.lastEnd.offset
      · have further' : s.calm.lastEnd.offset < after.calm.lastEnd.offset := further
        simp only [further, further', if_true]
        exact ih y after
      · have stays : ¬ s.calm.lastEnd.offset < after.calm.lastEnd.offset := further
        simp only [further, stays, if_false]
        exact .inr rfl

/-- What is read where one may be asked to leave is read with more levels of nesting, too. -/
theorem Rule.Plain.read_calm {levels levels' : List (TapeLevel Sym)} (grow : LevelsGrow levels levels')
    {rule : Rule Sym α} (plain : rule.Plain) (s : Tape) :
    (rule.read levels s).Persists (rule.read levels' s.calm) := by
  induction rule generalizing s with
  | bind first next ihFirst ihNext =>
    simp only [Rule.read]
    refine (ihFirst plain.1 s).elim (fun failure after _ terminal => .inl ⟨failure, rfl, terminal⟩) ?_
    rintro (_ | value) after
    · exact .inr rfl
    · exact ihNext value (plain.2 value) after
  | bump => exact .inr s.bump_calm
  | checkCancelled => exact s.checkCancelled_calm
  | orElse rule other ihRule ihOther =>
    simp only [Rule.read]
    refine s.checkCancelled_calm.elim (fun failure after _ terminal => .inl ⟨failure, rfl, terminal⟩) ?_
    rintro (_ | _) mid
    · exact .inr rfl
    dsimp only
    refine (ihRule plain.1 mid).elim (fun failure after _ terminal => ?_) ?_
    · refine .inl ⟨failure, ?_, terminal⟩
      cases failure <;> first | rfl | cases terminal
    · rintro ((m | _ | _ | _) | _) after
      · exact ihOther m (plain.2 m) (after.backTo mid)
      all_goals exact .inr rfl
  | lookahead rule ih =>
    simp only [Rule.read]
    exact (ih plain s).elim (fun failure after _ terminal => .inl ⟨failure, rfl, terminal⟩)
      fun _ _ => .inr rfl
  | loop step first ih => exact Tape.iterate_calm (fun x s => ih x (plain x) s) _ first s
  | call name =>
    cases grow with
    | none => exact .inl s.tooDeep_fails
    | cons steps _ => exact steps _ name s
  | setCancelAfter | reporting | nested => exact plain.elim
  | _ => exact .inr rfl

/-- With a greater limit there are the same levels of nesting, and more. -/
theorem Rule.tapeLevels_grow {body : ∀ α : Type, Sym α → Rule Sym α} (plain : ∀ α name, (body α name).Plain)
    {limit limit' : Nat} (le : limit ≤ limit') :
    LevelsGrow (tapeLevels body limit) (tapeLevels body limit') := by
  induction limit generalizing limit' with
  | zero => exact .none
  | succ limit ih =>
    obtain ⟨limit', rfl⟩ := Nat.exists_eq_succ_of_ne_zero (by omega : limit' ≠ 0)
    have deeper := ih (Nat.le_of_succ_le_succ le)
    exact .cons (fun α name s => (plain α name).read_calm deeper s) deeper

end

/-- The rule for a whole text is plain, whatever kind of model it is for. -/
theorem SqlRule.entry_plain (f : Features) (kind : ModelKind) : (entry f kind).Plain :=
  (entry_blames f kind).plain

/-- What the names of rules stand for is plain. -/
theorem Symbol.body_plain (f : Features) (α : Type) (name : Symbol α) :
    (Symbol.body f α name).Plain :=
  (body_blames f α name).plain

/-- What a rule gives it gives with more levels of nesting, too, where nobody asks to leave. -/
theorem Rule.Plain.reads {f : Features} {α : Type} {rule : SqlRule α} (plain : rule.Plain)
    {limit limit' : Nat} (le : limit ≤ limit') {s after : Tape} {value : α}
    (read : rule.read (Rule.tapeLevels (Symbol.body f) limit) s = (.ok value, after)) :
    rule.read (Rule.tapeLevels (Symbol.body f) limit') s.calm = (.ok value, after.calm) := by
  rcases plain.read_calm (Rule.tapeLevels_grow (Symbol.body_plain f) le) s with ⟨failure, fails, -⟩ | same
  · rw [read] at fails
    cases fails
  · rw [same, read]

section

variable {reports cancels : Prop}

theorem Rule.confined_expect {Sym : Type → Type} (kind : TokenKind) :
    (expect kind : Rule Sym Token).Confined reports cancels :=
  (blames_expect kind).plain.confined

theorem SqlRule.identifier_confined : identifier.Confined reports cancels :=
  identifier_blames.plain.confined

/-- What the names of rules stand for is confined. -/
theorem Symbol.body_confined (f : Features) (α : Type) (name : Symbol α) :
    (Symbol.body f α name).Confined reports cancels :=
  (body_plain f α name).confined

end

end SqlTree
