import SqlTree.Proofs.Reading.Awaits

namespace SqlTree

namespace Tape

/-- The tokens in front of a tape, with the end of the text if the lexer comes to it. -/
def shown (s : Tape) : List Token := s.tokens ++ s.stop.toOption.toList

/-- A tape of good tokens that stand in the order of the text, which nobody asks to leave. -/
structure Fair (good : Token → Prop) (s : Tape) : Prop where
  calm : s.cancelAfter = none
  good : ∀ t ∈ s.shown, good t
  sorted : s.shown.Pairwise fun t u => t.span.start.offset ≤ u.span.start.offset

/-- A mismatch was put aside that lies as far on as `m`. -/
def Holds (s : Tape) (m : Mismatch) : Prop :=
  ∃ f ∈ s.furthest, m.position.offset ≤ f.position.offset

/-- A mismatch lies no further on than the next token or than what was put aside. -/
def Reaches (s : Tape) (m : Mismatch) : Prop :=
  s.Holds m ∨ ∀ t, s.peek = .ok t → m.position.offset ≤ t.span.start.offset

end Tape

/-- A mismatch lies no further on than what a rule came to. -/
def Reading.Reaches {α : Type} (reading : Reading α) (m : Mismatch) : Prop :=
  match reading.1 with
  | .ok _ => reading.2.Reaches m
  | .error (.mismatch m') => reading.2.Holds m ∨ m.position.offset ≤ m'.position.offset
  | .error _ => True

/-- A rule that fails does so no earlier than at the next token, and keeps what was put aside or
something further on. -/
structure Reading.Onward {α : Type} (s : Tape) (reading : Reading α) : Prop where
  mismatch : ∀ m, reading.1 = .error (.mismatch m) →
    ∃ t, s.peek = .ok t ∧ t.span.start.offset ≤ m.position.offset
  holds : ∀ m, s.Holds m → reading.2.Holds m
  calm : reading.2.cancelAfter = none

section

variable {good : Token → Prop} {s mid after : Tape} {t : Token} {m m' : Mismatch} {α β σ : Type}

namespace Tape

theorem peek_eq_ok_iff : s.peek = .ok t ↔ s.shown.head? = some t := by
  unfold peek shown
  cases s.tokens with
  | cons first rest => simp
  | nil =>
    cases s.stop with
    | ok eof =>
      change (Except.ok eof : Except Failure Token) = .ok t ↔ some eof = some t
      simp
    | error fault =>
      change (Except.error (.lexical fault) : Except Failure Token) = .ok t ↔ none = some t
      simp

/-- Further on, fewer tokens are shown, and none that were not shown before. -/
theorem Leads.shown_suffix (leads : s.Leads after) : after.shown <:+ s.shown := by
  unfold shown
  rw [leads.stop]
  rcases leads.moved with ⟨used, split, -⟩ | ⟨empty, -⟩
  · rw [split, List.append_assoc]
    exact List.suffix_append used _
  · rw [empty]
    exact List.suffix_append s.tokens _

/-- Further on on a fair tape, the tape is fair. -/
theorem Fair.leads (fair : s.Fair good) (leads : s.Leads after) (calm : after.cancelAfter = none) :
    after.Fair good :=
  ⟨calm, fun t mem => fair.good t (leads.shown_suffix.mem mem), fair.sorted.sublist leads.shown_suffix.sublist⟩

theorem Fair.bump (fair : s.Fair good) : s.bump.2.Fair good := by
  refine fair.leads s.leads_bump ?_
  unfold Tape.bump
  split
  · exact fair.calm
  · split <;> exact fair.calm

theorem Moves.leads {used : List Token} (moves : s.Moves used after) : s.Leads after :=
  ⟨moves.text, moves.stop, .inl ⟨used, moves.tokens, moves.lastEnd⟩⟩

theorem Fair.peek (fair : s.Fair good) (shown : s.peek = .ok t) : good t :=
  fair.good t (List.mem_of_head? (peek_eq_ok_iff.mp shown))

/-- The next token lies nowhere behind one that is shown later. -/
theorem Fair.peek_le (fair : s.Fair good) (leads : s.Leads after) (shown : after.peek = .ok t) :
    ∃ u, s.peek = .ok u ∧ u.span.start.offset ≤ t.span.start.offset := by
  have later : t ∈ s.shown := leads.shown_suffix.mem (List.mem_of_head? (peek_eq_ok_iff.mp shown))
  obtain ⟨u, rest, eq⟩ := List.exists_cons_of_ne_nil (List.ne_nil_of_mem later)
  refine ⟨u, peek_eq_ok_iff.mpr (by rw [eq]; rfl), ?_⟩
  have sorted := fair.sorted
  rw [eq] at sorted later
  rcases List.mem_cons.mp later with rfl | later
  · exact Nat.le_refl _
  · exact (List.pairwise_cons.mp sorted).1 t later

theorem Holds.mono (holds : s.Holds m) (le : m'.position.offset ≤ m.position.offset) : s.Holds m' := by
  obtain ⟨f, mem, further⟩ := holds
  exact ⟨f, mem, Nat.le_trans le further⟩

theorem Reaches.mono (reaches : s.Reaches m) (le : m'.position.offset ≤ m.position.offset) :
    s.Reaches m' :=
  reaches.imp (·.mono le) fun near t shown => Nat.le_trans le (near t shown)

/-- A mismatch that lies no further on than a token on the way is reached. -/
theorem Fair.reaches (fair : mid.Fair good) (leads : mid.Leads after) (shown : mid.peek = .ok t)
    (le : m.position.offset ≤ t.span.start.offset) : after.Reaches m := by
  refine .inr fun u shown' => ?_
  obtain ⟨v, first, le'⟩ := fair.peek_le leads shown'
  obtain rfl : t = v := Except.ok.inj (shown.symm.trans first)
  exact Nat.le_trans le le'

end Tape

/-- Two mismatches are merged into one that lies as far on as both. -/
theorem Mismatch.le_merge (m m' : Mismatch) :
    m.position.offset ≤ (m.merge m').position.offset ∧
      m'.position.offset ≤ (m.merge m').position.offset := by
  unfold Mismatch.merge
  split
  · omega
  · split
    · omega
    · exact ⟨Nat.le_refl _, by simp only; omega⟩

theorem Tape.holds_note (s : Tape) (m : Mismatch) : (s.note m).Holds m := by
  refine ⟨_, rfl, ?_⟩
  split
  · rename_i previous _
    exact (Mismatch.le_merge previous m).2
  · exact Nat.le_refl _

theorem Tape.Holds.note (holds : s.Holds m) (m' : Mismatch) : (s.note m').Holds m := by
  obtain ⟨f, mem, further⟩ := holds
  refine ⟨_, rfl, ?_⟩
  split
  · rename_i previous eq
    obtain rfl := Option.some.inj (eq.symm.trans mem)
    exact Nat.le_trans further (Mismatch.le_merge _ m').1
  · rename_i eq
    rw [eq] at mem
    cases mem

namespace Reading

variable {reading : Reading α}

theorem Reaches.mono (reaches : reading.Reaches m)
    (le : m'.position.offset ≤ m.position.offset) : reading.Reaches m' := by
  unfold Reading.Reaches at reaches ⊢
  split
  · rename_i eq
    rw [eq] at reaches
    exact Tape.Reaches.mono reaches le
  · rename_i eq
    rw [eq] at reaches
    exact reaches.imp (·.mono le) (Nat.le_trans le)
  · trivial

/-- What was put aside is reached. -/
theorem reaches_of_holds (holds : reading.2.Holds m) : reading.Reaches m := by
  unfold Reading.Reaches
  split
  · exact .inl holds
  · exact .inl holds
  · trivial

theorem reaches_self (fails : reading.1 = .error (.mismatch m)) : reading.Reaches m := by
  unfold Reading.Reaches
  rw [fails]
  exact .inr (Nat.le_refl _)

namespace Onward

theorem ok {value : α} (holds : ∀ m, s.Holds m → after.Holds m) (calm : after.cancelAfter = none) :
    Reading.Onward s ((.ok value, after) : Reading α) := ⟨nofun, holds, calm⟩

/-- What lies no further on than the place where a rule begins lies no further on than where it ends. -/
theorem reaches (onward : reading.Onward s) (fair : s.Fair good) (leads : s.Leads reading.2)
    (near : s.Reaches m) : reading.Reaches m := by
  rcases near with holds | near
  · exact reaches_of_holds (onward.holds m holds)
  · unfold Reading.Reaches
    split
    · refine .inr fun t shown => ?_
      obtain ⟨u, first, le⟩ := fair.peek_le leads shown
      exact Nat.le_trans (near u first) le
    · rename_i m' eq
      obtain ⟨t, shown, le⟩ := onward.mismatch m' eq
      exact .inr (Nat.le_trans (near t shown) le)
    · trivial

/-- From a place further on in the text. -/
theorem of_leads (onward : reading.Onward mid) (fair : s.Fair good) (leads : s.Leads mid)
    (holds : ∀ m, s.Holds m → mid.Holds m) : reading.Onward s := by
  refine ⟨fun m fails => ?_, fun m before => onward.holds m (holds m before), onward.calm⟩
  obtain ⟨t, shown, le⟩ := onward.mismatch m fails
  obtain ⟨u, first, le'⟩ := fair.peek_le leads shown
  exact ⟨u, first, Nat.le_trans le' le⟩

/-- A failure in another result type. -/
theorem error {reading : Reading β} (onward : reading.Onward s) {failure : Failure}
    (fails : reading = (.error failure, after)) : Reading.Onward s ((.error failure, after) : Reading α) := by
  subst fails
  exact ⟨fun m same => onward.mismatch m (congrArg _ (Except.error.inj same)), onward.holds, onward.calm⟩

end Onward

end Reading

end

namespace Rule

variable {Sym : Type → Type} {α β σ : Type}

/-- A rule that neither fails at a mismatch nor tries anything. -/
def Quiet {α : Type} : Rule Sym α → Prop
  | bind first next => first.Quiet ∧ ∀ value, (next value).Quiet
  | pure _ | peek | bump | lastEnd | slice _ | nextParam => True
  | _ => False

/-- Where what follows a rule may fail at once: at the token that was looked at. -/
def shows {α : Type} : Rule Sym α → α → Option Mismatch
  | peek, t => some ⟨t.span.start, [], t.describe⟩
  | _, _ => none

/-- A rule whose readings reach every mismatch on their way. Behind a mismatch `noted`, or a look at the
token there, it may fail, but no earlier than there. -/
def Owns (good : Token → Prop) (levels : List (TapeLevel Sym)) {α : Type} :
    Rule Sym α → Option Mismatch → Prop
  | bind first next, _ => first.Owns good levels none ∧ ∀ value,
      (∃ s after, s.Fair good ∧ first.read levels s = (.ok value, after)) →
        (next value).Owns good levels (first.shows value)
  | fail failure, noted => ∃ n m, noted = some n ∧ failure = .mismatch m ∧
      n.position.offset ≤ m.position.offset
  | orElse rule other, _ => rule.Owns good levels none ∧ ∀ m, (other m).Owns good levels (some m) ∧
      ∀ s after, s.Fair good → rule.read levels s = (.error (.mismatch m), after) →
        ((other m).read levels (after.backTo s)).Reaches m
  | lookahead rule, _ => rule.Quiet
  | loop step _, _ => ∀ x, (step x).Owns good levels none
  | setCancelAfter _, _ | reporting _, _ | nested _, _ => False
  | _, _ => True

section

variable {good : Token → Prop} {levels : List (TapeLevel Sym)} {s : Tape} {rule : Rule Sym α}

/-- A quiet rule neither puts anything aside nor fails at a mismatch. -/
theorem Quiet.read (quiet : rule.Quiet) (s : Tape) :
    ((rule.read levels s).2.furthest = s.furthest ∧
      (rule.read levels s).2.cancelAfter = s.cancelAfter) ∧
      ∀ m, (rule.read levels s).1 ≠ .error (.mismatch m) := by
  induction rule generalizing s with
  | bind first next ihFirst ihNext =>
    have head := ihFirst quiet.1 s
    simp only [Rule.read]
    rcases eq : first.read levels s with ⟨failure | value, mid⟩
    · rw [eq] at head
      exact ⟨head.1, fun m same => head.2 m (congrArg _ (Except.error.inj same))⟩
    · rw [eq] at head
      have tail := ihNext value (quiet.2 value) mid
      exact ⟨⟨tail.1.1.trans head.1.1, tail.1.2.trans head.1.2⟩, tail.2⟩
  | peek =>
    refine ⟨⟨rfl, rfl⟩, fun m fails => ?_⟩
    simp only [Rule.read, Tape.peek] at fails
    split at fails
    · cases fails
    · cases stop : s.stop <;> rw [stop] at fails <;> cases fails
  | bump =>
    simp only [Rule.read, Tape.bump]
    split
    · simp
    · split <;> simp
  | pure | lastEnd | slice | nextParam => simp [Rule.read]
  | _ => exact quiet.elim

/-- A quiet rule fails nowhere before the next token. -/
theorem Quiet.onward (quiet : rule.Quiet) (calm : s.cancelAfter = none) :
    (rule.read levels s).Onward s where
  mismatch m fails := absurd fails ((quiet.read s).2 m)
  holds m holds := by unfold Tape.Holds; rw [(quiet.read s).1.1]; exact holds
  calm := (quiet.read s).1.2.trans calm

end

end Rule

/-- Named rules that fail no earlier than at the next token. -/
def TapeLevel.Onward {Sym : Type → Type} (good : Token → Prop) (level : TapeLevel Sym) : Prop :=
  ∀ α (name : Sym α) (s : Tape), s.Fair good → (level α name s).Onward s

section

variable {Sym : Type → Type} {good : Token → Prop} {levels : List (TapeLevel Sym)} {s : Tape}
  {α σ : Type}

theorem Tape.Fair.tooDeep (fair : s.Fair good) : (s.tooDeep : Reading α).Onward s := by
  have same : (s.tooDeep : Reading α).2 = s := by unfold Tape.tooDeep; split <;> rfl
  refine ⟨fun m fails => ?_, fun m holds => by rwa [same], by rw [same]; exact fair.calm⟩
  unfold Tape.tooDeep at fails
  split at fails
  · cases fails
  · rename_i failure eq
    unfold Tape.peek at eq
    split at eq
    · cases eq
    · cases stop : s.stop <;> rw [stop] at eq <;> cases eq
      cases fails

/-- A repetition fails no earlier than at the next token if its steps do so. -/
theorem Tape.Fair.iterate {step : σ → Tape → Reading (Option σ)}
    (forward : ∀ x (s : Tape), s.Leads (step x s).2)
    (steps : ∀ x (s : Tape), s.Fair good → (step x s).Onward s) (fuel : Nat) (x : σ)
    (fair : s.Fair good) : (Tape.iterate step fuel x s).Onward s := by
  induction fuel generalizing x s with
  | zero =>
    have one := steps x s fair
    unfold Tape.iterate
    rcases eq : step x s with ⟨failure | _ | y, after⟩
    · exact one.error eq
    · rw [eq] at one
      exact .ok one.holds one.calm
    · rw [eq] at one
      dsimp only
      split <;> exact .ok one.holds one.calm
  | succ fuel ih =>
    have one := steps x s fair
    have leads := forward x s
    unfold Tape.iterate
    rcases eq : step x s with ⟨failure | _ | y, after⟩
    · exact one.error eq
    · rw [eq] at one
      exact .ok one.holds one.calm
    · rw [eq] at one leads
      dsimp only
      split
      · exact (ih y (fair.leads leads one.calm)).of_leads fair leads one.holds
      · exact .ok one.holds one.calm

namespace Rule

/-- What a rule has looked at stands where what follows the rule begins, or before. -/
theorem shows_kept {β : Type} {first : Rule Sym β} {value : β} {mid : Tape}
    (read : first.read levels s = (.ok value, mid)) :
    ∀ n ∈ first.shows value, ∃ t, mid.peek = .ok t ∧ t.span.start.offset ≤ n.position.offset := by
  intro n mem
  unfold shows at mem
  split at mem
  · obtain ⟨shown, rfl⟩ := Prod.mk.inj read
    cases mem
    exact ⟨_, shown, Nat.le_refl _⟩
  · cases mem

/-- A rule that owns up to its mismatches fails no earlier than at the next token. -/
theorem Owns.onward {rule : Rule Sym α} {noted : Option Mismatch} (owns : rule.Owns good levels noted)
    (forward : ∀ level ∈ levels, level.Forward) (named : ∀ level ∈ levels, level.Onward good)
    (fair : s.Fair good)
    (kept : ∀ n ∈ noted, ∃ t, s.peek = .ok t ∧ t.span.start.offset ≤ n.position.offset) :
    (rule.read levels s).Onward s := by
  induction rule generalizing s noted with
  | bind first next ihFirst ihNext =>
    have head := ihFirst owns.1 fair nofun
    have leads := first.read_leads forward s
    simp only [read]
    split
    · rename_i value mid eq
      rw [eq] at head leads
      have rest := ihNext value (owns.2 value ⟨s, mid, fair, eq⟩) (fair.leads leads head.calm)
        (shows_kept eq)
      exact rest.of_leads fair leads head.holds
    · rename_i failure mid eq
      exact head.error eq
  | fail failure =>
    obtain ⟨n, m, rfl, rfl, le⟩ := owns
    refine ⟨fun m' same => ?_, fun m holds => holds, fair.calm⟩
    cases same
    obtain ⟨t, shown, le'⟩ := kept n rfl
    exact ⟨t, shown, Nat.le_trans le' le⟩
  | peek | bump | lastEnd | slice | nextParam | pure => exact Quiet.onward trivial fair.calm
  | note m => exact .ok (fun m' holds => holds.note m) fair.calm
  | checkCancelled =>
    simp only [read, Tape.checkCancelled_of_none fair.calm]
    exact .ok (fun _ holds => holds) fair.calm
  | orElse rule other ihRule ihOther =>
    have one := ihRule owns.1 fair nofun
    have leads := rule.read_leads forward s
    simp only [read, Tape.checkCancelled_of_none fair.calm]
    split
    · rename_i eq
      rw [eq] at one
      exact .ok one.holds one.calm
    · rename_i m after eq
      rw [eq] at one leads
      have back : s.Leads (after.backTo s) := leads.backTo
      have fair' : (after.backTo s).Fair good := fair.leads back one.calm
      have stop : after.stop = s.stop := leads.stop
      have rest := ihOther m (owns.2 m).1 fair' fun n same => by
        cases same
        obtain ⟨t, shown, le⟩ := one.mismatch m rfl
        exact ⟨t, by simpa only [Tape.peek, Tape.backTo, stop] using shown, le⟩
      exact rest.of_leads fair back one.holds
    · rename_i failure after other eq
      rw [eq] at one
      exact ⟨fun m same => (other m (Except.error.inj same)).elim, one.holds, one.calm⟩
  | lookahead rule ih =>
    have inner : rule.Quiet := owns
    have quiet : ((rule.read levels s).2.furthest = s.furthest ∧
        (rule.read levels s).2.cancelAfter = s.cancelAfter) ∧
          ∀ m, (rule.read levels s).1 ≠ .error (.mismatch m) := inner.read s
    refine ⟨fun m fails => absurd fails (quiet.2 m), fun m holds => ?_, quiet.1.2.trans fair.calm⟩
    unfold Tape.Holds
    simp only [read, Tape.backTo, quiet.1.1]
    exact holds
  | loop step first ih =>
    exact fair.iterate (fun x s => (step x).read_leads forward s)
      (fun x s fair => ih x (owns x) fair nofun) _ first
  | call name =>
    cases levels with
    | nil => exact fair.tooDeep
    | cons level deeper => exact named level List.mem_cons_self _ name s fair
  | setCancelAfter | reporting | nested => exact owns.elim

end Rule

end

namespace Rule

section

variable {Sym : Type → Type} {good : Token → Prop} {levels : List (TapeLevel Sym)} {α β σ : Type}
  {noted : Option Mismatch}

@[simp] theorem quiet_bind {first : Rule Sym α} {next : α → Rule Sym β} :
    (first >>= next).Quiet ↔ first.Quiet ∧ ∀ value, (next value).Quiet := Iff.rfl

@[simp] theorem quiet_pure (value : α) : (Pure.pure value : Rule Sym α).Quiet := trivial

@[simp] theorem quiet_bump : (bump : Rule Sym Token).Quiet := trivial

@[simp] theorem quiet_ite {c : Prop} [Decidable c] {rule other : Rule Sym α} :
    (if c then rule else other).Quiet ↔ (c → rule.Quiet) ∧ (¬ c → other.Quiet) := by
  split <;> simp_all

@[simp] theorem quiet_checkKeyword (k : Keyword) : (checkKeyword k : Rule Sym Bool).Quiet :=
  ⟨trivial, fun _ => trivial⟩

@[simp] theorem owns_pure (value : α) : (Pure.pure value : Rule Sym α).Owns good levels noted := trivial

@[simp] theorem owns_bind {first : Rule Sym α} {next : α → Rule Sym β} :
    (first >>= next).Owns good levels noted ↔ first.Owns good levels none ∧ ∀ value,
      (∃ s after, s.Fair good ∧ first.read levels s = (.ok value, after)) →
        (next value).Owns good levels (first.shows value) := Iff.rfl

/-- A sequence owns up to its mismatches if its first rule does, and its rest behind what that one looked
at. -/
theorem Owns.bind {first : Rule Sym α} {next : α → Rule Sym β} (owns : first.Owns good levels none)
    (rest : ∀ value, (next value).Owns good levels (first.shows value)) :
    (first >>= next).Owns good levels noted := ⟨owns, fun value _ => rest value⟩

@[simp] theorem owns_ite {c : Prop} [Decidable c] {rule other : Rule Sym α} :
    (if c then rule else other).Owns good levels noted ↔
      (c → rule.Owns good levels noted) ∧ (¬ c → other.Owns good levels noted) := by
  split <;> simp_all

@[simp] theorem owns_peek : (peek : Rule Sym Token).Owns good levels noted := trivial

@[simp] theorem owns_bump : (bump : Rule Sym Token).Owns good levels noted := trivial

@[simp] theorem owns_lastEnd : (lastEnd : Rule Sym Position).Owns good levels noted := trivial

@[simp] theorem owns_slice (span : Span) : (slice span : Rule Sym String).Owns good levels noted :=
  trivial

@[simp] theorem owns_nextParam : (nextParam : Rule Sym Nat).Owns good levels noted := trivial

@[simp] theorem owns_call (name : Sym α) : (call name).Owns good levels noted := trivial

@[simp] theorem owns_lookahead (rule : Rule Sym α) :
    (lookahead rule).Owns good levels noted ↔ rule.Quiet := Iff.rfl

@[simp] theorem owns_loop (step : σ → Rule Sym (Option σ)) (first : σ) :
    (loop step first).Owns good levels noted ↔ ∀ x, (step x).Owns good levels none := Iff.rfl

@[simp] theorem owns_start : (start : Rule Sym Position).Owns good levels noted :=
  .bind trivial fun _ => trivial

@[simp] theorem owns_spanFrom (p : Position) : (spanFrom p : Rule Sym Span).Owns good levels noted :=
  .bind trivial fun _ => trivial

/-- A rule that fails at the next token says so where it stands. -/
@[simp] theorem owns_failAny (expected : List String) :
    (failAny expected : Rule Sym α).Owns good levels noted :=
  ⟨trivial, fun _ _ => ⟨_, _, rfl, rfl, Nat.le_refl _⟩⟩

@[simp] theorem owns_check (kind : TokenKind) : (check kind : Rule Sym Bool).Owns good levels noted :=
  .bind trivial fun _ => trivial

@[simp] theorem owns_checkKeyword (k : Keyword) :
    (checkKeyword k : Rule Sym Bool).Owns good levels noted :=
  .bind trivial fun _ => trivial

@[simp] theorem owns_eat (kind : TokenKind) : (eat kind : Rule Sym Bool).Owns good levels noted :=
  .bind (owns_check kind) fun _ => by simp

@[simp] theorem owns_eatKeyword (k : Keyword) :
    (eatKeyword k : Rule Sym Bool).Owns good levels noted :=
  .bind (owns_checkKeyword k) fun _ => by simp

@[simp] theorem owns_expect (kind : TokenKind) :
    (expect kind : Rule Sym Token).Owns good levels noted :=
  .bind (owns_check kind) fun _ => by simp

@[simp] theorem owns_expectKeyword (k : Keyword) :
    (expectKeyword k : Rule Sym Token).Owns good levels noted :=
  .bind (owns_checkKeyword k) fun _ => by simp

/-- A mismatch that is passed on as it is. -/
@[simp] theorem Owns.attempt {rule : Rule Sym α} (owns : rule.Owns good levels none) :
    (attempt rule).Owns good levels noted :=
  ⟨owns, fun m => ⟨⟨m, m, rfl, rfl, Nat.le_refl _⟩, fun _ _ _ _ => Reading.reaches_self rfl⟩⟩

/-- A mismatch that is put aside. -/
@[simp] theorem Owns.optional {rule : Rule Sym α} (owns : rule.Owns good levels none) :
    (optional rule).Owns good levels noted :=
  ⟨.bind owns fun _ => trivial, fun m => ⟨.bind trivial fun _ => trivial, fun s after _ _ =>
    Reading.reaches_of_holds (Tape.holds_note (after.backTo s) m)⟩⟩

@[simp] theorem Owns.many {rule : Rule Sym α} (owns : rule.Owns good levels none) :
    (many rule).Owns good levels noted :=
  .bind (fun _ => .bind owns.optional fun _ => trivial) fun _ => trivial

@[simp] theorem Owns.commaSeparated {rule : Rule Sym α} (owns : rule.Owns good levels none) :
    (commaSeparated rule).Owns good levels noted :=
  .bind owns fun _ => .bind (.many (.bind (owns_expect _) fun _ => owns)) fun _ => trivial

@[simp] theorem Owns.parenthesizedList {rule : Rule Sym α} (owns : rule.Owns good levels none) :
    (parenthesizedList rule).Owns good levels noted :=
  .bind (owns_expect _) fun _ => .bind owns.commaSeparated fun _ => .bind (owns_expect _) fun _ =>
    trivial

@[simp] theorem Owns.complete {rule : Rule Sym α} (owns : rule.Owns good levels none) :
    (complete rule).Owns good levels noted :=
  .bind owns.attempt fun _ => .bind (owns_eat _) fun _ => .bind (owns_check _) fun _ => by simp

/-- Where one alternative fails and another one fits, the other one comes as far as the mismatch. -/
def GivesWay (good : Token → Prop) (levels : List (TapeLevel Sym)) (rule other : Rule Sym α) : Prop :=
  ∀ (s s' mid after : Tape) (m : Mismatch) (value : α), s.Fair good → s.Moves [] s' →
    rule.read levels s = (.error (.mismatch m), mid) → other.read levels s' = (.ok value, after) →
      after.Reaches m

/-- Behind a mismatch put aside, whichever alternative fits reaches it. -/
theorem reaches_choiceAfter {rules : List (Rule Sym α)} {m noted : Mismatch} {s : Tape}
    (forward : ∀ level ∈ levels, level.Forward) (le : m.position.offset ≤ noted.position.offset)
    (fits : ∀ rule ∈ rules, ∀ s' after value, s.Moves [] s' → rule.read levels s' = (.ok value, after) →
      after.Reaches m) : ((choiceAfter (some noted) rules).read levels s).Reaches m := by
  induction rules generalizing noted s with
  | nil => exact .inr le
  | cons rule rules ih =>
    have later := (List.forall_mem_cons.mp fits).2
    rw [choiceAfter_cons]
    simp only [read]
    split
    · rename_i failure after eq
      cases Tape.checkCancelled_error eq
      trivial
    rename_i checked eq
    have stays : s.Moves [] checked := by
      have moves := s.moves_checkCancelled.1
      rwa [eq] at moves
    have leads := rule.read_leads forward checked
    split
    · rename_i value after eq
      exact (List.forall_mem_cons.mp fits).1 checked after value stays eq
    · rename_i m' after eq
      rw [eq] at leads
      have back : checked.Moves [] (after.backTo checked) := .of_place leads.text leads.stop rfl rfl
      refine ih (Nat.le_trans le (Mismatch.le_merge noted m').1) fun b mem s' end' value stays' => ?_
      exact later b mem s' end' value (stays.trans (back.trans stays'))
    · rename_i failure after other eq
      cases failure <;> first | trivial | exact (other _ rfl).elim

/-- What is left of a choice owns up to the mismatches put aside before. -/
theorem owns_choiceAfter {rules : List (Rule Sym α)} (forward : ∀ level ∈ levels, level.Forward)
    (all : ∀ rule ∈ rules, rule.Owns good levels none) (ways : rules.Pairwise (GivesWay good levels))
    {m : Mismatch} (le : ∀ n ∈ noted, n.position.offset ≤ m.position.offset)
    (some : noted ≠ none) : (choiceAfter (.some m) rules).Owns good levels noted := by
  induction rules generalizing noted m with
  | nil =>
    obtain ⟨n, rfl⟩ := Option.ne_none_iff_exists'.mp some
    exact ⟨n, m, rfl, rfl, le n rfl⟩
  | cons rule rules ih =>
    obtain ⟨owns, all⟩ := List.forall_mem_cons.mp all
    obtain ⟨way, ways⟩ := List.pairwise_cons.mp ways
    rw [choiceAfter_cons]
    refine ⟨owns, fun m' => ⟨ih all ways ?_ nofun, fun s after fair fails => ?_⟩⟩
    · rintro _ ⟨⟩
      exact (Mismatch.le_merge m m').2
    · have leads := rule.read_leads forward s
      rw [fails] at leads
      have back : s.Moves [] (after.backTo s) := .of_place leads.text leads.stop rfl rfl
      refine reaches_choiceAfter forward (Mismatch.le_merge m m').2 fun b mem s' after' value stays read => ?_
      exact way b mem s s' after after' m' value fair (back.trans stays) fails read

/-- A choice owns up to the mismatches of the alternatives that it leaves if these give way to those
behind them. -/
theorem owns_choice {rule : Rule Sym α} {rules : List (Rule Sym α)}
    (forward : ∀ level ∈ levels, level.Forward)
    (all : ∀ alternative ∈ rule :: rules, alternative.Owns good levels none)
    (ways : (rule :: rules).Pairwise (GivesWay good levels)) :
    (choice (rule :: rules)).Owns good levels noted := by
  obtain ⟨owns, all⟩ := List.forall_mem_cons.mp all
  obtain ⟨way, ways⟩ := List.pairwise_cons.mp ways
  refine ⟨owns, fun m => ⟨owns_choiceAfter forward all ways ?_ nofun, fun s after fair fails => ?_⟩⟩
  · rintro _ ⟨⟩
    exact Nat.le_refl _
  · have leads := rule.read_leads forward s
    rw [fails] at leads
    have back : s.Moves [] (after.backTo s) := .of_place leads.text leads.stop rfl rfl
    refine reaches_choiceAfter forward (Nat.le_refl _) fun b mem s' after' value stays read => ?_
    exact way b mem s s' after after' m value fair (back.trans stays) fails read

/-- A rule that refuses the tokens with which another one begins gives way to it. -/
theorem Opens.givesWay {rule other : Rule Sym α} {p : Token → Prop} (opens : other.Opens levels p)
    (forward : ∀ level ∈ levels, level.Forward)
    (refuses : ∀ s t, s.Fair good → s.peek = .ok t → p t → rule.Refuses levels s) :
    GivesWay good levels rule other := by
  intro s s' mid after m value fair stays fails fits
  obtain ⟨t, shown, holds⟩ := opens s' value after fits
  obtain ⟨m', read, place⟩ := refuses s t fair (stays.peek_eq ▸ shown) holds
  obtain ⟨same, -⟩ := Prod.mk.inj (fails.symm.trans read)
  cases same
  have leads : s.Leads after := by
    have further := other.read_leads forward s'
    rw [fits] at further
    exact stays.leads.trans further
  have here := stays.peek_eq ▸ shown
  exact fair.reaches leads here (Nat.le_of_eq (congrArg _ (place t here)))

/-- Alternatives that wait for different words give way to each other. -/
theorem Awaits.givesWay {rule other : Rule Sym α} {words words' : List Keyword}
    (awaits : rule.Awaits levels words) (awaits' : other.Awaits levels words')
    (apart : Apart words words') (forward : ∀ level ∈ levels, level.Forward) :
    GivesWay good levels rule other := by
  refine awaits'.gives.givesWay forward fun s t fair shown ⟨k, mem, spells⟩ => ?_
  refine awaits.refuses s t fair.calm shown fun j mem' => ?_
  rw [Bool.eq_false_iff]
  intro spells'
  have other := apart.not_spells mem' spells' k mem
  rw [spells] at other
  cases other

/-- A choice between alternatives that wait for different words owns up to its mismatches. -/
theorem owns_choice_of_awaits {alternative : Rule Sym α × List Keyword}
    {alternatives : List (Rule Sym α × List Keyword)} (forward : ∀ level ∈ levels, level.Forward)
    (all : ∀ a ∈ alternative :: alternatives, a.1.Owns good levels none)
    (awaits : ∀ a ∈ alternative :: alternatives, a.1.Awaits levels a.2)
    (apart : ((alternative :: alternatives).map Prod.snd).Pairwise Apart) :
    (choice ((alternative :: alternatives).map Prod.fst)).Owns good levels noted := by
  refine owns_choice forward (by simpa using all) ?_
  rw [← List.map_cons, List.pairwise_map]
  refine (List.pairwise_map.mp apart).imp_of_mem fun memA memB apart => ?_
  exact (awaits _ memA).givesWay (awaits _ memB) apart forward

end

section

variable {Sym : Type → Type} {good : Token → Prop} {body : ∀ α : Type, Sym α → Rule Sym α}

/-- On every level of nesting the named rules fail no earlier than at the next token. -/
theorem tapeLevels_onward
    (owns : ∀ limit α name, (body α name).Owns good (tapeLevels body limit) none) (limit : Nat) :
    ∀ level ∈ tapeLevels body limit, level.Onward good := by
  induction limit with
  | zero => simp [tapeLevels]
  | succ limit ih =>
    simp only [tapeLevels, List.forall_mem_cons]
    refine ⟨fun α name s fair => ?_, ih⟩
    exact (owns limit α name).onward (tapeLevels_forward body limit) ih fair (by simp)

end

end Rule

end SqlTree
