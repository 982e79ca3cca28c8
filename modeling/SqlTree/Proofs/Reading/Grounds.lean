import SqlTree.Proofs.Reading.Tape

namespace SqlTree

/-- What counts as a token of a text, as a lexical error of it, and as a mismatch with it. -/
structure Grounds where
  token : Token → Prop
  lexical : LexError → Prop
  mismatch : Mismatch → Prop
  unmet {t : Token} {expected : List String} : token t → expected ≠ [] → expected.Nodup →
    mismatch ⟨t.span.start, expected, t.describe⟩
  merge {m m' : Mismatch} : mismatch m → mismatch m' → mismatch (m.merge m')

namespace Rule

variable {Sym : Type → Type} {α β σ : Type}

/-- What is known of the values that a rule gives: the next token is one of the text. -/
def Gives (G : Grounds) {α : Type} : Rule Sym α → α → Prop
  | peek, t => G.token t
  | _, _ => True

/-- A rule that fails and puts aside only what there are grounds for. It neither asks for the mismatches
put aside nor says when to leave, and goes deeper only by the names of rules. -/
def Blames (G : Grounds) {α : Type} : Rule Sym α → Prop
  | bind first next => first.Blames G ∧ ∀ value, first.Gives G value → (next value).Blames G
  | fail failure => ∃ m, failure = .mismatch m ∧ G.mismatch m
  | note m => G.mismatch m
  | orElse rule other => rule.Blames G ∧ ∀ m, G.mismatch m → (other m).Blames G
  | lookahead rule => rule.Blames G
  | loop step _ => ∀ x, (step x).Blames G
  | setCancelAfter _ | reporting _ | nested _ => False
  | _ => True

section

variable {G : Grounds}

@[simp] theorem blames_pure (value : α) : (Pure.pure value : Rule Sym α).Blames G := trivial

@[simp] theorem blames_bind {first : Rule Sym α} {next : α → Rule Sym β} :
    (first >>= next).Blames G ↔
      first.Blames G ∧ ∀ value, first.Gives G value → (next value).Blames G := Iff.rfl

@[simp] theorem blames_ite {c : Prop} [Decidable c] {rule other : Rule Sym α} :
    (if c then rule else other).Blames G ↔ (c → rule.Blames G) ∧ (¬ c → other.Blames G) := by
  split <;> simp_all

@[simp] theorem blames_peek : (peek : Rule Sym Token).Blames G := trivial

@[simp] theorem blames_bump : (bump : Rule Sym Token).Blames G := trivial

@[simp] theorem blames_lastEnd : (lastEnd : Rule Sym Position).Blames G := trivial

@[simp] theorem blames_slice (span : Span) : (slice span : Rule Sym String).Blames G := trivial

@[simp] theorem blames_nextParam : (nextParam : Rule Sym Nat).Blames G := trivial

@[simp] theorem blames_call (name : Sym α) : (call name).Blames G := trivial

@[simp] theorem blames_lookahead (rule : Rule Sym α) :
    (lookahead rule).Blames G ↔ rule.Blames G := Iff.rfl

@[simp] theorem blames_loop (step : σ → Rule Sym (Option σ)) (first : σ) :
    (loop step first).Blames G ↔ ∀ x, (step x).Blames G := Iff.rfl

@[simp] theorem blames_start : (start : Rule Sym Position).Blames G := by simp [start]

@[simp] theorem blames_spanFrom (p : Position) : (spanFrom p : Rule Sym Span).Blames G := by
  simp [spanFrom]

/-- The token at which a rule fails is one of the text. -/
@[simp] theorem blames_failAny {first : String} {rest : List String} (apart : (first :: rest).Nodup) :
    (failAny (first :: rest) : Rule Sym α).Blames G :=
  ⟨trivial, fun _ token => ⟨_, rfl, G.unmet token (List.cons_ne_nil _ _) apart⟩⟩

@[simp] theorem blames_failAny_one (word : String) : (failAny [word] : Rule Sym α).Blames G :=
  blames_failAny (by simp)

@[simp] theorem blames_check (kind : TokenKind) : (check kind : Rule Sym Bool).Blames G := by
  simp [check]

@[simp] theorem blames_checkKeyword (k : Keyword) : (checkKeyword k : Rule Sym Bool).Blames G := by
  simp [checkKeyword]

@[simp] theorem blames_eat (kind : TokenKind) : (eat kind : Rule Sym Bool).Blames G := by simp [eat]

@[simp] theorem blames_eatKeyword (k : Keyword) : (eatKeyword k : Rule Sym Bool).Blames G := by
  simp [eatKeyword]

@[simp] theorem blames_expect (kind : TokenKind) : (expect kind : Rule Sym Token).Blames G := by
  simp [expect]

@[simp] theorem blames_expectKeyword (k : Keyword) :
    (expectKeyword k : Rule Sym Token).Blames G := by
  simp [expectKeyword]

@[simp] theorem Blames.attempt {rule : Rule Sym α} (blames : rule.Blames G) :
    (attempt rule).Blames G := ⟨blames, fun m grounds => ⟨m, rfl, grounds⟩⟩

@[simp] theorem Blames.optional {rule : Rule Sym α} (blames : rule.Blames G) :
    (optional rule).Blames G :=
  ⟨⟨blames, fun _ _ => trivial⟩, fun _ grounds => ⟨grounds, fun _ _ => trivial⟩⟩

@[simp] theorem Blames.many {rule : Rule Sym α} (blames : rule.Blames G) : (many rule).Blames G :=
  ⟨fun _ => ⟨blames.optional, fun _ _ => trivial⟩, fun _ _ => trivial⟩

@[simp] theorem Blames.commaSeparated {rule : Rule Sym α} (blames : rule.Blames G) :
    (commaSeparated rule).Blames G := by
  have behindComma : (do let _ ← expect .comma; rule).Blames G := by simp [blames]
  simp [Rule.commaSeparated, blames, behindComma]

@[simp] theorem Blames.parenthesizedList {rule : Rule Sym α} (blames : rule.Blames G) :
    (parenthesizedList rule).Blames G := by
  simp [Rule.parenthesizedList, blames]

@[simp] theorem Blames.complete {rule : Rule Sym α} (blames : rule.Blames G) :
    (complete rule).Blames G := by
  simp [Rule.complete, blames]

/-- The mismatches of several alternatives are merged, so there are grounds for what they come to. -/
theorem blames_choice {rule : Rule Sym α} {rules : List (Rule Sym α)}
    (all : ∀ alternative ∈ rule :: rules, alternative.Blames G) :
    (choice (rule :: rules)).Blames G := by
  obtain ⟨blames, rest⟩ := List.forall_mem_cons.mp all
  refine ⟨blames, fun m grounds => ?_⟩
  change (choiceAfter (some m) rules).Blames G
  clear all
  induction rules generalizing m with
  | nil => exact ⟨m, rfl, grounds⟩
  | cons rule rules ih =>
    obtain ⟨blames, rest⟩ := List.forall_mem_cons.mp rest
    exact ⟨blames, fun m' grounds' => ih rest _ (G.merge grounds grounds')⟩

end

end Rule

/-- A tape whose tokens are those of the text, with nothing put aside that there are no grounds for. -/
structure Tape.Grounded (G : Grounds) (s : Tape) : Prop where
  token : ∀ t ∈ s.tokens, G.token t
  eof : ∀ t, s.stop = .ok t → G.token t
  fault : ∀ e, s.stop = .error e → G.lexical e
  furthest : ∀ m ∈ s.furthest, G.mismatch m

/-- A failure that there are grounds for. -/
def Failure.Grounded (G : Grounds) : Failure → Prop
  | .mismatch m => G.mismatch m
  | .lexical e => G.lexical e
  | .cancelled => True
  | .tooDeep p => ∃ t, G.token t ∧ p = t.span.start

/-- A reading that leaves a tape of the text, and fails only on good grounds. -/
def Reading.Grounded {α : Type} (G : Grounds) (reading : Reading α) : Prop :=
  reading.2.Grounded G ∧ ∀ failure, reading.1 = .error failure → failure.Grounded G

/-- Named rules that fail only on good grounds. -/
def TapeLevel.Grounded {Sym : Type → Type} (G : Grounds) (level : TapeLevel Sym) : Prop :=
  ∀ α (name : Sym α) (s : Tape), s.Grounded G → (level α name s).Grounded G

section

variable {G : Grounds} {s : Tape} {α σ : Type}

theorem Reading.Grounded.ok {value : α} (grounded : s.Grounded G) :
    Reading.Grounded G ((.ok value, s) : Reading α) :=
  ⟨grounded, fun _ eq => nomatch eq⟩

theorem Reading.Grounded.error {failure : Failure} (grounded : s.Grounded G)
    (grounds : failure.Grounded G) : Reading.Grounded G ((.error failure, s) : Reading α) :=
  ⟨grounded, fun _ eq => Except.error.inj eq ▸ grounds⟩

namespace Tape.Grounded

/-- The next token is one of the text, and if there is none, there are grounds for that. -/
theorem peek (grounded : s.Grounded G) :
    (∀ t, s.peek = .ok t → G.token t) ∧ ∀ failure, s.peek = .error failure → failure.Grounded G := by
  unfold Tape.peek
  split
  · rename_i t rest eq
    exact ⟨fun _ same => Except.ok.inj same ▸ grounded.token t (eq ▸ List.mem_cons_self), nofun⟩
  · cases stop : s.stop with
    | ok eof => exact ⟨fun _ same => Except.ok.inj same ▸ grounded.eof eof stop, nofun⟩
    | error e => exact ⟨nofun, fun _ same => Except.error.inj same ▸ grounded.fault e stop⟩

theorem bump (grounded : s.Grounded G) : s.bump.Grounded G := by
  unfold Tape.bump
  split
  · rename_i t rest eq
    exact .ok { grounded with token := fun u mem => grounded.token u (eq ▸ List.mem_cons_of_mem t mem) }
  · split
    · exact .ok { grounded with }
    · rename_i e stop
      exact .error grounded (grounded.fault e stop)

theorem tooDeep (grounded : s.Grounded G) : (s.tooDeep : Reading α).Grounded G := by
  unfold Tape.tooDeep
  split
  · rename_i t eq
    exact .error grounded ⟨t, grounded.peek.1 t eq, rfl⟩
  · rename_i failure eq
    exact .error grounded (grounded.peek.2 failure eq)

theorem checkCancelled (grounded : s.Grounded G) : s.checkCancelled.Grounded G := by
  unfold Tape.checkCancelled
  split
  · exact .ok grounded
  · exact .error grounded trivial
  · exact .ok { grounded with }

theorem note {m : Mismatch} (grounded : s.Grounded G) (grounds : G.mismatch m) :
    (s.note m).Grounded G := by
  refine { grounded with furthest := fun m' mem => ?_ }
  obtain rfl := Option.some.inj mem
  split
  · rename_i previous eq
    exact G.merge (grounded.furthest previous eq) grounds
  · exact grounds

theorem backTo {saved : Tape} (grounded : s.Grounded G) (before : saved.Grounded G) :
    (s.backTo saved).Grounded G :=
  { grounded with token := before.token }

/-- What is reported for a mismatch is the furthest one put aside, or it. -/
theorem report {m : Mismatch} (grounded : s.Grounded G) (grounds : G.mismatch m) :
    G.mismatch (s.report m).1 := by
  unfold Tape.report
  split
  · rename_i furthest eq
    exact G.merge (grounded.furthest furthest eq) grounds
  · exact grounds

/-- A repetition leaves a tape of the text if each of its steps does so. -/
theorem iterate {step : σ → Tape → Reading (Option σ)}
    (steps : ∀ x (s : Tape), s.Grounded G → (step x s).Grounded G) (fuel : Nat) (x : σ)
    (grounded : s.Grounded G) : (Tape.iterate step fuel x s).Grounded G := by
  induction fuel generalizing x s with
  | zero =>
    have one := steps x s grounded
    unfold Tape.iterate
    generalize step x s = taken at one ⊢
    rcases taken with ⟨failure | _ | y, after⟩
    · exact .error one.1 (one.2 failure rfl)
    · exact .ok one.1
    · dsimp only
      split <;> exact .ok one.1
  | succ fuel ih =>
    have one := steps x s grounded
    unfold Tape.iterate
    generalize step x s = taken at one ⊢
    rcases taken with ⟨failure | _ | y, after⟩
    · exact .error one.1 (one.2 failure rfl)
    · exact .ok one.1
    · dsimp only
      split
      · exact ih y one.1
      · exact .ok one.1

end Tape.Grounded

end

namespace Rule

variable {Sym : Type → Type} {α : Type} {G : Grounds}

/-- Where a value is read from a tape of the text, the next token is one of the text. -/
theorem gives_of_read {rule : Rule Sym α} {levels : List (TapeLevel Sym)} {s after : Tape} {value : α}
    (grounded : s.Grounded G) (read : rule.read levels s = (.ok value, after)) :
    rule.Gives G value := by
  cases rule with
  | peek => exact grounded.peek.1 value (congrArg Prod.fst read)
  | _ => trivial

/-- A rule that fails only on good grounds does so over every tape of the text. -/
theorem Blames.grounded {rule : Rule Sym α} (blames : rule.Blames G) {levels : List (TapeLevel Sym)}
    (named : ∀ level ∈ levels, level.Grounded G) {s : Tape} (grounded : s.Grounded G) :
    (rule.read levels s).Grounded G := by
  induction rule generalizing s with
  | bind first next ihFirst ihNext =>
    have one := ihFirst blames.1 grounded
    simp only [read]
    split
    · rename_i value mid eq
      rw [eq] at one
      exact ihNext value (blames.2 value (gives_of_read grounded eq)) one.1
    · rename_i failure mid eq
      rw [eq] at one
      exact .error one.1 (one.2 failure rfl)
  | fail failure =>
    obtain ⟨m, rfl, grounds⟩ := blames
    exact .error grounded grounds
  | peek => exact ⟨grounded, grounded.peek.2⟩
  | bump => exact grounded.bump
  | note m => exact .ok (grounded.note blames)
  | checkCancelled => exact grounded.checkCancelled
  | orElse rule other ihRule ihOther =>
    have checked := grounded.checkCancelled
    simp only [read]
    split
    · rename_i failure s eq
      rw [eq] at checked
      exact .error checked.1 (checked.2 failure rfl)
    · rename_i s eq
      rw [eq] at checked
      have one := ihRule blames.1 checked.1
      split
      · rename_i eq
        rw [eq] at one
        exact .ok one.1
      · rename_i m after eq
        rw [eq] at one
        exact ihOther m (blames.2 m (one.2 _ rfl)) (one.1.backTo checked.1)
      · rename_i failure after _ eq
        rw [eq] at one
        exact .error (one.1.backTo checked.1) (one.2 failure rfl)
  | lookahead rule ih =>
    have one := ih blames grounded
    exact ⟨one.1.backTo grounded, one.2⟩
  | loop step first ih => exact Tape.Grounded.iterate (fun x s => ih x (blames x)) _ first grounded
  | call name =>
    cases levels with
    | nil => exact grounded.tooDeep
    | cons level deeper => exact named level List.mem_cons_self _ name s grounded
  | setCancelAfter | reporting | nested => exact blames.elim
  | _ => exact .ok { grounded with }

/-- On every level of nesting the named rules fail only on good grounds. -/
theorem tapeLevels_grounded {body : ∀ α : Type, Sym α → Rule Sym α}
    (blames : ∀ α name, (body α name).Blames G) (limit : Nat) :
    ∀ level ∈ tapeLevels body limit, level.Grounded G := by
  induction limit with
  | zero => simp [tapeLevels]
  | succ limit ih =>
    simp only [tapeLevels, List.forall_mem_cons]
    exact ⟨fun α name s grounded => (blames α name).grounded ih grounded, ih⟩

/-- A rule for a whole text fails only on good grounds. -/
theorem Blames.run_grounded {entry : Rule Sym α} (blames : entry.Blames G)
    {levels : List (TapeLevel Sym)} (named : ∀ level ∈ levels, level.Grounded G) {s : Tape}
    (grounded : s.Grounded G) {failure : Failure} (fails : (entry.run.read levels s).1 = .error failure) :
    failure.Grounded G := by
  have whole := blames.complete.grounded named grounded
  simp only [run, read] at fails
  split at fails
  · rename_i m after eq
    rw [eq] at whole
    obtain rfl := Except.error.inj fails
    exact whole.1.report (whole.2 _ rfl)
  · exact whole.2 failure fails

end Rule

end SqlTree
