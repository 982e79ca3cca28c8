import SqlTree.Proofs.Naming.Alike
import SqlTree.Proofs.Reading.Standing
import SqlTree.Proofs.Reading.Yields
import SqlTree.Proofs.Text.Case
import SqlTree.Proofs.Tree.Laid

namespace SqlTree

/-- Mismatches that say the same but for the token that was found. -/
structure Mismatch.Alike (m m' : Mismatch) : Prop where
  position : m'.position = m.position
  expected : m'.expected = m.expected

inductive Failure.Alike : Failure → Failure → Prop
  | mismatch {m m'} : m.Alike m' → Alike (.mismatch m) (.mismatch m')
  | terminal {failure} : failure.isTerminal = true → Alike failure failure

/-- Mismatches that say the same are merged into such as say the same. -/
theorem Mismatch.Alike.merge {m m' n n' : Mismatch} (first : m.Alike m') (second : n.Alike n') :
    (m.merge n).Alike (m'.merge n') := by
  simp only [Mismatch.merge, first.position, second.position]
  split
  · exact first
  · split
    · exact second
    · exact ⟨rfl, by rw [first.expected, second.expected]⟩

theorem Token.kind_of_keyword? {t : Token} {k : Keyword} (word : t.keyword? = some k) : t.kind = .keyword k := by
  unfold Token.keyword? at word
  split at word
  · rename_i kind
    rw [kind, Option.some.inj word]
  · cases word

namespace Token.Recased

variable {t t' : Token}

/-- Where letters have other cases, tokens have the same places. -/
theorem span (recased : t.Recased t') : t'.span = t.span := by
  cases recased <;> rfl

theorem text (recased : t.Recased t') : sameWord t.text t'.text = true := by
  cases recased with
  | same => exact sameWord_refl _
  | keyword same => exact same
  | name same => exact same

theorem sameKind (recased : t.Recased t') (kind : TokenKind) :
    t'.kind.sameKind kind = t.kind.sameKind kind := by
  cases recased <;> rfl

/-- Where letters have other cases, tokens spell the same words. -/
theorem spells (recased : t.Recased t') (k : Keyword) : t'.spells k = t.spells k := by
  cases recased with
  | same => rfl
  | keyword => rfl
  | name same => exact sameWord_congr same k.spelling

theorem keyword? (recased : t.Recased t') : t'.keyword? = t.keyword? := by
  cases recased <;> rfl

theorem isKeyword (recased : t.Recased t') : t'.isKeyword = t.isKeyword := by
  rw [Token.isKeyword, recased.keyword?, Token.isKeyword]

/-- A word in other letters stays a name, and one without quotes. -/
theorem identifier (recased : t.Recased t') {value : String} (kind : t.kind = .identifier value) :
    ∃ value', t'.kind = .identifier value' ∧ t'.isQuoted = t.isQuoted ∧ sameWord value value' = true := by
  cases recased with
  | same => exact ⟨value, kind, rfl, sameWord_refl value⟩
  | keyword => cases kind
  | name same =>
    cases kind
    exact ⟨_, rfl, by simp [Token.isQuoted], same⟩

/-- Nothing but a name becomes another kind of token. -/
theorem kind_or (recased : t.Recased t') : t'.kind = t.kind ∨
    ∃ value value', t.kind = .identifier value ∧ t'.kind = .identifier value' := by
  cases recased with
  | same => exact .inl rfl
  | keyword => exact .inl rfl
  | name => exact .inr ⟨_, _, rfl, rfl⟩

end Token.Recased

variable {N : Naming}

/-- Tapes over two texts that agree up to the case of letters. -/
structure Tape.Akin (N : Naming) (s s' : Tape) : Prop where
  text : List.Forall₂ SameLetter s.text s'.text
  stop : s'.stop = s.stop
  ends : ∀ eof, s.stop = .ok eof → N.token eof eof
  cancelAfter : s'.cancelAfter = s.cancelAfter
  furthest : Option.Rel Mismatch.Alike s.furthest s'.furthest

/-- Tapes that stand at the same place, with tokens in front of them that may stand for each other. -/
structure Tape.Paired (N : Naming) (s s' : Tape) : Prop extends s.Akin N s' where
  tokens : List.Forall₂ N.token s.tokens s'.tokens
  lastEnd : s'.lastEnd = s.lastEnd
  params : s'.params = s.params

/-- Readings that come to corresponding values at the same place, or to the same failure. -/
inductive Reading.Accords (N : Naming) {α : Type} (R : α → α → Prop) : Reading α → Reading α → Prop
  | ok {v v' t t'} : t.Paired N t' → R v v' → Accords N R (.ok v, t) (.ok v', t')
  | error {failure failure' t t'} : failure.Alike failure' → t.Akin N t' →
      Accords N R (.error failure, t) (.error failure', t')

/-- What corresponds in the values of the named rules. -/
def Symbol.Alike (N : Naming) : ∀ {α : Type}, Symbol α → α → α → Prop
  | _, .expression _ => Expr.Alike N
  | _, .query => SelectStatement.Alike N
  | _, .joinGroup => TableRef.Alike N

/-- What the named rules do accords with itself. -/
def TapeLevel.Accords (N : Naming) (level : TapeLevel Symbol) : Prop :=
  ∀ α (name : Symbol α) s s', s.Paired N s' → (level α name s).Accords N (name.Alike N) (level α name s')

namespace Tape

variable {s s' t t' : Tape} {m m' : Mismatch}

/-- The next tokens may stand for each other, or there are none for the same reason. -/
theorem Paired.peek (paired : s.Paired N s') :
    (∃ t t', N.token t t' ∧ s.peek = .ok t ∧ s'.peek = .ok t') ∨
      ∃ failure, failure.isTerminal = true ∧ s.peek = .error failure ∧ s'.peek = .error failure := by
  have tokens := paired.tokens
  simp only [Tape.peek, paired.stop]
  generalize s.tokens = left at tokens ⊢
  generalize s'.tokens = right at tokens ⊢
  cases tokens with
  | cons first => exact .inl ⟨_, _, first, rfl, rfl⟩
  | nil =>
    cases stop : s.stop with
    | ok eof => exact .inl ⟨eof, eof, paired.ends eof stop, rfl, rfl⟩
    | error e => exact .inr ⟨.lexical e, rfl, rfl, rfl⟩

/-- Consuming the next token accords on both sides. -/
theorem Paired.bump (paired : s.Paired N s') : s.bump.Accords N N.token s'.bump := by
  have tokens := paired.tokens
  simp only [Tape.bump, paired.stop]
  cases left : s.tokens <;> cases right : s'.tokens <;> rw [left, right] at tokens <;> cases tokens
  · cases stop : s.stop with
    | ok eof =>
      exact .ok { paired with
        stop := rfl
        ends := fun e same => paired.ends e (stop.trans same)
        tokens := .nil
        lastEnd := rfl } (paired.ends eof stop)
    | error e => exact .error (.terminal rfl) paired.toAkin
  · rename_i first rest
    exact .ok { paired with
      stop := rfl
      tokens := rest
      lastEnd := by rw [(N.recased first).span] } first

/-- Going back from a failure. -/
theorem Akin.backTo (akin : t.Akin N t') (paired : s.Paired N s') :
    (t.backTo s).Paired N (t'.backTo s') :=
  { akin with
    tokens := paired.tokens
    lastEnd := paired.lastEnd
    params := paired.params }

/-- Mismatches that say the same may be put aside. -/
theorem Paired.note (paired : s.Paired N s') (alike : m.Alike m') : (s.note m).Paired N (s'.note m') := by
  refine { paired with furthest := ?_ }
  have furthest := paired.furthest
  unfold Tape.note
  cases first : s.furthest <;> cases second : s'.furthest <;> rw [first, second] at furthest
  · exact .some alike
  · cases furthest
  · cases furthest
  · cases furthest with
    | some noted => exact .some (noted.merge alike)

/-- Mismatches that say the same are reported alike. -/
theorem Akin.report (akin : s.Akin N s') (alike : m.Alike m') :
    (s.report m).1.Alike (s'.report m').1 ∧ (s.report m).2.Akin N (s'.report m').2 := by
  have furthest := akin.furthest
  unfold Tape.report
  cases first : s.furthest <;> cases second : s'.furthest <;> rw [first, second] at furthest
  · exact ⟨alike, akin⟩
  · cases furthest
  · cases furthest
  · cases furthest with
    | some noted => exact ⟨noted.merge alike, { akin with furthest := .none }⟩

theorem Paired.checkCancelled (paired : s.Paired N s') :
    s.checkCancelled.Accords N Eq s'.checkCancelled := by
  simp only [Tape.checkCancelled, paired.cancelAfter]
  split
  · exact .ok paired rfl
  · exact .error (.terminal rfl) paired.toAkin
  · exact .ok { paired with cancelAfter := rfl } rfl

theorem Paired.tooDeep {α : Type} {R : α → α → Prop} (paired : s.Paired N s') :
    (s.tooDeep : Reading α).Accords N R (s'.tooDeep : Reading α) := by
  rcases paired.peek with ⟨t, t', token, shown, shown'⟩ | ⟨failure, terminal, shown, shown'⟩
  · simp only [Tape.tooDeep, shown, shown', (N.recased token).span]
    exact .error (.terminal rfl) paired.toAkin
  · simp only [Tape.tooDeep, shown, shown']
    exact .error (.terminal terminal) paired.toAkin

end Tape

namespace Rule

section

variable {α β σ : Type} {R : α → α → Prop} {S : β → β → Prop} {rule rule' other other' : SqlRule α}
  {next next' : α → SqlRule β}

/-- Wherever two runs stand at the same place, in front of tokens that may stand for each other, two
rules come to values that correspond. -/
def Accords (N : Naming) (R : α → α → Prop) (rule rule' : SqlRule α) : Prop :=
  ∀ levels, (∀ level ∈ levels, TapeLevel.Accords N level) →
    ∀ s s', s.Paired N s' → (rule.read levels s).Accords N R (rule'.read levels s')

theorem accords_pure {v v' : α} (related : R v v') : Accords N R (Pure.pure v) (Pure.pure v') :=
  fun _ _ _ _ paired => .ok paired related

theorem Accords.mono {weaker : α → α → Prop} (accords : Accords N R rule rule')
    (weaken : ∀ v v', R v v' → weaker v v') : Accords N weaker rule rule' := by
  intro levels accord s s' paired
  have readings := accords levels accord s s' paired
  revert readings
  generalize rule.read levels s = reading
  generalize rule'.read levels s' = reading'
  rintro (⟨paired, related⟩ | ⟨alike, akin⟩)
  · exact .ok paired (weaken _ _ related)
  · exact .error alike akin

/-- Sequences accord if their first rules do, and the rests behind values that correspond. -/
theorem Accords.bind (first : Accords N R rule rule')
    (rest : ∀ v v', R v v' → Accords N S (next v) (next' v')) :
    Accords N S (rule >>= next) (rule' >>= next') := by
  intro levels accord s s' paired
  have readings := first levels accord s s' paired
  change ((rule.bind next).read levels s).Accords N S ((rule'.bind next').read levels s')
  simp only [Rule.read]
  revert readings
  generalize rule.read levels s = reading
  generalize rule'.read levels s' = reading'
  rintro (⟨paired, related⟩ | ⟨alike, akin⟩)
  · exact rest _ _ related levels accord _ _ paired
  · exact .error alike akin

/-- Both runs go on with the same value. -/
theorem Accords.same_bind (first : Accords N Eq rule rule')
    (rest : ∀ v, Accords N S (next v) (next' v)) : Accords N S (rule >>= next) (rule' >>= next') := by
  refine first.bind ?_
  rintro v _ rfl
  exact rest v

/-- What is made of values that correspond corresponds. -/
theorem Accords.map {g g' : α → β} (first : Accords N R rule rule')
    (related : ∀ v v', R v v' → S (g v) (g' v')) :
    Accords N S (do return g (← rule)) (do return g' (← rule')) :=
  first.bind fun _ _ holds => accords_pure (related _ _ holds)

theorem accords_peek : Accords N N.token Rule.peek Rule.peek := by
  intro levels _ s s' paired
  rcases paired.peek with ⟨t, t', token, shown, shown'⟩ | ⟨failure, terminal, shown, shown'⟩
  · simp only [Rule.read, shown, shown']
    exact .ok paired token
  · simp only [Rule.read, shown, shown']
    exact .error (.terminal terminal) paired.toAkin

/-- The tokens that are consumed may stand for each other. -/
theorem accords_bump : Accords N N.token Rule.bump Rule.bump :=
  fun _ _ _ _ paired => paired.bump

/-- Whatever token is consumed. -/
theorem bump_then {next next' : Token → SqlRule β} (rest : ∀ t t', Accords N S (next t) (next' t')) :
    Accords N S (Rule.bump >>= next) (Rule.bump >>= next') :=
  accords_bump.bind fun _ _ _ => rest _ _

/-- A token that is consumed if it is seen to fit is the one that was seen. -/
theorem bump_seen {fits : Token → Bool} {next next' : Token → SqlRule α}
    (same : ∀ t t', N.token t t' → fits t' = fits t)
    (found : ∀ t t', N.token t t' → fits t = true → Accords N R (next t) (next' t'))
    (missing : Accords N R other other') :
    Accords N R (do if fits (← Rule.peek) then next (← Rule.bump) else other)
      (do if fits (← Rule.peek) then next' (← Rule.bump) else other') := by
  intro levels accord s s' paired
  change ((Rule.peek.bind _).read levels s).Accords N R ((Rule.peek.bind _).read levels s')
  rcases paired.peek with ⟨t, t', token, shown, shown'⟩ | ⟨failure, terminal, shown, shown'⟩
  · simp only [Rule.read, shown, shown', same t t' token]
    cases seen : fits t with
    | false => exact missing levels accord s s' paired
    | true =>
      obtain ⟨after, bumped⟩ : ∃ after, s.bump = (.ok t, after) :=
        ⟨_, Prod.ext (s.bump_fst.trans shown) rfl⟩
      obtain ⟨after', bumped'⟩ : ∃ after, s'.bump = (.ok t', after) :=
        ⟨_, Prod.ext (s'.bump_fst.trans shown') rfl⟩
      have bumps := paired.bump
      rw [bumped, bumped'] at bumps
      change ((Rule.bump.bind next).read levels s).Accords N R ((Rule.bump.bind next').read levels s')
      simp only [Rule.read, bumped, bumped']
      cases bumps with
      | ok moved _ => exact found t t' token seen levels accord _ _ moved
  · simp only [Rule.read, shown, shown']
    exact .error (.terminal terminal) paired.toAkin

theorem accords_fail {failure failure' : Failure} (alike : failure.Alike failure') :
    Accords N R (fail failure) (fail failure') :=
  fun _ _ _ _ paired => .error alike paired.toAkin

theorem accords_failAny (expected : List String) :
    Accords N R (failAny expected) (failAny expected) :=
  accords_peek.bind fun _ _ token =>
    accords_fail (.mismatch ⟨congrArg Span.start (N.recased token).span, rfl⟩)

theorem accords_start : Accords N Eq start start :=
  accords_peek.map fun _ _ token => congrArg Span.start (N.recased token).span.symm

theorem accords_spanFrom (p : Position) : Accords N Eq (spanFrom p) (spanFrom p) := by
  have ends : Accords N Eq (Rule.lastEnd : SqlRule Position) Rule.lastEnd :=
    fun _ _ _ _ paired => .ok paired paired.lastEnd.symm
  exact ends.same_bind fun _ => accords_pure rfl

/-- The span of a node closes its rule. -/
theorem spanFrom_then {p : Position} {g g' : Span → β} (related : ∀ span, S (g span) (g' span)) :
    Accords N S (do return g (← spanFrom p)) (do return g' (← spanFrom p)) :=
  (accords_spanFrom p).same_bind fun span => accords_pure (related span)

theorem accords_nextParam : Accords N Eq (nextParam : SqlRule Nat) nextParam := by
  intro _ _ s s' paired
  simp only [Rule.read, paired.params]
  exact .ok { paired with params := rfl } rfl

/-- The text under a span, up to the case of its letters. -/
theorem accords_slice (span : Span) :
    Accords N (fun a a' => sameWord a a' = true) (slice span) (slice span) := by
  intro _ _ s s' paired
  refine .ok paired ?_
  have slices := sliceBytes_sameLetters paired.text span.start.offset span.stop.offset
  rw [sameWord_iff_sameLetters, String.toList_ofList, String.toList_ofList]
  generalize sliceBytes s.text _ _ = left at slices ⊢
  generalize sliceBytes s'.text _ _ = right at slices ⊢
  cases slices with
  | none => exact .nil
  | some same => exact same

/-- Alternatives accord behind mismatches that say the same. -/
theorem Accords.orElse {recover recover' : Mismatch → SqlRule α} (first : Accords N R rule rule')
    (rest : ∀ m m', m.Alike m' → Accords N R (recover m) (recover' m')) :
    Accords N R (orElse rule recover) (orElse rule' recover') := by
  intro levels accord s s' paired
  simp only [Rule.read]
  have checked := paired.checkCancelled
  revert checked
  generalize s.checkCancelled = check
  generalize s'.checkCancelled = check'
  rintro (⟨paired, -⟩ | ⟨alike, akin⟩)
  case error => exact .error alike akin
  rename_i t t'
  have readings := first levels accord _ _ paired
  revert readings
  dsimp only
  generalize rule.read levels t = reading
  generalize rule'.read levels t' = reading'
  rintro (⟨paired', related⟩ | ⟨alike | terminal, akin⟩)
  · exact .ok paired' related
  · exact rest _ _ alike levels accord _ _ (akin.backTo paired)
  · rename_i failure _ _
    cases failure with
    | mismatch => cases terminal
    | _ => exact .error (.terminal rfl) (akin.backTo paired).toAkin

theorem Accords.lookahead (first : Accords N R rule rule') :
    Accords N R (lookahead rule) (lookahead rule') := by
  intro levels accord s s' paired
  have readings := first levels accord s s' paired
  simp only [Rule.read]
  revert readings
  generalize rule.read levels s = reading
  generalize rule'.read levels s' = reading'
  rintro (⟨paired', related⟩ | ⟨alike, akin⟩)
  · exact .ok (paired'.toAkin.backTo paired) related
  · exact .error alike (akin.backTo paired).toAkin

theorem Accords.reporting (first : Accords N R rule rule') :
    Accords N R (reporting rule) (reporting rule') := by
  intro levels accord s s' paired
  have readings := first levels accord s s' paired
  simp only [Rule.read]
  revert readings
  generalize rule.read levels s = reading
  generalize rule'.read levels s' = reading'
  rintro (⟨paired', related⟩ | ⟨alike | terminal, akin⟩)
  · exact .ok paired' related
  · obtain ⟨reported, left⟩ := akin.report alike
    exact .error (.mismatch reported) left
  · rename_i failure _ _
    cases failure with
    | mismatch => cases terminal
    | _ => exact .error (.terminal rfl) akin

/-- The same named rule on both sides. -/
theorem accords_call (name : Symbol α) : Accords N (name.Alike N) (call name) (call name) := by
  intro levels accord s s' paired
  cases levels with
  | nil => exact paired.tooDeep
  | cons level => exact accord level List.mem_cons_self _ name s s' paired

/-- Repetitions end at the same time: both sides move on, or neither does. -/
theorem Accords.loop {kept : σ → σ → Prop} {step step' : σ → SqlRule (Option σ)}
    (keeps : ∀ x x', kept x x' → Accords N (Option.Rel kept) (step x) (step' x')) {x x' : σ}
    (start : kept x x') : Accords N kept (loop step x) (loop step' x') := by
  intro levels accord s s' paired
  simp only [Rule.read, ← paired.tokens.length_eq]
  generalize s.tokens.length + 1 = fuel
  -- On how often the step may still be repeated.
  induction fuel generalizing x x' s s' with
  | zero =>
    have readings := keeps x x' start levels accord s s' paired
    unfold Tape.iterate
    revert readings
    generalize (step x).read levels s = reading
    generalize (step' x').read levels s' = reading'
    rintro (⟨paired', related⟩ | ⟨alike, akin⟩)
    · cases related with
      | none => exact .ok paired' start
      | some next => simp only [ite_self]; exact .ok paired' next
    · exact .error alike akin
  | succ fuel ih =>
    have readings := keeps x x' start levels accord s s' paired
    unfold Tape.iterate
    revert readings
    generalize (step x).read levels s = reading
    generalize (step' x').read levels s' = reading'
    rintro (⟨paired', related⟩ | ⟨alike, akin⟩)
    · cases related with
      | none => exact .ok paired' start
      | some next =>
        simp only [paired.lastEnd, paired'.lastEnd]
        split
        · exact ih next _ _ paired'
        · exact .ok paired' next
    · exact .error alike akin

/-- Both runs take the same branch. -/
theorem Accords.ite {condition condition' : SqlRule Bool} (same : Accords N Eq condition condition')
    (found : Accords N R rule rule') (missing : Accords N R other other') :
    Accords N R (do if ← condition then rule else other) (do if ← condition' then rule' else other') := by
  refine same.same_bind fun value => ?_
  cases value
  · exact missing
  · exact found

theorem Accords.choose {condition : Bool} (first : Accords N R rule rule')
    (second : Accords N R other other') :
    Accords N R (if condition then rule else other) (if condition then rule' else other') := by
  cases condition
  · exact second
  · exact first

theorem accords_check (kind : TokenKind) : Accords N Eq (check kind) (check kind) :=
  accords_peek.map fun _ _ token => ((N.recased token).sameKind kind).symm

theorem accords_checkKeyword (k : Keyword) : Accords N Eq (checkKeyword k) (checkKeyword k) :=
  accords_peek.map fun _ _ token => ((N.recased token).spells k).symm

theorem accords_eat (kind : TokenKind) : Accords N Eq (eat kind) (eat kind) :=
  (accords_check kind).ite (bump_then fun _ _ => accords_pure rfl) (accords_pure rfl)

theorem accords_eatKeyword (k : Keyword) : Accords N Eq (eatKeyword k) (eatKeyword k) :=
  (accords_checkKeyword k).ite (bump_then fun _ _ => accords_pure rfl) (accords_pure rfl)

/-- A token that is expected may stand for the one on the other side. -/
theorem accords_expect (kind : TokenKind) : Accords N N.token (expect kind) (expect kind) :=
  (accords_check kind).ite accords_bump (accords_failAny _)

theorem accords_expectKeyword (k : Keyword) :
    Accords N N.token (expectKeyword k) (expectKeyword k) :=
  (accords_checkKeyword k).ite accords_bump (accords_failAny _)

/-- Something behind a mark. -/
theorem Accords.behind {kind : TokenKind} (rest : Accords N R rule rule') :
    Accords N R (do let _ ← expect kind; rule) (do let _ ← expect kind; rule') :=
  (accords_expect kind).bind fun _ _ _ => rest

/-- Something behind a word. -/
theorem Accords.behindWord {k : Keyword} (rest : Accords N R rule rule') :
    Accords N R (do let _ ← expectKeyword k; rule) (do let _ ← expectKeyword k; rule') :=
  (accords_expectKeyword k).bind fun _ _ _ => rest

/-- A word that is followed by something else than what stands there without it. -/
theorem Accords.ifEaten {k : Keyword} (found : Accords N R rule rule')
    (missing : Accords N R other other') :
    Accords N R (do if ← eatKeyword k then rule else other)
      (do if ← eatKeyword k then rule' else other') :=
  (accords_eatKeyword k).ite found missing

/-- Something behind a word, or nothing without the word. -/
theorem Accords.ifWord {k : Keyword} (present : Accords N R rule rule') :
    Accords N (Option.Rel R) (do if ← eatKeyword k then return some (← rule) else return none)
      (do if ← eatKeyword k then return some (← rule') else return none) :=
  (present.map fun _ _ related => .some related).ifEaten (accords_pure .none)

/-- A word that changes nothing. -/
theorem accords_wordThen {k : Keyword} {value : α} (related : R value value) :
    Accords N R (do let _ ← eatKeyword k; return value) (do let _ ← eatKeyword k; return value) :=
  (accords_eatKeyword k).same_bind fun _ => accords_pure related

theorem Accords.attempt (first : Accords N R rule rule') : Accords N R (attempt rule) (attempt rule') :=
  first.orElse fun _ _ alike => accords_fail (.mismatch alike)

/-- What is left of a choice accords if what was put aside says the same. -/
theorem accords_choiceAfter {rules : List (SqlRule α)} (each : ∀ rule ∈ rules, Accords N R rule rule)
    {failed failed' : Option Mismatch} (alike : Option.Rel Mismatch.Alike failed failed') :
    Accords N R (choiceAfter failed rules) (choiceAfter failed' rules) := by
  induction rules generalizing failed failed' with
  | nil =>
    cases alike with
    | none => exact accords_failAny _
    | some alike => exact accords_fail (.mismatch alike)
  | cons rule rules ih =>
    obtain ⟨first, rest⟩ := List.forall_mem_cons.mp each
    cases alike with
    | none => exact first.orElse fun _ _ alike => ih rest (.some alike)
    | some failed => exact first.orElse fun _ _ alike => ih rest (.some (failed.merge alike))

/-- Choices accord if their alternatives do one by one. -/
theorem accords_choice {rules : List (SqlRule α)} (each : ∀ rule ∈ rules, Accords N R rule rule) :
    Accords N R (choice rules) (choice rules) :=
  accords_choiceAfter each .none

/-- Optional rules give something on both sides or on neither. -/
theorem Accords.optional (first : Accords N R rule rule') :
    Accords N (Option.Rel R) (optional rule) (optional rule') := by
  refine (first.map fun _ _ related => .some related).orElse fun m m' alike => ?_
  have notes : Accords N Eq (note m) (note m') := fun _ _ _ _ paired => .ok (paired.note alike) rfl
  exact notes.same_bind fun _ => accords_pure .none

/-- Repetitions give as many items on both sides. -/
theorem Accords.many (each : Accords N R rule rule') :
    Accords N (List.Forall₂ R) (many rule) (many rule') := by
  rw [many_eq, many_eq]
  have steps : Accords N (List.Forall₂ R) (Rule.loop (manyStep rule) []) (Rule.loop (manyStep rule') []) := by
    refine Accords.loop (fun items items' kept => each.optional.map fun _ _ related => ?_) .nil
    cases related with
    | none => exact .none
    | some related => exact .some (.cons related kept)
  exact steps.map fun _ _ related => List.rel_reverse related

theorem Accords.commaSeparated (each : Accords N R rule rule') :
    Accords N (List.Forall₂ R) (commaSeparated rule) (commaSeparated rule') :=
  each.bind fun _ _ first => each.behind.many.map fun _ _ rest => .cons first rest

theorem Accords.parenthesizedList (each : Accords N R rule rule') :
    Accords N (List.Forall₂ R) (parenthesizedList rule) (parenthesizedList rule') :=
  Accords.behind (each.commaSeparated.bind fun _ _ items => (accords_pure items).behind)

theorem Accords.complete (entry : Accords N R rule rule') :
    Accords N R (complete rule) (complete rule') :=
  entry.attempt.bind fun _ _ value => (accords_eat .semicolon).same_bind fun _ =>
    (accords_check .eof).ite (accords_pure value) (accords_failAny _)

/-- The rules for whole texts accord if the rules of their models do. -/
theorem Accords.run (entry : Accords N R rule rule') : Accords N R (run rule) (run rule') :=
  entry.complete.reporting

end

end Rule

end SqlTree
