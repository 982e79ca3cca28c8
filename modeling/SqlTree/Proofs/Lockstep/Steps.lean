import SqlTree.Proofs.Lockstep.Mirrors
import SqlTree.Proofs.Tree.Lays

namespace SqlTree

/-- Whether a token of a kind may stand behind a statement. -/
def TokenKind.closes : TokenKind → Bool
  | .semicolon | .eof => true
  | _ => false

theorem TokenKind.sameKind_eof_of_inner {kind : TokenKind} (inner : kind.closes = false) :
    kind.sameKind .eof = false := by
  cases kind <;> first | rfl | cases inner

namespace Token.Meets

variable {t t' : Token}

/-- The end of a text and a semicolon spell the same words, none. -/
theorem of_closing {t t' : Token} (isEof : t.kind = .eof) (semicolon : t'.kind = .semicolon) :
    t.spells = t'.spells ∧ t.keyword? = t'.keyword? := by
  unfold Token.spells Token.keyword?
  simp [isEof, semicolon]

/-- Both texts answer alike whether the next token is a word. -/
theorem spells (meets : t.Meets t') (k : Keyword) : t'.spells k = t.spells k := by
  rcases meets with like | ⟨isEof, semicolon⟩
  · exact like.spells k
  · rw [(of_closing isEof semicolon).1]

theorem isKeyword (meets : t.Meets t') : t'.isKeyword = t.isKeyword := by
  rcases meets with like | ⟨isEof, semicolon⟩
  · exact like.isKeyword
  · rw [Token.isKeyword, Token.isKeyword, (of_closing isEof semicolon).2]

/-- Kinds but those that may end a statement are told apart. -/
theorem sameKind (meets : t.Meets t') {kind : TokenKind} (inner : kind.closes = false) :
    t'.kind.sameKind kind = t.kind.sameKind kind := by
  rcases meets with like | ⟨isEof, semicolon⟩
  · rw [like.kind]
  · rw [isEof, semicolon]
    cases kind <;> first | rfl | cases inner

end Token.Meets

/-- Both texts answer alike whether the next token is of a kind, unless it may end a statement of one of
them. -/
theorem Facing.sameKind {L : Likeness} (texts : Facing L) {kind : TokenKind}
    (told : texts.Closed ∨ kind.closes = false) (i : Nat) :
    (texts.right.tokenAt i).kind.sameKind kind = (texts.left.tokenAt i).kind.sameKind kind := by
  rcases told with closed | inner
  · rw [(texts.like closed i).kind]
  · exact (texts.meets i).sameKind inner

/-- The starts of corresponding tokens. -/
def Facing.Starts {L : Likeness} (texts : Facing L) (p p' : Position) : Prop :=
  ∃ i ≤ texts.left.length, p = texts.left.startAt i ∧ p' = texts.right.startAt i

namespace Rule

variable {Sym : Type → Type} {α β : Type} {L : Likeness} {texts : Facing L}
  {levels : List (TapeLevel Sym)} {i : Nat} {R : α → α → Prop} {post : Nat → β → β → Prop}

/-- Wherever two runs of a rule stand at corresponding places they come to corresponding values. -/
def Matches (texts : Facing L) (levels : List (TapeLevel Sym)) (rule : Rule Sym α)
    (R : α → α → Prop) : Prop :=
  ∀ i, Mirrors texts levels i rule rule fun _ => R

section

variable {rule : Rule Sym α} {next next' : α → Rule Sym β}

/-- One rule behind another one, for rules that say the same wherever they begin. -/
theorem Matches.bind (first : Matches texts levels rule R)
    (rest : ∀ j v v', R v v' → Mirrors texts levels j (next v) (next' v') post) :
    Mirrors texts levels i (rule >>= next) (rule >>= next') post :=
  Mirrors.bind (first i) rest

/-- Both runs take the same branch. -/
theorem Matches.ite {condition : Rule Sym Bool} {a a' b b' : Rule Sym β}
    (same : Matches texts levels condition Eq) (found : ∀ j, Mirrors texts levels j a a' post)
    (missing : ∀ j, Mirrors texts levels j b b' post) :
    Mirrors texts levels i (do if ← condition then a else b) (do if ← condition then a' else b')
      post := by
  refine same.bind fun j value _ same => ?_
  subst same
  cases value
  · exact missing j
  · exact found j

/-- What is made of both values. -/
theorem Matches.map {S : β → β → Prop} {g : α → β} (first : Matches texts levels rule R)
    (related : ∀ v v', R v v' → S (g v) (g v')) :
    Matches texts levels (do return g (← rule)) S :=
  fun _ => first.bind fun _ _ _ like => mirrors_pure (related _ _ like)

/-- A value that says the same as itself. -/
theorem matches_pure {value : α} (related : R value value) :
    Matches texts levels (Pure.pure value : Rule Sym α) R :=
  fun _ => mirrors_pure related

/-- The next token, which is the same on both sides but for its place and for what ends the texts. -/
theorem peek_bind {next next' : Token → Rule Sym β}
    (rest : (texts.left.tokenAt i).Meets (texts.right.tokenAt i) →
      Mirrors texts levels i (next (texts.left.tokenAt i)) (next' (texts.right.tokenAt i)) post) :
    Mirrors texts levels i (peek >>= next) (peek >>= next') post := by
  have peeks : Mirrors texts levels i (peek : Rule Sym Token) peek fun j t t' =>
      j = i ∧ t = texts.left.tokenAt i ∧ t' = texts.right.tokenAt i := mirrors_peek ⟨rfl, rfl, rfl⟩
  refine peeks.bind ?_
  rintro _ _ _ ⟨rfl, rfl, rfl⟩
  exact rest (texts.meets _)

/-- The next token by its parts, so that both runs can be told apart by its kind. -/
theorem peek_cases {next next' : Token → Rule Sym β}
    (rest : ∀ kind text span span', texts.left.tokenAt i = ⟨kind, text, span⟩ →
      (i < texts.left.length → span.Like L span') →
      Mirrors texts levels i (next ⟨kind, text, span⟩) (next' ⟨kind, text, span'⟩) post)
    (closing : ∀ text span text' span', texts.left.tokenAt i = ⟨.eof, text, span⟩ → ¬ texts.Closed →
      Mirrors texts levels i (next ⟨.eof, text, span⟩) (next' ⟨.semicolon, text', span'⟩) post) :
    Mirrors texts levels i (peek >>= next) (peek >>= next') post := by
  refine peek_bind fun meets => ?_
  have spans := texts.span (i := i)
  have closed := fun closed => texts.like closed i
  rcases left : texts.left.tokenAt i with ⟨kind, text, span⟩
  rcases right : texts.right.tokenAt i with ⟨kind', text', span'⟩
  rw [left, right] at meets spans closed
  rcases meets with like | ⟨isEof, semicolon⟩
  · obtain ⟨rfl, rfl⟩ := like
    exact rest _ _ _ _ left spans
  · cases isEof
    cases semicolon
    exact closing _ _ _ _ left fun holds => nomatch (closed holds).kind

/-- What both runs know of their place. -/
theorem mirrors_within {rule rule' : Rule Sym β}
    (mirrors : i ≤ texts.left.length → Mirrors texts levels i rule rule' post) :
    Mirrors texts levels i rule rule' post :=
  fun s s' abreast => mirrors abreast.left.within s s' abreast

/-- Consuming a token that is not the end of the text. -/
theorem bump_bind {next next' : Token → Rule Sym β} (notEof : (texts.left.tokenAt i).isEof = false)
    (rest : i < texts.left.length → Mirrors texts levels (i + 1) (next (texts.left.tokenAt i))
      (next' (texts.right.tokenAt i)) post) :
    Mirrors texts levels i (bump >>= next) (bump >>= next') post := by
  refine mirrors_within fun within => ?_
  have bumps : Mirrors texts levels i (bump : Rule Sym Token) bump fun j t t' =>
      j = i + 1 ∧ t = texts.left.tokenAt i ∧ t' = texts.right.tokenAt i :=
    mirrors_bump notEof ⟨rfl, rfl, rfl⟩
  refine bumps.bind ?_
  rintro _ _ _ ⟨rfl, rfl, rfl⟩
  exact rest (texts.lt_of_notEof within notEof)

/-- A rule that begins by noting its place. -/
theorem start_bind {next next' : Position → Rule Sym β}
    (rest : Mirrors texts levels i (next (texts.left.startAt i)) (next' (texts.right.startAt i)) post) :
    Mirrors texts levels i (start >>= next) (start >>= next') post := by
  have starts : Mirrors texts levels i (start : Rule Sym Position) start fun j p p' =>
      j = i ∧ p = texts.left.startAt i ∧ p' = texts.right.startAt i :=
    peek_bind fun _ => mirrors_pure ⟨rfl, rfl, rfl⟩
  refine starts.bind ?_
  rintro _ _ _ ⟨rfl, rfl, rfl⟩
  exact rest

/-- Both runs are in front of the same token. -/
theorem matches_start : Matches texts levels (start : Rule Sym Position) texts.Starts :=
  fun i => mirrors_within fun within => peek_bind fun _ => mirrors_pure ⟨i, within, rfl, rfl⟩

/-- The span from a place to the end of the last token that was consumed. -/
theorem mirrors_spanFrom (p p' : Position) :
    Mirrors texts levels i (spanFrom p : Rule Sym Span) (spanFrom p') fun j span span' =>
      j = i ∧ span = ⟨p, (texts.left.stopAt i).later p⟩ ∧
        span' = ⟨p', (texts.right.stopAt i).later p'⟩ := by
  have ends : Mirrors texts levels i (lastEnd : Rule Sym Position) lastEnd fun j q q' =>
      j = i ∧ q = texts.left.stopAt i ∧ q' = texts.right.stopAt i := mirrors_lastEnd ⟨rfl, rfl, rfl⟩
  refine ends.bind ?_
  rintro _ _ _ ⟨rfl, rfl, rfl⟩
  exact mirrors_pure ⟨rfl, rfl, rfl⟩

/-- From the start of a token to the end of the last one that was consumed. -/
theorem spanFrom_bind {p p' : Position} {next next' : Span → Rule Sym β} (starts : texts.Starts p p')
    (rest : ∀ span span', span.Like L span' → Mirrors texts levels i (next span) (next' span') post) :
    Mirrors texts levels i (spanFrom p >>= next) (spanFrom p' >>= next') post := by
  obtain ⟨k, hk, rfl, rfl⟩ := starts
  refine mirrors_within fun within => (mirrors_spanFrom _ _).bind ?_
  rintro _ _ _ ⟨rfl, rfl, rfl⟩
  exact rest _ _ ⟨texts.start k hk, texts.stop k hk _ within⟩

/-- Both runs fail at the next token. -/
theorem mirrors_failAny (expected : List String) :
    Mirrors texts levels i (failAny expected : Rule Sym β) (failAny expected) post := by
  refine mirrors_within fun within => peek_bind fun _ => mirrors_fail (.mismatch ?_)
  by_cases exact : texts.exact
  · rw [(texts.like (texts.closed_of_exact exact) i).describe]
    exact .at within
  · exact .any exact

/-- Both runs ask for the same at the same token. -/
theorem matches_failAny (expected : List String) :
    Matches texts levels (failAny expected : Rule Sym α) R :=
  fun _ => mirrors_failAny expected

/-- Asking whether the next token is of a kind; both runs get the same answer. -/
theorem check_bind {kind : TokenKind} {next next' : Bool → Rule Sym β}
    (told : texts.Closed ∨ kind.closes = false)
    (rest : ∀ found, (found = true → (texts.left.tokenAt i).kind.sameKind kind = true) →
      Mirrors texts levels i (next found) (next' found) post) :
    Mirrors texts levels i (check kind >>= next) (check kind >>= next') post := by
  have checks : Mirrors texts levels i (check kind : Rule Sym Bool) (check kind) fun j b b' =>
      j = i ∧ b = (texts.left.tokenAt i).kind.sameKind kind ∧ b' = b :=
    peek_bind fun _ => mirrors_pure ⟨rfl, rfl, texts.sameKind told i⟩
  refine checks.bind ?_
  rintro _ _ _ ⟨rfl, rfl, rfl⟩
  exact rest _ id

/-- Asking whether the next token is a word. -/
theorem checkKeyword_bind {k : Keyword} {next next' : Bool → Rule Sym β}
    (rest : ∀ found, (found = true → (texts.left.tokenAt i).spells k = true) →
      Mirrors texts levels i (next found) (next' found) post) :
    Mirrors texts levels i (checkKeyword k >>= next) (checkKeyword k >>= next') post := by
  have checks : Mirrors texts levels i (checkKeyword k : Rule Sym Bool) (checkKeyword k) fun j b b' =>
      j = i ∧ b = (texts.left.tokenAt i).spells k ∧ b' = b :=
    peek_bind fun meets => mirrors_pure ⟨rfl, rfl, meets.spells k⟩
  refine checks.bind ?_
  rintro _ _ _ ⟨rfl, rfl, rfl⟩
  exact rest _ id

/-- Asking for a kind, which does not tell an end from a semicolon unless both texts end together. -/
theorem matches_check {kind : TokenKind} (told : texts.Closed ∨ kind.closes = false) :
    Matches texts levels (check kind : Rule Sym Bool) Eq :=
  fun i => peek_bind fun _ => mirrors_pure (texts.sameKind told i).symm

theorem matches_checkKeyword (k : Keyword) :
    Matches texts levels (checkKeyword k : Rule Sym Bool) Eq :=
  fun _ => peek_bind fun meets => mirrors_pure (meets.spells k).symm

theorem matches_eatIf {kind : TokenKind} (told : texts.Closed ∨ kind.closes = false)
    (notEof : kind.sameKind .eof = false) : Matches texts levels (eat kind : Rule Sym Bool) Eq := by
  intro i
  refine check_bind told fun found here => ?_
  cases found with
  | false => exact mirrors_pure rfl
  | true =>
    exact bump_bind (TokenKind.sameKind_eof (here rfl) notEof) fun _ => mirrors_pure rfl

/-- Both runs consume a token of a kind if it is next. -/
theorem matches_eat {kind : TokenKind} (inner : kind.closes = false) :
    Matches texts levels (eat kind : Rule Sym Bool) Eq :=
  matches_eatIf (.inr inner) (TokenKind.sameKind_eof_of_inner inner)

theorem matches_eatKeyword (k : Keyword) :
    Matches texts levels (eatKeyword k : Rule Sym Bool) Eq := by
  intro i
  refine checkKeyword_bind fun found here => ?_
  cases found with
  | false => exact mirrors_pure rfl
  | true => exact bump_bind (Token.isEof_of_spells (here rfl)) fun _ => mirrors_pure rfl

/-- A token that both runs consume is the same on both sides. -/
theorem mirrors_take (notEof : (texts.left.tokenAt i).isEof = false) :
    Mirrors texts levels i (bump : Rule Sym Token) bump fun _ => Token.Like :=
  mirrors_within fun within =>
    mirrors_bump notEof (texts.like_of_lt (texts.lt_of_notEof within notEof))

theorem matches_expectIf {kind : TokenKind} (told : texts.Closed ∨ kind.closes = false)
    (notEof : kind.sameKind .eof = false) :
    Matches texts levels (expect kind : Rule Sym Token) Token.Like := by
  intro i
  refine check_bind told fun found here => ?_
  cases found with
  | false => exact matches_failAny _ i
  | true => exact mirrors_take (TokenKind.sameKind_eof (here rfl) notEof)

/-- Both runs fail if a token of a kind is not next. -/
theorem matches_expect {kind : TokenKind} (inner : kind.closes = false) :
    Matches texts levels (expect kind : Rule Sym Token) Token.Like :=
  matches_expectIf (.inr inner) (TokenKind.sameKind_eof_of_inner inner)

theorem matches_expectKeyword (k : Keyword) :
    Matches texts levels (expectKeyword k : Rule Sym Token) Token.Like := by
  intro i
  refine checkKeyword_bind fun found here => ?_
  cases found with
  | false => exact matches_failAny _ i
  | true => exact mirrors_take (Token.isEof_of_spells (here rfl))

/-- Combinators of rules that match match. -/
theorem Matches.attempt (first : Matches texts levels rule R) :
    Matches texts levels (attempt rule) R :=
  fun i => (first i).orElse fun _ _ like => mirrors_fail (.mismatch like)

theorem matches_choiceAfter {rules : List (Rule Sym α)}
    (each : ∀ rule ∈ rules, Matches texts levels rule R) {failed failed' : Option Mismatch}
    (like : Option.Rel (Mismatch.Like texts) failed failed') (i : Nat) :
    Mirrors texts levels i (choiceAfter failed rules) (choiceAfter failed' rules) fun _ => R := by
  induction rules generalizing failed failed' with
  | nil =>
    cases like with
    | none => exact matches_failAny _ i
    | some like => exact mirrors_fail (.mismatch like)
  | cons rule rules ih =>
    obtain ⟨first, rest⟩ := List.forall_mem_cons.mp each
    cases like with
    | none => exact (first i).orElse fun _ _ like => ih rest (.some like)
    | some failed => exact (first i).orElse fun _ _ like => ih rest (.some (failed.merge like))

/-- Both runs take the same alternative. -/
theorem matches_choice {rules : List (Rule Sym α)}
    (each : ∀ rule ∈ rules, Matches texts levels rule R) : Matches texts levels (choice rules) R :=
  matches_choiceAfter each .none

theorem Matches.optional (first : Matches texts levels rule R) :
    Matches texts levels (optional rule) (Option.Rel R) := by
  intro i
  refine Mirrors.orElse (first.map (fun _ _ like => .some like) i) fun m m' like => ?_
  have notes : Mirrors texts levels i (note m : Rule Sym Unit) (note m') fun _ _ _ => True :=
    mirrors_note like trivial
  exact notes.bind fun _ _ _ _ => mirrors_pure .none

/-- Both runs read as many items. -/
theorem Matches.many (each : Matches texts levels rule R) :
    Matches texts levels (many rule) (List.Forall₂ R) := by
  intro i
  rw [many_eq]
  have steps : Mirrors texts levels i (loop (manyStep rule) []) (loop (manyStep rule) [])
      fun _ => List.Forall₂ R := by
    refine Mirrors.loop .nil fun j items items' kept => ?_
    refine each.optional.bind fun k item item' like => ?_
    cases like with
    | none => exact mirrors_pure (.stop kept)
    | some like => exact mirrors_pure (.next (.cons like kept))
  exact steps.bind fun _ _ _ like => mirrors_pure (List.rel_reverse like)

theorem Matches.commaSeparated (each : Matches texts levels rule R) :
    Matches texts levels (commaSeparated rule) (List.Forall₂ R) := by
  intro i
  have behindComma : Matches texts levels (do
      let _ ← expect .comma
      rule) R := fun _ => (matches_expect rfl).bind fun j _ _ _ => each j
  refine each.bind fun _ first first' like => ?_
  exact behindComma.many.bind fun _ rest rest' likes => mirrors_pure (.cons like likes)

theorem Matches.parenthesizedList (each : Matches texts levels rule R) :
    Matches texts levels (parenthesizedList rule) (List.Forall₂ R) := by
  intro i
  refine (matches_expect rfl).bind fun _ _ _ _ => ?_
  refine each.commaSeparated.bind fun _ items items' like => ?_
  exact (matches_expect rfl).bind fun _ _ _ _ => mirrors_pure like

/-- Nothing may follow an entry in either text. -/
theorem Matches.complete (entry : Matches texts levels rule R) (closed : texts.Closed) :
    Matches texts levels (complete rule) R := by
  intro i
  refine entry.attempt.bind fun _ value value' like => ?_
  refine (matches_eatIf (.inl closed) rfl).bind fun _ _ _ _ => ?_
  exact (matches_check (.inl closed)).ite (fun _ => mirrors_pure like) (matches_failAny _)

/-- Both runs of an entry report the same. -/
theorem Matches.run (entry : Matches texts levels rule R) (closed : texts.Closed) :
    Matches texts levels (run rule) R :=
  fun i => (entry.complete closed i).reporting

end

end Rule

end SqlTree
