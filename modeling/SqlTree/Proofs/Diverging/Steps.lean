import SqlTree.Proofs.Lockstep.Steps
import SqlTree.Proofs.Diverging.Texts
import SqlTree.Proofs.Reading.Plain

namespace SqlTree

open Rule SqlRule

/-- A word is of no kind but those of words. -/
theorem TokenKind.sameKind_of_isWord {a b : TokenKind} (word : a.isWord = true)
    (other : b.isWord = false) : a.sameKind b = false := by
  cases a <;> first | (cases word; done) | (cases b <;> first | rfl | cases other)

/-- A token is of one kind only. -/
theorem TokenKind.sameKind_of_sameKind {a b c : TokenKind} (same : a.sameKind b = true)
    (other : b.sameKind c = false) : a.sameKind c = false := by
  rw [sameKind, beq_iff_eq] at same
  rwa [sameKind, same]

/-- What spells a word is a word. -/
theorem Token.isWord_of_spells {t : Token} {k : Keyword} (spells : t.spells k = true) :
    t.kind.isWord = true := by
  rcases t with ⟨kind, text, span⟩
  cases kind <;> first | rfl | cases spells

namespace Rule

section

variable {α β : Type} {levels : List (TapeLevel Symbol)} {sheet : Sheet} {i j k : Nat}

/-- What a rule comes to over a sheet is followed step by step. -/
theorem comes_pure (b : β) : (Pure.pure b : SqlRule β).Comes levels sheet i b i :=
  fun _ here => (succeeds_pure b).mpr ⟨rfl, here, rfl⟩

theorem Comes.bind {first : SqlRule β} {next : β → SqlRule α} {b : β} {a : α}
    (head : first.Comes levels sheet i b k) (rest : (next b).Comes levels sheet k a j) :
    (first >>= next).Comes levels sheet i a j := by
  intro s here
  refine succeeds_bind.mpr ((head s here).mono ?_)
  rintro _ between ⟨rfl, there, params⟩
  exact (rest between there).mono fun _ _ ⟨same, place, params'⟩ => ⟨same, place, params'.trans params⟩

theorem comes_peek : (peek : SqlRule Token).Comes levels sheet i (sheet.tokenAt i) i :=
  fun _ here => (succeeds_peek here.peek).mpr ⟨rfl, here, rfl⟩

theorem comes_bump (lt : i < sheet.length) :
    (bump : SqlRule Token).Comes levels sheet i (sheet.tokenAt i) (i + 1) := by
  intro s here
  obtain ⟨shown, moved, params, -⟩ := here.bump lt
  exact ⟨_, _, Prod.ext shown rfl, rfl, moved, params⟩

theorem comes_note (m : Mismatch) : (note m : SqlRule Unit).Comes levels sheet i () i :=
  fun s here => ⟨(), s.note m, rfl, rfl, { here with }, rfl⟩

theorem comes_start : (start : SqlRule Position).Comes levels sheet i (sheet.startAt i) i :=
  comes_peek.bind (comes_pure _)

theorem comes_spanFrom (p : Position) :
    (spanFrom p : SqlRule Span).Comes levels sheet i ⟨p, (sheet.stopAt i).later p⟩ i :=
  fun _ here => (succeeds_spanFrom p).mpr ⟨by rw [here.lastEnd], here, rfl⟩

/-- An answer about the next token consumes nothing. -/
theorem comes_check (kind : TokenKind) : (check kind : SqlRule Bool).Comes levels sheet i
    ((sheet.tokenAt i).kind.sameKind kind) i :=
  comes_peek.bind (comes_pure _)

theorem comes_checkKeyword (k : Keyword) :
    (checkKeyword k : SqlRule Bool).Comes levels sheet i ((sheet.tokenAt i).spells k) i :=
  comes_peek.bind (comes_pure _)

/-- What follows an answer. -/
theorem Comes.ite {condition : SqlRule Bool} {found : Bool} {rule other : SqlRule α} {a : α}
    (head : condition.Comes levels sheet i found k)
    (rest : (if found = true then rule else other).Comes levels sheet k a j) :
    (do if ← condition then rule else other).Comes levels sheet i a j :=
  head.bind rest

/-- A token of the kind that may be left out is consumed. -/
theorem comes_eat {kind : TokenKind} (lt : i < sheet.length)
    (same : (sheet.tokenAt i).kind.sameKind kind = true) :
    (eat kind : SqlRule Bool).Comes levels sheet i true (i + 1) := by
  refine (comes_check kind).ite ?_
  rw [if_pos same]
  exact (comes_bump lt).bind (comes_pure true)

/-- A token of another kind than the one that may be left out stays. -/
theorem comes_eat_not {kind : TokenKind} (other : (sheet.tokenAt i).kind.sameKind kind = false) :
    (eat kind : SqlRule Bool).Comes levels sheet i false i := by
  refine (comes_check kind).ite ?_
  rw [other]
  exact comes_pure false

theorem comes_eatKeyword {word : Keyword} (lt : i < sheet.length)
    (spells : (sheet.tokenAt i).spells word = true) :
    (eatKeyword word : SqlRule Bool).Comes levels sheet i true (i + 1) := by
  refine (comes_checkKeyword word).ite ?_
  rw [if_pos spells]
  exact (comes_bump lt).bind (comes_pure true)

theorem comes_eatKeyword_not {word : Keyword} (other : (sheet.tokenAt i).spells word = false) :
    (eatKeyword word : SqlRule Bool).Comes levels sheet i false i := by
  refine (comes_checkKeyword word).ite ?_
  rw [other]
  exact comes_pure false

theorem comes_expect {kind : TokenKind} (lt : i < sheet.length)
    (same : (sheet.tokenAt i).kind.sameKind kind = true) :
    (expect kind : SqlRule Token).Comes levels sheet i (sheet.tokenAt i) (i + 1) := by
  refine (comes_check kind).ite ?_
  rw [if_pos same]
  exact comes_bump lt

theorem comes_expectKeyword {word : Keyword} (lt : i < sheet.length)
    (spells : (sheet.tokenAt i).spells word = true) :
    (expectKeyword word : SqlRule Token).Comes levels sheet i (sheet.tokenAt i) (i + 1) := by
  refine (comes_checkKeyword word).ite ?_
  rw [if_pos spells]
  exact comes_bump lt

/-- What never comes to a value has nothing behind it. -/
theorem Never.bind {first : SqlRule β} (never : first.Never levels sheet i) (next : β → SqlRule α) :
    (first >>= next).Never levels sheet i :=
  fun s here => yields_bind.mpr ((never s here).mono fun _ _ => False.elim)

/-- The rest of a rule may never come to a value. -/
theorem Comes.never {first : SqlRule β} {next : β → SqlRule α} {b : β}
    (head : first.Comes levels sheet i b k) (rest : (next b).Never levels sheet k) :
    (first >>= next).Never levels sheet i := by
  refine fun s here => yields_bind.mpr ((head s here).yields.mono ?_)
  rintro _ between ⟨rfl, there, -⟩
  exact rest between there

/-- Looking ahead leads back. -/
theorem Comes.lookahead {rule : SqlRule α} {a : α} (comes : rule.Comes levels sheet i a k) :
    (lookahead rule).Comes levels sheet i a i := by
  intro s here
  obtain ⟨_, after, read, rfl, there, -⟩ := comes s here
  refine ⟨_, after.backTo s, ?_, rfl, { there with
    within := here.within, tokens := here.tokens, lastEnd := here.lastEnd }, rfl⟩
  simp only [Rule.read, read]

/-- Where a rule refuses every tape it never gives anything. -/
theorem never_of_refuses {rule : SqlRule α} (refuses : ∀ s : Tape, s.At sheet i → rule.Refuses levels s) :
    rule.Never levels sheet i := by
  intro s here value after read
  obtain ⟨m, fails, -⟩ := refuses s here
  cases fails.symm.trans read

end

/-- Behind the first `i` tokens of a sheet a rule fails at a mismatch. -/
def Stops {α : Type} (rule : SqlRule α) (levels : List (TapeLevel Symbol)) (sheet : Sheet) (i : Nat) :
    Prop :=
  ∀ s : Tape, s.At sheet i → ∃ m after, rule.read levels s = (.error (.mismatch m), after)

/-- Behind the first `i` tokens of a sheet a rule gives a value and comes behind the first `j` ones. -/
def Gets {α : Type} (rule : SqlRule α) (levels : List (TapeLevel Symbol)) (sheet : Sheet) (i : Nat)
    (v : α) (j : Nat) : Prop :=
  ∃ s after : Tape, s.At sheet i ∧ rule.read levels s = (.ok v, after) ∧ after.At sheet j

/-- Somewhere behind the first `i` tokens of a sheet a rule fails at a mismatch. -/
def Misfits {α : Type} (rule : SqlRule α) (levels : List (TapeLevel Symbol)) (sheet : Sheet) (i : Nat) :
    Prop :=
  ∃ s : Tape, s.At sheet i ∧ ∃ m after, rule.read levels s = (.error (.mismatch m), after)

section

variable {α : Type} {levels : List (TapeLevel Symbol)} {sheet : Sheet} {i : Nat} {f : Features}
  {limit : Nat} {s : Tape}

/-- Where a rule refuses every tape it fails at a mismatch. -/
theorem stops_of_refuses {rule : SqlRule α}
    (refuses : ∀ s : Tape, s.At sheet i → rule.Refuses levels s) : rule.Stops levels sheet i := by
  intro s here
  obtain ⟨m, fails, -⟩ := refuses s here
  exact ⟨m, s, fails⟩

/-- A rule fails if its first step does. -/
theorem Stops.bind {β : Type} {rule : SqlRule α} (stops : rule.Stops levels sheet i)
    (next : α → SqlRule β) : (rule >>= next).Stops levels sheet i := by
  intro s here
  obtain ⟨m, after, fails⟩ := stops s here
  refine ⟨m, after, ?_⟩
  change (rule.bind next).read levels s = _
  rw [Rule.read, fails]

/-- A rule fails if what stands behind its first step does. -/
theorem Comes.stops {β : Type} {first : SqlRule β} {next : β → SqlRule α} {b : β} {k : Nat}
    (head : first.Comes levels sheet i b k) (rest : (next b).Stops levels sheet k) :
    (first >>= next).Stops levels sheet i := by
  intro s here
  obtain ⟨_, between, read, rfl, there, -⟩ := head s here
  obtain ⟨m, after, fails⟩ := rest between there
  refine ⟨m, after, ?_⟩
  change (first.bind next).read levels s = _
  rw [Rule.read, read]
  exact fails

/-- If the first step fits, the mismatch is one of what follows it. -/
theorem Comes.misfits {β : Type} {first : SqlRule β} {next : β → SqlRule α} {b : β} {k : Nat}
    (head : first.Comes levels sheet i b k) (misfits : (first >>= next).Misfits levels sheet i) :
    (next b).Misfits levels sheet k := by
  obtain ⟨s, here, m, after, fails⟩ := misfits
  obtain ⟨_, between, read, rfl, there, -⟩ := head s here
  refine ⟨between, there, m, after, ?_⟩
  change (first.bind next).read levels s = _ at fails
  rwa [Rule.read, read] at fails

/-- A rule that waits for some words fails where none of them stand. -/
theorem Awaits.stops {rule : SqlRule α} {words : List Keyword} (awaits : rule.Awaits levels words)
    (other : ∀ k ∈ words, (sheet.tokenAt i).spells k = false) : rule.Stops levels sheet i :=
  stops_of_refuses fun s here => awaits.refuses s _ here.cancelAfter here.peek other

/-- Going back from where a rule came to. -/
theorem Plain.backTo {rule : SqlRule α} (plain : rule.Plain) (here : s.At sheet i)
    {result : Except Failure α} {tried : Tape}
    (read : rule.read (sqlLevels f limit) s = (result, tried)) : (tried.backTo s).At sheet i := by
  have leads := rule.read_leads (sqlLevels_forward f limit) s
  have confined : ∀ α name, (Symbol.body f α name).Confined False False :=
    fun α name => Symbol.body_confined f α name
  have keeps := rule.read_cancelAfter (plain.confined : rule.Confined False False)
    (tapeLevels_keepsRest confined limit) s (.inl here.cancelAfter)
  rw [read] at leads keeps
  exact ⟨⟨leads.text.trans here.text, leads.stop.trans here.stop, keeps.trans here.cancelAfter⟩,
    here.within, here.tokens, here.lastEnd⟩

/-- What a choice gives one of the alternatives gives. -/
theorem choiceAfter_ok {rules : List (SqlRule α)} (plain : ∀ rule ∈ rules, rule.Plain)
    {noted : Option Mismatch} (here : s.At sheet i) {value : α} {after : Tape}
    (read : (choiceAfter noted rules).read (sqlLevels f limit) s = (.ok value, after)) :
    ∃ rule ∈ rules, ∃ s₂ : Tape, s₂.At sheet i ∧ s₂.params = s.params ∧
      rule.read (sqlLevels f limit) s₂ = (.ok value, after) := by
  induction rules generalizing noted s with
  | nil =>
    cases noted with
    | none => exact (never_of_refuses fun _ here => refuses_failAny here.peek []) s here value after read |>.elim
    | some m => cases read
  | cons rule rules ih =>
    rw [choiceAfter_cons] at read
    simp only [Rule.read, here.checked] at read
    obtain ⟨first, others⟩ := List.forall_mem_cons.mp plain
    split at read
    · rename_i fits
      cases read
      exact ⟨rule, List.mem_cons_self, s, here, rfl, fits⟩
    · rename_i m tried fails
      obtain ⟨rule, mem, s₂, there, params, fits⟩ := ih others (first.backTo here fails) read
      exact ⟨rule, List.mem_cons_of_mem _ mem, s₂, there, params, fits⟩
    · cases read

end

end Rule

/-- A loop from its first step on. -/
theorem Rule.succeeds_loop_of_step {σ : Type} {levels : List (TapeLevel Symbol)} {s : Tape}
    {step : σ → SqlRule (Option σ)} {x : σ} {post : σ → Tape → Prop}
    (forward : ∀ level ∈ levels, level.Forward)
    (first : (step x).Succeeds levels s fun next mid =>
      match next with
      | none => post x mid
      | some y =>
        if s.lastEnd.offset < mid.lastEnd.offset then (loop step y).Succeeds levels mid post
        else post y mid) :
    (loop step x).Succeeds levels s post := by
  obtain ⟨_ | y, mid, read, holds⟩ := first
  · exact succeeds_loop forward ⟨x, mid, .stop read, holds⟩
  · dsimp only at holds
    split at holds
    · rename_i further
      obtain ⟨z, after, readRest, holds⟩ := holds
      have runs := runs_of_iterate (fun x s => (step x).read_leads forward s) mid.ahead_le readRest
      exact succeeds_loop forward ⟨z, after, .next read further runs, holds⟩
    · rename_i rests
      exact succeeds_loop forward ⟨y, mid, .stay read rests, holds⟩

/-- Kinds of tokens other than words, commas and the end of the text. -/
def TokenKind.isMark : TokenKind → Bool
  | .identifier _ | .keyword _ | .comma | .eof => false
  | _ => true

theorem TokenKind.sameKind_of_isMark {a b : TokenKind} (mark : b.isMark = true)
    (other : a.isMark = false) : a.sameKind b = false := by
  cases b <;> first | (cases mark; done) | (cases a <;> first | rfl | cases other)

/-- The end of the text is no mark. -/
theorem TokenKind.isMark_eof {kind : TokenKind} (mark : kind.isMark = true) :
    kind.sameKind .eof = false := by
  cases kind <;> first | rfl | cases mark

/-- No mark ends an expression: it could be an operator. -/
theorem Token.EndsExpr.isMark {f : Features} {t : Token} (ends : t.EndsExpr f) :
    t.kind.isMark = false := by
  rcases ends.kind with word | kind | kind
  · cases same : t.kind <;> first | rfl | (rw [same] at word; cases word)
  · rw [kind]; rfl
  · rw [kind]; rfl

namespace Diverging

section

variable {f : Features} {q : Diverging f} {i j k : Nat}

/-- In the first text the name is an identifier, or a reserved word. -/
theorem kind_spot (rejoins : q.rejoins) : (q.left.tokenAt q.spot).kind = .identifier q.value ∨
    ∃ k, (q.left.tokenAt q.spot).kind = .keyword k := by
  refine (q.named rejoins).imp id fun ⟨keyword, _⟩ => ?_
  unfold Token.isKeyword Token.keyword? at keyword
  split at keyword
  · exact ⟨_, ‹_›⟩
  · cases keyword

/-- Where both texts have the name, the first one has a word. -/
theorem isWord_spot (rejoins : q.rejoins) : (q.left.tokenAt q.spot).kind.isWord = true := by
  rcases q.kind_spot rejoins with kind | ⟨k, kind⟩ <;> rw [kind] <;> rfl

/-- A mark that is not in the first text is not in the second one. -/
theorem sameKind_right {kind : TokenKind} (mark : kind.isMark = true) (reads : q.Reads i)
    (other : (q.left.tokenAt i).kind.sameKind kind = false) :
    (q.right.tokenAt i).kind.sameKind kind = false := by
  by_cases here : i = q.spot
  · rw [here]
    exact TokenKind.sameKind_of_isMark mark q.ends.isMark
  · rwa [(q.like i (q.clean_of_ne reads here)).kind]

/-- Where the next tokens are alike, they spell the same words. -/
theorem Clean.spells (clean : q.Clean i) (k : Keyword) :
    (q.right.tokenAt i).spells k = (q.left.tokenAt i).spells k :=
  (q.like i clean).spells k

/-- A word that is not in the first text is not in the second one, if the next tokens are alike or the
name. -/
theorem Inside.quiet (inside : q.Inside i) {k : Keyword} (other : (q.left.tokenAt i).spells k = false) :
    (q.right.tokenAt i).spells k = false := by
  by_cases here : i = q.spot
  · obtain rejoins : q.rejoins := inside.resolve_left (by omega)
    rw [here]
    exact q.noWord rejoins k
  · rwa [(q.clean_of_ne inside.reads here).spells]

/-- At the spot the second text has neither words, but those of a limit, nor names where the first text
has none. -/
structure Mild (q : Diverging f) : Prop where
  words : ∀ k ∉ limitWords, (q.left.tokenAt q.spot).spells k = false →
    (q.right.tokenAt q.spot).spells k = false
  bareAlias : isBareAlias f (q.left.tokenAt q.spot) = false →
    isBareAlias f (q.right.tokenAt q.spot) = false
  type : (q.left.tokenAt q.spot).typeWord? false = none → (q.right.tokenAt q.spot).typeWord? false = none
  plainWord : ∀ word, (q.left.tokenAt q.spot).isPlainWord word = false →
    (q.right.tokenAt q.spot).isPlainWord word = false

/-- Both texts answer alike what is asked there, the words of a limit apart. -/
def Calm (q : Diverging f) (i : Nat) : Prop := q.Inside i ∨ q.Mild

theorem Inside.calm (inside : q.Inside i) : q.Calm i := .inl inside

theorem Clean.calm (clean : q.Clean i) : q.Calm i := .inl clean.inside

/-- What was calm further on is calm here. -/
theorem Calm.mono (calm : q.Calm j) (le : i ≤ j) : q.Calm i := calm.imp (·.mono le) id

/-- Where there is calm, the second text has no word that the first one has not, those of a limit apart. -/
theorem Calm.quiet (calm : q.Calm i) (reads : q.Reads i) {k : Keyword} (low : k ∉ limitWords)
    (other : (q.left.tokenAt i).spells k = false) : (q.right.tokenAt i).spells k = false := by
  by_cases inside : q.Inside i
  · exact inside.quiet other
  · have mild := calm.resolve_left inside
    obtain rfl : i = q.spot := by
      unfold Inside at inside
      rcases reads with le | rejoins
      · omega
      · exact absurd (.inr rejoins) inside
    exact mild.words k low other

theorem lt_of_notEof (within : i ≤ q.left.length) (notEof : (q.left.tokenAt i).isEof = false) :
    i < q.left.length := by
  refine Nat.lt_of_le_of_ne within ?_
  rintro rfl
  rw [q.left.tokenAt_length, q.isEof] at notEof
  cases notEof

/-- Both texts are as long as they are read. -/
theorem Reads.within (reads : q.Reads i) (within : i ≤ q.left.length) : i ≤ q.right.length := by
  rcases reads with le | rejoins
  · exact Nat.le_trans le q.spot_le_right
  · rwa [q.length rejoins]

theorem Clean.lt (clean : q.Clean i) (lt : i < q.left.length) : i < q.right.length := by
  rcases clean with before | ⟨rejoins, -⟩
  · exact Nat.lt_of_lt_of_le before q.spot_le_right
  · rwa [q.length rejoins]

end

section

variable {f : Features} {q : Diverging f} {α β : Type} [Visible α] {limit i k : Nat}
  {known : Prop} {need : Nat → Prop} {free : α → Nat → Prop}

/-- What a rule does not need may be left open. -/
theorem Follows.freely {rule rule' : SqlRule α}
    (follows : q.Follows limit known i rule rule' need free) :
    q.Follows limit known i rule rule' (fun _ => True) free :=
  follows.mono id (fun _ => trivial) fun _ _ => id

/-- What a run knows of its place. -/
theorem Follows.within {rule rule' : SqlRule α}
    (follows : i ≤ q.left.length → q.Follows limit known i rule rule' need free) :
    q.Follows limit known i rule rule' need free :=
  fun s here => follows here.within s here

/-- Where a run ends, there is calm, and so there is where it begins. -/
theorem Follows.calm {rule rule' : SqlRule α} (follows : q.Follows limit known i rule rule' need free)
    (calm : ∀ v j, free v j → q.Calm j) :
    q.Follows limit known i rule rule' (fun i => q.Calm i ∧ need i) free :=
  follows.also fun v j le _ holds => (calm v j holds).mono le

/-- A first step that stays where it is. -/
theorem Follows.asking {first first' : SqlRule β} {next next' : β → SqlRule α} {b b' : β}
    (left : first.Comes (sqlLevels f limit) q.left i b i)
    (right : q.Reads i → first'.Comes (sqlLevels f limit) q.right i b' i)
    (rest : q.Follows limit known i (next b) (next' b') need free) :
    q.Follows limit known i (first >>= next) (first' >>= next') need free :=
  .behind (Nat.le_refl i) left (fun alike => right (q.alike_self.mp alike)) rest fun _ => id

/-- A first step of the first run only. -/
theorem follows_left {first : SqlRule β} {next : β → SqlRule α} {b : β} {rule' : SqlRule α}
    (left : first.Comes (sqlLevels f limit) q.left i b i)
    (rest : q.Follows limit known i (next b) rule' need free) :
    q.Follows limit known i (first >>= next) rule' need free := by
  intro s here
  refine yields_bind.mpr ((left s here).yields.mono ?_)
  rintro _ between ⟨rfl, there, params⟩ v after read
  obtain ⟨j, step⟩ := rest between there v after read
  refine ⟨j, step.le, step.place, step.lacks, step.need, fun ends all s' here' counts =>
    step.right ends all s' here' ?_⟩
  rw [Counts, params]
  exact counts

/-- A first step of the second run only. -/
theorem follows_right {first : SqlRule β} {next : β → SqlRule α} {b : β} {rule : SqlRule α}
    (right : q.Reads i → first.Comes (sqlLevels f limit) q.right i b i)
    (rest : q.Follows limit known i rule (next b) need free) :
    q.Follows limit known i rule (first >>= next) need free := by
  intro s here v after read
  obtain ⟨j, step⟩ := rest s here v after read
  refine ⟨j, step.le, step.place, step.lacks, step.need, fun ends all s' here' counts => ?_⟩
  refine succeeds_bind.mpr ((right (all.reads step.le) s' here').mono ?_)
  rintro _ between ⟨rfl, there, params⟩
  refine step.right ends all between there ?_
  rw [Counts, params]
  exact counts

/-- What the first rule gives from a place is all that counts. -/
theorem Follows.swap {rule other rule' : SqlRule α}
    (follows : q.Follows limit known i rule rule' need free)
    (same : ∀ s : Tape, s.At q.left i → ∀ post, other.Succeeds (sqlLevels f limit) s post →
      rule.Succeeds (sqlLevels f limit) s post) :
    q.Follows limit known i other rule' need free := by
  intro s here v after read
  obtain ⟨_, _, read', rfl, rfl⟩ := same s here (fun v' after' => v' = v ∧ after' = after)
    ⟨v, after, read, rfl, rfl⟩
  exact follows s here _ _ read'

/-- A first step over the next token. -/
theorem Follows.taking {first first' : SqlRule β} {next next' : β → SqlRule α} {b b' : β}
    (left : i < q.left.length → first.Comes (sqlLevels f limit) q.left i b (i + 1))
    (right : q.Clean i → i < q.right.length →
      first'.Comes (sqlLevels f limit) q.right i b' (i + 1))
    (notEof : (q.left.tokenAt i).isEof = false) (enter : q.Clean i → need i)
    (rest : q.Follows limit known (i + 1) (next b) (next' b') (fun _ => True) free) :
    q.Follows limit known i (first >>= next) (first' >>= next') need free := by
  refine .within fun within => ?_
  have lt := q.lt_of_notEof within notEof
  exact .behind (Nat.le_succ i) (left lt) (fun clean => right clean (Clean.lt clean lt)) rest
    fun clean _ => enter clean

/-- Both runs take the same first step. -/
theorem pure_bind {b b' : β} {next next' : β → SqlRule α}
    (rest : q.Follows limit known i (next b) (next' b') need free) :
    q.Follows limit known i ((Pure.pure b : SqlRule β) >>= next) ((Pure.pure b' : SqlRule β) >>= next')
      need free :=
  .asking (comes_pure b) (fun _ => comes_pure b') rest

theorem peek_bind {next next' : Token → SqlRule α}
    (rest : q.Follows limit known i (next (q.left.tokenAt i)) (next' (q.right.tokenAt i)) need free) :
    q.Follows limit known i (peek >>= next) (peek >>= next') need free :=
  .asking comes_peek (fun _ => comes_peek) rest

/-- A rule that goes by the next token, where what it does with it is the same in both texts. -/
theorem peek_same {next next' : Token → SqlRule α}
    (same : need i → q.Reads i → next' (q.right.tokenAt i) = next' (q.left.tokenAt i))
    (each : q.Follows limit known i (next (q.left.tokenAt i)) (next' (q.left.tokenAt i)) need free) :
    q.Follows limit known i (peek >>= next) (peek >>= next') need free := by
  refine peek_bind ?_
  by_cases needs : need i
  · by_cases reads : q.Reads i
    · rw [same needs reads]
      exact each
    · exact each.unread reads
  · exact each.lost needs

/-- A rule that goes by an answer about the next token that is the same in both texts. -/
theorem Follows.asked {ask : SqlRule β} (answer : Token → β) {next next' : β → SqlRule α}
    (comes : ∀ sheet : Sheet, ask.Comes (sqlLevels f limit) sheet i (answer (sheet.tokenAt i)) i)
    (same : need i → q.Reads i → answer (q.right.tokenAt i) = answer (q.left.tokenAt i))
    (each : q.Follows limit known i (next (answer (q.left.tokenAt i)))
      (next' (answer (q.left.tokenAt i))) need free) :
    q.Follows limit known i (ask >>= next) (ask >>= next') need free := by
  refine .asking (comes q.left) (fun _ => comes q.right) ?_
  by_cases needs : need i
  · by_cases reads : q.Reads i
    · rw [same needs reads]
      exact each
    · exact each.unread reads
  · exact each.lost needs

theorem start_bind {next next' : Position → SqlRule α} (enter : need i → q.Inside i)
    (rest : ∀ p p', q.Opens p p' → q.Follows limit known i (next p) (next' p') need free) :
    q.Follows limit known i (start >>= next) (start >>= next') need free := by
  refine .within fun within => .asking comes_start (fun _ => comes_start) ?_
  by_cases needs : need i
  · exact rest _ _ ⟨⟨i, within, rfl⟩, q.start_placed i within (enter needs)⟩
  · exact (rest _ _ (q.opens_placed within)).lost needs

/-- A span from a place of both texts to where they have been read to. -/
theorem spanFrom_bind {p p' : Position} {next next' : Span → SqlRule α} (opens : q.Opens p p')
    (rest : ∀ span span', q.Quoted span span' → q.Follows limit known i (next span) (next' span') need free) :
    q.Follows limit known i (spanFrom p >>= next) (spanFrom p' >>= next') need free := by
  refine .within fun within => .asking (comes_spanFrom p) (fun _ => comes_spanFrom p') ?_
  by_cases reads : q.Reads i
  · obtain ⟨⟨k, le, rfl⟩, same⟩ := opens
    exact rest _ _ (congrArg₂ Span.mk same (q.stop_placed k le p' same i within reads))
  · obtain ⟨span', quoted⟩ := q.exists_quoted (⟨p, (q.left.stopAt i).later p⟩ : Span)
    exact (rest _ span' quoted).unread reads

theorem bump_bind {next next' : Token → SqlRule α} (notEof : (q.left.tokenAt i).isEof = false)
    (enter : q.Clean i → need i)
    (rest : q.Follows limit known (i + 1) (next (q.left.tokenAt i)) (next' (q.right.tokenAt i))
      (fun _ => True) free) :
    q.Follows limit known i (bump >>= next) (bump >>= next') need free :=
  .taking comes_bump (fun _ => comes_bump) notEof enter rest

/-- A question about the next token that both texts answer alike where it is answered no, and where the
next tokens are alike. -/
theorem Follows.deciding {ask : SqlRule Bool} (answer : Token → Bool) {a a' b b' : SqlRule α}
    (comes : ∀ sheet : Sheet, ask.Comes (sqlLevels f limit) sheet i (answer (sheet.tokenAt i)) i)
    (alike : ∀ t t' : Token, t.Like t' → answer t' = answer t)
    (quiet : need i → q.Reads i → answer (q.left.tokenAt i) = false → answer (q.right.tokenAt i) = false)
    (found : answer (q.left.tokenAt i) = true →
      q.Follows limit known i a a' (fun i => q.Clean i ∧ need i) free)
    (missing : answer (q.left.tokenAt i) = false → q.Follows limit known i b b' need free) :
    q.Follows limit known i (do if ← ask then a else b) (do if ← ask then a' else b') need free := by
  cases same : answer (q.left.tokenAt i) with
  | true =>
    have left := comes q.left
    rw [same] at left
    by_cases clean : q.Clean i
    · have right := comes q.right
      rw [alike _ _ (q.like i clean), same] at right
      exact .asking left (fun _ => right) ((found same).mono id And.right fun _ _ => id)
    · exact follows_left left ((found same).lost fun needs => clean needs.1)
  | false =>
    have left := comes q.left
    rw [same] at left
    by_cases reads : q.Reads i ∧ need i
    · have right := comes q.right
      rw [quiet reads.2 reads.1 same] at right
      exact .asking left (fun _ => right) (missing same)
    · refine follows_left left ?_
      by_cases need : need i
      · exact (missing same).unread fun holds => reads ⟨holds, need⟩
      · exact (missing same).lost need

theorem check_ite {kind : TokenKind} (mark : kind.isMark = true) {a a' b b' : SqlRule α}
    (found : (q.left.tokenAt i).kind.sameKind kind = true →
      q.Follows limit known i a a' (fun i => q.Clean i ∧ need i) free)
    (missing : (q.left.tokenAt i).kind.sameKind kind = false →
      q.Follows limit known i b b' need free) :
    q.Follows limit known i (do if ← check kind then a else b) (do if ← check kind then a' else b')
      need free :=
  .deciding (fun t => t.kind.sameKind kind) (fun _ => comes_check kind)
    (fun _ _ like => by rw [like.kind]) (fun _ reads => sameKind_right mark reads) found missing

theorem checkKeyword_ite {k : Keyword} {a a' b b' : SqlRule α} (low : k ∉ limitWords)
    (calm : need i → q.Calm i)
    (found : (q.left.tokenAt i).spells k = true →
      q.Follows limit known i a a' (fun i => q.Clean i ∧ need i) free)
    (missing : (q.left.tokenAt i).spells k = false → q.Follows limit known i b b' need free) :
    q.Follows limit known i (do if ← checkKeyword k then a else b)
      (do if ← checkKeyword k then a' else b') need free :=
  .deciding (·.spells k) (fun _ => comes_checkKeyword k) (fun _ _ like => like.spells k)
    (fun needs reads => (calm needs).quiet reads low) found missing

/-- A token that is consumed in both texts if it is there in the first one. -/
theorem Follows.eating {eat : SqlRule Bool} (answer : Token → Bool) {next next' : Bool → SqlRule α}
    (comes : ∀ sheet : Sheet, answer (sheet.tokenAt i) = false →
      eat.Comes (sqlLevels f limit) sheet i false i)
    (takes : ∀ sheet : Sheet, i < sheet.length → answer (sheet.tokenAt i) = true →
      eat.Comes (sqlLevels f limit) sheet i true (i + 1))
    (alike : ∀ t t' : Token, t.Like t' → answer t' = answer t)
    (notEof : answer (q.left.tokenAt i) = true → (q.left.tokenAt i).isEof = false)
    (quiet : need i → q.Reads i → answer (q.left.tokenAt i) = false → answer (q.right.tokenAt i) = false)
    (enter : answer (q.left.tokenAt i) = true → q.Clean i → need i)
    (found : answer (q.left.tokenAt i) = true →
      q.Follows limit known (i + 1) (next true) (next' true) (fun _ => True) free)
    (missing : answer (q.left.tokenAt i) = false →
      q.Follows limit known i (next false) (next' false) need free) :
    q.Follows limit known i (eat >>= next) (eat >>= next') need free := by
  cases same : answer (q.left.tokenAt i) with
  | true =>
    exact .taking (fun lt => takes q.left lt same)
      (fun clean lt => takes q.right lt ((alike _ _ (q.like i clean)).trans same)) (notEof same)
      (enter same) (found same)
  | false =>
    by_cases reads : q.Reads i ∧ need i
    · exact .asking (comes q.left same) (fun _ => comes q.right (quiet reads.2 reads.1 same)) (missing same)
    · refine follows_left (comes q.left same) ?_
      by_cases need : need i
      · exact (missing same).unread fun holds => reads ⟨holds, need⟩
      · exact (missing same).lost need

theorem eat_ite {kind : TokenKind} (mark : kind.isMark = true) {a a' b b' : SqlRule α}
    (enter : (q.left.tokenAt i).kind.sameKind kind = true → q.Clean i → need i)
    (found : (q.left.tokenAt i).kind.sameKind kind = true →
      q.Follows limit known (i + 1) a a' (fun _ => True) free)
    (missing : (q.left.tokenAt i).kind.sameKind kind = false →
      q.Follows limit known i b b' need free) :
    q.Follows limit known i (do if ← eat kind then a else b) (do if ← eat kind then a' else b')
      need free :=
  .eating (fun t => t.kind.sameKind kind) (fun _ => comes_eat_not) (fun _ => comes_eat)
    (fun _ _ like => by rw [like.kind])
    (fun same => TokenKind.sameKind_eof same (TokenKind.isMark_eof mark))
    (fun _ reads => sameKind_right mark reads) enter found missing

/-- A word that may be left out. -/
theorem eatKeyword_bind {k : Keyword} {next next' : Bool → SqlRule α} (low : k ∉ limitWords)
    (calm : need i → q.Calm i) (enter : (q.left.tokenAt i).spells k = true → q.Clean i → need i)
    (found : (q.left.tokenAt i).spells k = true →
      q.Follows limit known (i + 1) (next true) (next' true) (fun _ => True) free)
    (missing : (q.left.tokenAt i).spells k = false →
      q.Follows limit known i (next false) (next' false) need free) :
    q.Follows limit known i (eatKeyword k >>= next) (eatKeyword k >>= next') need free :=
  .eating (·.spells k) (fun _ => comes_eatKeyword_not) (fun _ => comes_eatKeyword)
    (fun _ _ like => like.spells k) Token.isEof_of_spells
    (fun needs reads => (calm needs).quiet reads low) enter found missing

theorem eatKeyword_ite {k : Keyword} {a a' b b' : SqlRule α} (low : k ∉ limitWords)
    (calm : need i → q.Calm i) (enter : (q.left.tokenAt i).spells k = true → q.Clean i → need i)
    (found : (q.left.tokenAt i).spells k = true → q.Follows limit known (i + 1) a a' (fun _ => True) free)
    (missing : (q.left.tokenAt i).spells k = false → q.Follows limit known i b b' need free) :
    q.Follows limit known i (do if ← eatKeyword k then a else b)
      (do if ← eatKeyword k then a' else b') need free :=
  eatKeyword_bind low calm enter found missing

theorem expect_bind {kind : TokenKind} (notEof : kind.sameKind .eof = false)
    {next next' : Token → SqlRule α}
    (enter : (q.left.tokenAt i).kind.sameKind kind = true → q.Clean i → need i)
    (rest : (q.left.tokenAt i).kind.sameKind kind = true → ∀ t t',
      q.Follows limit known (i + 1) (next t) (next' t') (fun _ => True) free) :
    q.Follows limit known i (expect kind >>= next) (expect kind >>= next') need free := by
  cases same : (q.left.tokenAt i).kind.sameKind kind
  · exact follows_of_never (never_of_refuses fun _ here => (expect_refuses here.peek same).bind next)
  · refine .taking (comes_expect · same) (fun clean lt => comes_expect lt ?_)
      (TokenKind.sameKind_eof same notEof) (enter same) (rest same _ _)
    rw [(q.like i clean).kind, same]

theorem expectKeyword_bind {k : Keyword} {next next' : Token → SqlRule α}
    (enter : (q.left.tokenAt i).spells k = true → q.Clean i → need i)
    (rest : (q.left.tokenAt i).spells k = true → ∀ t t',
      q.Follows limit known (i + 1) (next t) (next' t') (fun _ => True) free) :
    q.Follows limit known i (expectKeyword k >>= next) (expectKeyword k >>= next') need free := by
  cases same : (q.left.tokenAt i).spells k
  · exact follows_of_never
      (never_of_refuses fun _ here => (expectKeyword_refuses here.peek same).bind next)
  · exact .taking (comes_expectKeyword · same)
      (fun clean lt => comes_expectKeyword lt ((clean.spells k).trans same)) (Token.isEof_of_spells same)
      (enter same) (rest same _ _)

/-- A rule that fails gives nothing to follow. -/
theorem follows_failAny (expected : List String) {rule' : SqlRule α} :
    q.Follows limit known i (failAny expected) rule' need free :=
  follows_of_never (never_of_refuses fun _ here => refuses_failAny here.peek expected)

/-- Both runs count a placeholder, the second one with what was counted before. -/
theorem nextParam_bind {next next' : Nat → SqlRule α}
    (rest : ∀ n, q.Follows limit known i (next n) (next' (q.number n)) need free) :
    q.Follows limit known i (nextParam >>= next) (nextParam >>= next') need free := by
  intro s here v after read
  have here' : Tape.At q.left i { s with params := s.params + 1 } := { here with }
  obtain ⟨j, step⟩ := rest (s.params + 1) _ here' v after read
  refine ⟨j, step.le, step.place, step.lacks, step.need, fun ends all s' there counts => ?_⟩
  have there' : Tape.At q.right i { s' with params := s'.params + 1 } := { there with }
  have counts' : q.Counts { s with params := s.params + 1 } { s' with params := s'.params + 1 } := by
    unfold Counts at counts ⊢
    dsimp only
    omega
  have same : q.number (s.params + 1) = s'.params + 1 := by
    unfold Counts at counts
    unfold number
    omega
  refine succeeds_bind.mpr ⟨s'.params + 1, _, rfl, ?_⟩
  rw [← same]
  exact step.right ends all _ (same ▸ there') (same ▸ counts')

/-- A rule of which it is known what it comes to. -/
theorem follows_comes {rule rule' : SqlRule α} {v : α} (v' : α) (le : i ≤ k)
    (left : rule.Comes (sqlLevels f limit) q.left i v k)
    (lacks : q.Alike i k → q.Lacks v)
    (right : free v k → q.Kept known i k v →
      rule'.Comes (sqlLevels f limit) q.right i v' k ∧ q.Quoted v v' ∧ need i) :
    q.Follows limit known i rule rule' need free := by
  intro s here value after read
  obtain ⟨rfl, there, params⟩ := (left s here).yields value after read
  refine ⟨k, le, there, fun _ => lacks, fun ends all => (right ends all).2.2, fun ends all s' here' counts => ?_⟩
  refine ((right ends all).1 s' here').mono ?_
  rintro _ after' ⟨rfl, there', params'⟩
  refine ⟨there', ?_, (right ends all).2.1⟩
  rw [Counts, params, params']
  exact counts

/-- No other token has the place of the name. -/
theorem here_iff (within : i ≤ q.left.length) : (q.left.tokenAt i).span = q.here ↔ i = q.spot := by
  constructor
  · intro same
    have start : (q.left.startAt i).offset = (q.left.startAt q.spot).offset :=
      congrArg (·.start.offset) same
    by_contra ne
    rcases Nat.lt_or_gt_of_ne ne with lt | gt
    · have := q.left.startAt_lt lt q.spot_le
      omega
    · have := q.left.startAt_lt gt within
      omega
  · rintro rfl
    rfl

/-- An identifier is the name that it spells. -/
theorem comes_identifier {levels : List (TapeLevel Symbol)} {sheet : Sheet} {name : String}
    (lt : i < sheet.length) (kind : (sheet.tokenAt i).kind = .identifier name) :
    identifier.Comes levels sheet i
      ⟨name, (sheet.tokenAt i).isQuoted, (sheet.tokenAt i).span⟩ (i + 1) := by
  refine comes_peek.bind ?_
  rw [kind]
  exact (comes_bump lt).bind (comes_pure _)

/-- Where the next tokens are alike, they stand at places that are shown alike. -/
theorem Clean.span (clean : q.Clean i) (lt : i < q.left.length) :
    (q.left.tokenAt i).span.placed q.place = (q.right.tokenAt i).span.placed q.place' := by
  have start := q.start_placed i (Nat.le_of_lt lt) clean.inside
  have stop := q.stop_placed i (Nat.le_of_lt lt) _ start (i + 1) lt (clean.imp id And.left)
  have lt' := Clean.lt clean lt
  rw [Position.later_of_lt (q.left.startAt_lt_stopAt_succ lt),
    Position.later_of_lt (q.right.startAt_lt_stopAt_succ lt'), q.left.stopAt_succ lt,
    q.right.stopAt_succ lt'] at stop
  exact congrArg₂ Span.mk start stop

/-- The name that a token is in both texts. -/
theorem Clean.quoted (clean : q.Clean i) (lt : i < q.left.length) (value : String) (quoted : Bool) :
    q.Quoted (⟨value, quoted, (q.left.tokenAt i).span⟩ : Ident)
      ⟨value, quoted, (q.right.tokenAt i).span⟩ := by
  show q.shown.name _ = Ident.placed q.place' _
  rw [q.shown_name_of_ne fun same => Clean.ne clean ((q.here_iff (Nat.le_of_lt lt)).mp same)]
  exact congrArg (Ident.mk value quoted) (Clean.span clean lt)

/-- The name in the first text and the one between quotes. -/
theorem quoted_spot (rejoins : q.rejoins) (quoted : Bool) :
    q.Quoted (⟨q.value, quoted, q.here⟩ : Ident)
      ⟨q.value, (q.right.tokenAt q.spot).isQuoted, (q.right.tokenAt q.spot).span⟩ := by
  show q.shown.name _ = Ident.placed q.place' _
  rw [q.shown_name_here rejoins, q.placed_eq_bare' rejoins, Ident.bare, q.isQuoted rejoins]

/-- A token elsewhere than at the spot is not the name there. -/
theorem lacks_token (within : i ≤ q.left.length) (other : q.rejoins → i ≠ q.spot) (value : String)
    (quoted : Bool) : q.Lacks (⟨value, quoted, (q.left.tokenAt i).span⟩ : Ident) := by
  intro name shows
  show name _ = Ident.placed q.place _
  rw [q.placed_eq_bare shows.rejoins]
  exact shows.other _ fun same => other shows.rejoins ((q.here_iff within).mp same)

/-- A name is a name in both texts: at its place with quotes. -/
theorem follows_identifier (enter : q.Inside i → need i) :
    q.Follows limit known i identifier identifier need fun _ _ => True := by
  refine .within fun within => ?_
  by_cases word : ∃ name, (q.left.tokenAt i).kind = .identifier name
  case neg =>
    exact follows_of_never (never_of_refuses fun _ here =>
      identifier_refuses here.peek fun name kind => word ⟨name, kind⟩)
  obtain ⟨name, kind⟩ := word
  have lt := q.lt_of_notEof within (by rw [Token.isEof, kind]; rfl)
  refine follows_comes ⟨name, (q.right.tokenAt i).isQuoted, (q.right.tokenAt i).span⟩ (Nat.le_succ i)
    (comes_identifier lt kind) (fun alike => ?_) fun _ all => ?_
  · exact lacks_token within (fun _ => Clean.ne (q.alike_succ.mp alike)) _ _
  have alike (clean : q.Clean i) : identifier.Comes (sqlLevels f limit) q.right i
      ⟨name, (q.right.tokenAt i).isQuoted, (q.right.tokenAt i).span⟩ (i + 1) ∧
      q.Quoted (⟨name, (q.left.tokenAt i).isQuoted, (q.left.tokenAt i).span⟩ : Ident)
        ⟨name, (q.right.tokenAt i).isQuoted, (q.right.tokenAt i).span⟩ ∧ need i := by
    have like := q.like i clean
    refine ⟨comes_identifier (Clean.lt clean lt) (like.kind.trans kind), ?_, enter (Clean.inside clean)⟩
    rw [like.isQuoted]
    exact Clean.quoted clean lt _ _
  rcases all.2 with clean | ⟨rejoins, -⟩
  · exact alike clean
  · by_cases here : i = q.spot
    · subst here
      have named : q.value = name := by
        rcases q.named rejoins with value | ⟨keyword, -⟩
        · exact TokenKind.identifier.inj (value.symm.trans kind)
        · rw [Token.isKeyword, Token.keyword?, kind] at keyword
          cases keyword
      subst named
      have lt' : q.spot < q.right.length := q.length rejoins ▸ lt
      exact ⟨comes_identifier lt' (q.kind rejoins), q.quoted_spot rejoins _, enter (.inr rejoins)⟩
    · exact alike (q.clean_of_ne (.inr rejoins) here)

/-- Both runs move on, or neither. -/
theorem moved_iff {s after s' after' : Tape} {j : Nat} (here : s.At q.left i) (there : after.At q.left j)
    (here' : s'.At q.right i) (there' : after'.At q.right j) :
    s.lastEnd.offset < after.lastEnd.offset ↔ s'.lastEnd.offset < after'.lastEnd.offset := by
  rw [here.lastEnd, there.lastEnd, here'.lastEnd, there'.lastEnd,
    q.left.stopAt_lt_iff here.within there.within, q.right.stopAt_lt_iff here'.within there'.within]

/-- Repetitions of a step, each of which begins where the one before ends. The first one may need
something else than the others. -/
theorem follows_loop_first {σ : Type} [Visible σ] {step step' : σ → SqlRule (Option σ)} {x x' : σ}
    {first : Nat → Prop} {free : σ → Nat → Prop} (lacks : known → q.Lacks x) (quoted : q.Quoted x x')
    (enter : q.Follows limit known i (step x) (step' x') first fun next k =>
      next.elim (free x k) fun _ => need k)
    (each : ∀ (known : Prop) k x x', (known → q.Lacks x) → q.Quoted x x' →
      q.Follows limit known k (step x) (step' x') need fun next k => next.elim (free x k) fun _ => need k)
    (ends : ∀ x k, free x k → need k) :
    q.Follows limit known i (loop step x) (loop step' x') first free := by
  have forward := sqlLevels_forward f limit
  have lacks_some {y : σ} : q.Lacks (some y) ↔ q.Lacks y := by simp [Lacks]
  intro s here
  refine yields_loop forward fun value after runs => ?_
  induction runs generalizing i known x' first with
  | @stop x s after read =>
    obtain ⟨j, front⟩ := enter s here none after read
    have kept (all : q.Kept known i j x) : q.Kept known i j (none : Option σ) := by
      refine ⟨all.1, all.2.elim .inl fun ⟨rejoins, names⟩ => ?_⟩
      by_cases before : i ≤ q.spot
      · exact absurd (lacks (all.1 before)) names
      · exact .inl (.inr ⟨rejoins, by omega⟩)
    refine ⟨j, front.le, front.place, fun holds _ => lacks holds,
      fun holds all => front.need holds (kept all), fun holds all s' here' counts => ?_⟩
    refine succeeds_loop_of_step forward ((front.right holds (kept all) s' here' counts).mono ?_)
    rintro (_ | y') after' ⟨place, same, alike⟩
    · exact ⟨place, same, quoted⟩
    · cases alike
  | @stay x y s after read stays =>
    obtain ⟨j, front⟩ := enter s here (some y) after read
    have kept (all : q.Kept known i j y) : q.Kept known i j (some y) :=
      ⟨all.1, all.2.imp_right fun names => ⟨names.1, fun lost => names.2 (lacks_some.mp lost)⟩⟩
    refine ⟨j, front.le, front.place, fun holds spares => lacks_some.mp (front.lacks holds spares),
      fun holds all => front.need (ends y j holds) (kept all), fun holds all s' here' counts => ?_⟩
    refine succeeds_loop_of_step forward
      ((front.right (ends y j holds) (kept all) s' here' counts).mono ?_)
    rintro (_ | y') after' ⟨place, same, alike⟩
    · cases alike
    · have rests := (q.moved_iff here front.place here' place).not.mp stays
      simp only [if_neg rests]
      exact ⟨place, same, Option.some.inj alike⟩
  | @next x y z s mid after read further rest ih =>
    obtain ⟨y₀, quoted₀⟩ := q.exists_quoted y
    obtain ⟨k, front⟩ := enter s here (some y) mid read
    obtain ⟨j, back⟩ := ih (fun holds : known ∧ q.Lacks y => holds.2) quoted₀
      (each _ k y y₀ (·.2) quoted₀) front.place
    have le := front.le
    have le' := back.le
    have loses (holds : known) (spares : q.Alike i k) : q.Lacks y :=
      lacks_some.mp (front.lacks holds spares)
    have kept (all : q.Kept known i j z) : q.Kept (known ∧ q.Lacks y) k j z := by
      refine ⟨fun before => ?_, all.2.imp_left (·.mono le (Nat.le_refl j))⟩
      have holds := all.1 (Nat.le_trans le before)
      exact ⟨holds, loses holds (.inl before)⟩
    have keptFront (all : q.Kept known i j z) : q.Kept known i k (some y) := by
      refine ⟨all.1, ?_⟩
      rcases all.2 with alike | ⟨rejoins, names⟩
      · exact .inl (alike.mono (Nat.le_refl i) le')
      · by_cases alike : q.Alike i k
        · exact .inl alike
        · obtain ⟨before, past⟩ : i ≤ q.spot ∧ q.spot < k := by
            unfold Alike at alike
            simp only [rejoins, true_and] at alike
            omega
          exact .inr ⟨rejoins, fun lost => names
            (back.lacks ⟨all.1 before, lacks_some.mp lost⟩ (.inr ⟨rejoins, past⟩))⟩
    refine ⟨j, Nat.le_trans le le', back.place, fun holds spares => ?_,
      fun holds all => front.need (back.need holds (kept all)) (keptFront all),
      fun holds all s' here' counts => ?_⟩
    · exact back.lacks ⟨holds, loses holds (spares.mono (Nat.le_refl i) le')⟩
        (spares.mono le (Nat.le_refl j))
    · refine succeeds_loop_of_step forward
        ((front.right (back.need holds (kept all)) (keptFront all) s' here' counts).mono ?_)
      rintro (_ | y') between' ⟨place, same, alike⟩
      · cases alike
      · have goes := (q.moved_iff here front.place here' place).mp further
        have quoted' : q.Quoted y y' := Option.some.inj alike
        obtain ⟨j', back'⟩ := ih (fun holds : known ∧ q.Lacks y => holds.2) quoted'
          (each _ k y y' (·.2) quoted') front.place
        obtain rfl := back.place.same back'.place
        simp only [if_pos goes]
        exact back'.right holds (kept all) between' place same

/-- Repetitions of a step that all need the same. -/
theorem follows_loop {σ : Type} [Visible σ] {step step' : σ → SqlRule (Option σ)} {x x' : σ}
    {free : σ → Nat → Prop} (lacks : known → q.Lacks x) (quoted : q.Quoted x x')
    (each : ∀ (known : Prop) k x x', (known → q.Lacks x) → q.Quoted x x' →
      q.Follows limit known k (step x) (step' x') need fun next k => next.elim (free x k) fun _ => need k)
    (ends : ∀ x k, free x k → need k) :
    q.Follows limit known i (loop step x) (loop step' x') need free :=
  follows_loop_first lacks quoted (each known i x x' lacks quoted) each ends

section

variable {rule rule' : SqlRule α} {rules : List (SqlRule α)}

/-- Two alternatives are tried in both texts. Where the first one does not fit in the first text, it must
not fit in the second one. -/
theorem follows_orElse {other other' : Mismatch → SqlRule α} (plain : rule.Plain) (plain' : rule'.Plain)
    (first : q.Follows limit known i rule rule' need free)
    (second : ∀ m m', q.Follows limit known i (other m) (other' m') need free)
    (stops : ∀ m v j, rule.Misfits (sqlLevels f limit) q.left i →
      (other m).Gets (sqlLevels f limit) q.left i v j → free v j → need i → q.Reads i →
      rule'.Stops (sqlLevels f limit) q.right i) :
    q.Follows limit known i (orElse rule other) (orElse rule' other') need free := by
  intro s here v after read
  simp only [Rule.read, here.checked] at read
  split at read
  · rename_i fits
    cases read
    obtain ⟨j, step⟩ := first s here _ _ fits
    exact ⟨j, step.le, step.place, step.lacks, step.need, fun holds all s' here' counts =>
      (step.right holds all s' here' counts).orElse here'.cancelAfter _⟩
  · rename_i m tried fails
    obtain ⟨j, step⟩ := second m m _ (plain.backTo here fails) v after read
    have misfits : rule.Misfits (sqlLevels f limit) q.left i := ⟨s, here, m, tried, fails⟩
    have gets : (other m).Gets (sqlLevels f limit) q.left i v j :=
      ⟨_, after, plain.backTo here fails, read, step.place⟩
    refine ⟨j, step.le, step.place, step.lacks, step.need, fun holds all s' here' counts => ?_⟩
    obtain ⟨m', tried', fails'⟩ :=
      stops m v j misfits gets holds (step.need holds all) (all.reads step.le) s' here'
    obtain ⟨j', step'⟩ := second m m' _ (plain.backTo here fails) v after read
    obtain rfl := step.place.same step'.place
    obtain ⟨v', after', read', there⟩ :=
      step'.right holds all _ (plain'.backTo here' fails') counts
    refine ⟨v', after', ?_, there⟩
    simp only [Rule.read, here'.checked, fails', read']
  · cases read

/-- The same alternatives are tried in both texts. Where one of them does not fit in the first text and
a later one does, it must not fit in the second text either. -/
theorem follows_choiceAfter (plain : ∀ rule ∈ rules, rule.Plain)
    (each : ∀ rule ∈ rules, q.Follows limit known i rule rule need free)
    (apart : rules.Pairwise fun a b => ∀ v j, a.Misfits (sqlLevels f limit) q.left i →
      b.Gets (sqlLevels f limit) q.left i v j → free v j → need i → q.Reads i →
      a.Stops (sqlLevels f limit) q.right i)
    (noted noted' : Option Mismatch) :
    q.Follows limit known i (choiceAfter noted rules) (choiceAfter noted' rules) need free := by
  induction rules generalizing noted noted' with
  | nil =>
    cases noted with
    | none => exact follows_failAny []
    | some m => exact follows_of_never fun _ _ _ _ read => by cases read
  | cons rule rules ih =>
    obtain ⟨first, others⟩ := List.forall_mem_cons.mp plain
    obtain ⟨follows, follow⟩ := List.forall_mem_cons.mp each
    obtain ⟨apartFirst, apart⟩ := List.pairwise_cons.mp apart
    rw [choiceAfter_cons, choiceAfter_cons]
    refine follows_orElse first first follows (fun _ _ => ih others follow apart _ _) ?_
    rintro m v j misfits ⟨s, after, here, read, there⟩ holds needs reads
    obtain ⟨other, mem, s₂, here₂, -, read₂⟩ := choiceAfter_ok others here read
    exact apartFirst other mem v j misfits ⟨s₂, after, here₂, read₂, there⟩ holds needs reads

/-- The first alternative that fits in the first text fits in the second one, if no other one fits there
before it. -/
theorem follows_choice (plain : ∀ rule ∈ rules, rule.Plain)
    (each : ∀ rule ∈ rules, q.Follows limit known i rule rule need free)
    (apart : rules.Pairwise fun a b => ∀ v j, a.Misfits (sqlLevels f limit) q.left i →
      b.Gets (sqlLevels f limit) q.left i v j → free v j → need i → q.Reads i →
      a.Stops (sqlLevels f limit) q.right i) :
    q.Follows limit known i (choice rules) (choice rules) need free :=
  follows_choiceAfter plain each apart none none

/-- Whichever alternative fits in the first text, one rule does for it in the second one. -/
theorem follows_either (plain : ∀ rule ∈ rules, rule.Plain)
    (each : ∀ rule ∈ rules, q.Follows limit known i rule rule' need free) :
    q.Follows limit known i (choice rules) rule' need free := by
  intro s here v after read
  obtain ⟨rule, mem, s₂, here₂, params, fits⟩ := choiceAfter_ok plain here read
  obtain ⟨j, step⟩ := each rule mem s₂ here₂ v after fits
  refine ⟨j, step.le, step.place, step.lacks, step.need, fun holds all s' here' counts =>
    step.right holds all s' here' ?_⟩
  rw [Counts, params]
  exact counts

/-- A rule that may be left out, and is left out in the second text where it is in the first one. -/
theorem follows_optional {free : Option α → Nat → Prop} (plain : rule.Plain)
    (first : q.Follows limit known i rule rule need fun v => free (some v))
    (enter : free none i → need i)
    (stops : free none i → q.Reads i → rule.Stops (sqlLevels f limit) q.right i) :
    q.Follows limit known i (optional rule) (optional rule) need free := by
  have taken : (do return some (← rule) : SqlRule (Option α)).Plain := ⟨plain, fun _ => trivial⟩
  refine follows_orElse taken taken (first.bind fun k v v' alike => ?_) (fun m m' => ?_) ?_
  · exact follows_pure (by simp +contextual [Lacks]) (by simpa [Quoted] using alike) id
  · exact .asking (comes_note m) (fun _ => comes_note m') (follows_pure (fun _ _ _ => rfl) rfl enter)
  · rintro m v j - ⟨s, after, here, read, there⟩ holds - reads
    cases read
    obtain rfl := (show (s.note m).At q.left i from { here with }).same there
    exact (stops holds reads).bind _

/-- A rule as often as it fits. -/
theorem follows_many {free : Nat → Prop} (plain : rule.Plain)
    (each : ∀ known k, q.Follows limit known k rule rule need fun _ => need)
    (ends : ∀ k, free k → need k)
    (stops : ∀ k, free k → q.Reads k → rule.Stops (sqlLevels f limit) q.right k) :
    q.Follows limit known i (many rule) (many rule) need fun _ => free := by
  rw [many_eq]
  have steps : q.Follows limit known i (loop (manyStep rule) []) (loop (manyStep rule) []) need
      fun _ => free := by
    refine follows_loop (fun _ _ _ => rfl) rfl (fun known k items items' lacks quoted => ?_)
      fun _ => ends
    have next : q.Follows limit known k (optional rule) (optional rule) need fun found k =>
        found.elim (free k) fun _ => need k :=
      follows_optional plain (each known k) (ends k) (stops k)
    refine next.bind fun k found found' alike => ?_
    cases found with
    | none =>
      cases found' with
      | none => exact follows_pure (fun _ _ _ => rfl) rfl id
      | some _ => cases alike
    | some item =>
      cases found' with
      | none => cases alike
      | some item' =>
        exact follows_pure (by simp_all [Lacks]) (by simp_all [Quoted]) id
  refine steps.bind fun k items items' quoted => follows_pure ?_ ?_ id
  · simp +contextual [Lacks]
  · simp_all [Quoted]

/-- One or more, with commas between them. -/
theorem follows_commaSeparated {last free : Nat → Prop} (plain : rule.Plain)
    (each : ∀ known k, q.Follows limit known k rule rule need fun _ => last)
    (comma : ∀ k, (q.left.tokenAt k).kind.sameKind .comma = true → q.Clean k → last k)
    (ends : ∀ k, free k → last k)
    (stops : ∀ k, free k → (q.right.tokenAt k).kind.sameKind .comma = false) :
    q.Follows limit known i (commaSeparated rule) (commaSeparated rule) need fun _ => free := by
  have behind (known : Prop) (k : Nat) : q.Follows limit known k (do
        let _ ← expect .comma
        rule) (do
        let _ ← expect .comma
        rule) last fun _ => last :=
    expect_bind rfl (comma k) fun _ _ _ => (each known _).freely
  have rest (known : Prop) (k : Nat) : q.Follows limit known k (many do
        let _ ← expect .comma
        rule) (many do
        let _ ← expect .comma
        rule) last fun _ => free := by
    refine follows_many ⟨(blames_expect .comma).plain, fun _ => plain⟩ behind ends fun k holds _ => ?_
    exact stops_of_refuses fun s here => (expect_refuses here.peek (stops k holds)).bind _
  refine (each known i).bind fun k first first' quoted => ?_
  refine (rest _ k).bind fun k others others' alike => follows_pure ?_ ?_ id
  · simp +contextual [Lacks]
  · simp_all [Quoted]

/-- One or more between parentheses, with commas between them. -/
theorem follows_parenthesizedList {mid last : Nat → Prop} (plain : rule.Plain)
    (each : ∀ known k, q.Follows limit known k rule rule mid fun _ => last)
    (ends : ∀ k, (q.left.tokenAt k).kind.sameKind .comma = true ∨
      (q.left.tokenAt k).kind.sameKind .rightParen = true → q.Clean k → last k)
    (enter : (q.left.tokenAt i).kind.sameKind .leftParen = true → q.Clean i → need i) :
    q.Follows limit known i (parenthesizedList rule) (parenthesizedList rule) need fun _ _ => True := by
  have items (known : Prop) (i : Nat) : q.Follows limit known i (commaSeparated rule)
      (commaSeparated rule) mid fun _ k =>
        (q.left.tokenAt k).kind.sameKind .rightParen = true ∧ q.Clean k := by
    refine follows_commaSeparated plain each (fun k comma => ends k (.inl comma))
      (fun k closing => ends k (.inr closing.1) closing.2) fun k closing => ?_
    rw [(q.like k closing.2).kind]
    exact TokenKind.sameKind_of_sameKind closing.1 rfl
  refine expect_bind rfl enter fun _ _ _ => ?_
  refine ((items known _).freely).bind fun k _ _ quoted => ?_
  refine expect_bind rfl (fun closing clean => ⟨closing, clean⟩) fun _ _ _ => ?_
  exact follows_pure (fun holds => holds.2) quoted fun _ => trivial

end

/-- What is read next in the second text is not of some kinds or one of some words, nor is it the name,
and both texts answer alike what is asked there. -/
structure Clear (q : Diverging f) (kinds : List TokenKind) (words : List Keyword) (i : Nat) : Prop where
  calm : q.Calm i
  unnamed : q.rejoins → i ≠ q.spot
  kinds : ∀ kind ∈ kinds, (q.right.tokenAt i).kind.sameKind kind = false
  words : ∀ k ∈ words, (q.right.tokenAt i).spells k = false

/-- Where the next tokens are alike, the second text has none that the first one has not. -/
theorem Clean.clear (clean : q.Clean i) {kinds : List TokenKind} {words : List Keyword}
    (others : ∀ kind ∈ kinds, (q.left.tokenAt i).kind.sameKind kind = false)
    (silent : ∀ k ∈ words, (q.left.tokenAt i).spells k = false) : q.Clear kinds words i where
  calm := Clean.calm clean
  unnamed _ := Clean.ne clean
  kinds kind mem := by rw [(q.like i clean).kind, others kind mem]
  words k mem := by rw [Clean.spells clean, silent k mem]

/-- A word is no mark and no other word. -/
theorem clear_of_spells {kinds : List TokenKind} {words : List Keyword} {k : Keyword}
    (spells : (q.left.tokenAt i).spells k = true) (clean : q.Clean i) (apart : Apart [k] words)
    (plain : ∀ kind ∈ kinds, kind.isWord = false) : q.Clear kinds words i :=
  clean.clear
    (fun kind mem => TokenKind.sameKind_of_isWord (Token.isWord_of_spells spells) (plain kind mem))
    (apart.not_spells (List.mem_singleton_self k) spells)

/-- A mark is no word and no other mark. -/
theorem clear_of_sameKind {kinds : List TokenKind} {words : List Keyword} {kind : TokenKind}
    (same : (q.left.tokenAt i).kind.sameKind kind = true) (clean : q.Clean i) (plain : kind.isWord = false)
    (others : ∀ other ∈ kinds, kind.sameKind other = false) : q.Clear kinds words i := by
  refine clean.clear (fun other mem => TokenKind.sameKind_of_sameKind same (others other mem)) ?_
  intro k _
  rw [Bool.eq_false_iff]
  intro spells
  rw [TokenKind.sameKind_of_isWord (Token.isWord_of_spells spells) plain] at same
  cases same

/-- What a rule gives, it gives in both texts, provided that both answer alike what is asked where it
ends. -/
def Keeps (q : Diverging f) (limit : Nat) (rule : SqlRule α) : Prop :=
  ∀ known i, q.Follows limit known i rule rule q.Calm fun _ => q.Calm

/-- A rule that consumes something gives the same in both texts, whatever stands behind it. -/
def Holds (q : Diverging f) (limit : Nat) (rule : SqlRule α) : Prop :=
  ∀ known i, q.Follows limit known i rule rule q.Inside fun _ _ => True

/-- What needs nothing of where it ends may need something. -/
theorem Holds.keeps {rule : SqlRule α} (holds : q.Holds limit rule) : q.Keeps limit rule :=
  fun known i => (holds known i).mono id Inside.calm fun _ _ _ => trivial

/-- Where a rule that keeps what it gives ends, there has to be calm. -/
theorem Keeps.follows {rule : SqlRule α} (keeps : q.Keeps limit rule) (enter : q.Calm i → need i)
    (ends : ∀ v j, free v j → q.Calm j) : q.Follows limit known i rule rule need free :=
  (keeps known i).mono id enter ends

/-- A rule that holds in both texts asks for nothing behind it. -/
theorem Holds.follows {rule : SqlRule α} (holds : q.Holds limit rule) (enter : q.Inside i → need i) :
    q.Follows limit known i rule rule need free :=
  (holds known i).mono id enter fun _ _ _ => trivial

/-- Nothing is to be shown of a value that what follows in the texts rules out. -/
theorem follows_pure_barred {v : α} {rule' : SqlRule α} (lacks : q.Lacks v) (bars : ¬ free v i) :
    q.Follows limit known i (Pure.pure v : SqlRule α) rule' need free := by
  intro s here
  refine (yields_pure v).mpr ⟨i, Nat.le_refl i, here, fun _ _ => lacks, fun holds _ => ?_, fun holds _ => ?_⟩
  all_goals exact absurd holds bars

/-- A value without names, places and placeholders. -/
theorem follows_value {v : α} (same : ∀ lens lens', Visible.through lens v = Visible.through lens' v)
    (ends : free v i → need i) :
    q.Follows limit known i (Pure.pure v : SqlRule α) (Pure.pure v) need free :=
  follows_pure (fun _ _ _ => same _ _) (same _ _) ends

/-- Values that every lens shows alike. -/
theorem keeps_value {v : α} (same : ∀ lens lens', Visible.through lens v = Visible.through lens' v) :
    q.Keeps limit (Pure.pure v) :=
  fun _ _ => follows_value same id

theorem keeps_failAny (expected : List String) : q.Keeps limit (failAny expected : SqlRule α) :=
  fun _ _ => follows_failAny expected

/-- A word, and what follows with it or without it. -/
theorem keeps_ifEaten {k : Keyword} {rule other : SqlRule α} (low : k ∉ limitWords)
    (found : q.Keeps limit rule) (missing : q.Keeps limit other) :
    q.Keeps limit (do if ← eatKeyword k then rule else other) :=
  fun known i => eatKeyword_ite low id (fun _ => Clean.calm) (fun _ => (found known (i + 1)).freely)
    fun _ => missing known i

/-- A word that changes nothing. -/
theorem keeps_wordThen {k : Keyword} {rule : SqlRule α} (low : k ∉ limitWords)
    (rest : q.Keeps limit rule) : q.Keeps limit (do
      let _ ← eatKeyword k
      rule) :=
  fun known i => eatKeyword_bind low id (fun _ => Clean.calm) (fun _ => (rest known (i + 1)).freely)
    fun _ => rest known i

/-- What is made of a value is made of it in both texts. -/
theorem Follows.map {β : Type} [Visible β] {rule rule' : SqlRule β} {g : β → α} {last : Nat → Prop}
    (follows : q.Follows limit known i rule rule' need fun _ => last)
    (commutes : ∀ lens v, Visible.through lens (g v) = g (Visible.through lens v)) :
    q.Follows limit known i (do return g (← rule)) (do return g (← rule')) need fun _ => last := by
  refine follows.bind fun _ v v' alike => follows_pure (fun holds name shows => ?_) ?_ id
  · rw [commutes, commutes, holds.2 name shows]
  · rw [Quoted, commutes, commutes, alike]

/-- What is made of a value, where names are kept. -/
theorem Holds.map {β : Type} [Visible β] {rule : SqlRule β} {g : β → α} (holds : q.Holds limit rule)
    (commutes : ∀ lens v, Visible.through lens (g v) = g (Visible.through lens v)) :
    q.Holds limit (do return g (← rule)) :=
  fun known i => (holds known i).map commutes

/-- A first rule that takes the token at the spot, the name as something else than a name. -/
theorem follows_past {first : SqlRule β} {next : β → SqlRule α} {b : β} {other rest' : SqlRule α}
    {mid : Nat → Prop} (here : i = q.spot)
    (left : i < q.left.length → first.Comes (sqlLevels f limit) q.left i b (i + 1))
    (notEof : (q.left.tokenAt i).isEof = false)
    (rest : q.Follows limit known (i + 1) (next b) rest' mid free) :
    q.Follows limit known i (first >>= next) other need free := by
  have unclean : ¬ q.Clean i := fun clean => clean.ne here
  suffices follows : q.Follows limit known i (first >>= next) (first >>= fun _ => rest') q.Clean free from
    follows.lost unclean
  have right (clean : q.Clean i) (_ : i < q.right.length) :
      first.Comes (sqlLevels f limit) q.right i b (i + 1) := absurd clean unclean
  exact .taking left right notEof id rest.freely

/-- Whether a word is there. -/
theorem keeps_eatKeyword {k : Keyword} (low : k ∉ limitWords) :
    q.Keeps limit (eatKeyword k : SqlRule Bool) := by
  refine fun known i => checkKeyword_ite low id (fun spells => ?_) fun _ =>
    keeps_value (fun _ _ => rfl) known i
  refine bump_bind (Token.isEof_of_spells spells) (fun clean => ⟨clean, Clean.calm clean⟩) ?_
  exact (keeps_value (fun _ _ => rfl) known (i + 1)).freely

end

end Diverging

end SqlTree
