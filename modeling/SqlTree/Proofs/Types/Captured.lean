import SqlTree.Proofs.Binding.Announced
import SqlTree.Proofs.Lexing.Words
import SqlTree.Proofs.Types.Written

namespace SqlTree

open Rule SqlRule

/-- How many of some tokens open a parenthesis. -/
def openings (tokens : List Token) : Nat := tokens.countP (·.kind == .leftParen)

/-- How many of some tokens close a parenthesis. -/
def closings (tokens : List Token) : Nat := tokens.countP (·.kind == .rightParen)

/-- The token with an index closes a parenthesis, and with it as many are closed as were opened, those
included that were open in front of the tokens. -/
def ClosesAt (depth : Nat) (tokens : List Token) (i : Nat) : Prop :=
  (∃ t, tokens[i]? = some t ∧ t.kind = .rightParen) ∧
    openings (tokens.take (i + 1)) + depth = closings (tokens.take (i + 1))

namespace SqlRule

/-- The arguments of a type from their opening parenthesis on, behind the words of its name. -/
def capturedArguments (name : String) (opening : Position) : SqlRule DataType := do
  balanced
  let arguments ← slice (← spanFrom opening)
  return .custom (name ++ arguments)

end SqlRule

section

variable {depth further i : Nat} {t : Token} {tokens : List Token}

/-- Parentheses are counted token by token. -/
theorem openings_cons (t : Token) (tokens : List Token) :
    openings (t :: tokens) = (if t.kind = .leftParen then 1 else 0) + openings tokens := by
  simp only [openings, List.countP_cons, beq_iff_eq]
  omega

theorem closings_cons (t : Token) (tokens : List Token) :
    closings (t :: tokens) = (if t.kind = .rightParen then 1 else 0) + closings tokens := by
  simp only [closings, List.countP_cons, beq_iff_eq]
  omega

/-- A token that leaves parentheses open counts as it opens or closes one. -/
theorem depthBehind_counts (goesOn : depthBehind depth t = some further) :
    openings [t] + depth = closings [t] + further ∧ 0 < further := by
  rw [openings_cons, closings_cons]
  unfold depthBehind at goesOn
  split at goesOn
  · rename_i left
    cases goesOn
    simp [left, openings, closings]
    omega
  · rename_i right
    split at goesOn <;> cases goesOn
    simp [right, openings, closings]
    omega
  · rename_i left right
    split at goesOn <;> cases goesOn
    rw [if_neg left, if_neg right]
    exact ⟨rfl, Nat.pos_of_ne_zero ‹_›⟩

/-- The token that closes the last parenthesis. -/
theorem depthBehind_none (enters : 0 < depth ∨ t.kind = .leftParen) :
    depthBehind depth t = none ↔ t.kind = .rightParen ∧ depth = 1 := by
  unfold depthBehind
  split
  · rename_i left
    simp [left]
  · rename_i right
    simp only [right, reduceCtorEq, or_false] at enters
    simp only [right, ite_eq_left_iff, reduceCtorEq, imp_false, true_and]
    omega
  · rename_i left right
    have pos := enters.resolve_right left
    rw [if_neg (Nat.ne_of_gt pos)]
    exact ⟨nofun, fun closes => absurd closes.1 right⟩

/-- The next token closes the last parenthesis if none is left open behind it. -/
theorem closesAt_zero (enters : 0 < depth ∨ t.kind = .leftParen) :
    ClosesAt depth (t :: tokens) 0 ↔ depthBehind depth t = none := by
  rw [depthBehind_none enters]
  constructor
  · rintro ⟨⟨_, ⟨⟩, right⟩, even⟩
    simp only [List.take_succ_cons, List.take_zero, openings_cons, closings_cons, right] at even
    simp [openings, closings] at even
    exact ⟨right, even⟩
  · rintro ⟨right, rfl⟩
    refine ⟨⟨t, rfl, right⟩, ?_⟩
    simp [openings, closings, right]

theorem closesAt_succ (goesOn : depthBehind depth t = some further) :
    ClosesAt depth (t :: tokens) (i + 1) ↔ ClosesAt further tokens i := by
  have counts := (depthBehind_counts goesOn).1
  have opens : openings ((t :: tokens).take (i + 1 + 1)) = openings [t] + openings (tokens.take (i + 1)) := by
    change openings ([t] ++ tokens.take (i + 1)) = _
    exact List.countP_append
  have closes : closings ((t :: tokens).take (i + 1 + 1)) = closings [t] + closings (tokens.take (i + 1)) := by
    change closings ([t] ++ tokens.take (i + 1)) = _
    exact List.countP_append
  unfold ClosesAt
  rw [opens, closes, List.getElem?_cons_succ]
  refine and_congr_right fun _ => ?_
  omega

end

/-- The character that a parenthesis is written with. -/
def TokenKind.paren? : TokenKind → Option Char
  | .leftParen => some '('
  | .rightParen => some ')'
  | _ => none

section

variable {rules : LexicalRules} {cs : List Char} {kind : TokenKind} {p : Char}

/-- A sign is a parenthesis if it is written as one. -/
theorem symbol?_paren {size : Nat} (found : symbol? cs = some (kind, size)) :
    kind.paren? = some p ↔ cs.take size = [p] ∧ (p = '(' ∨ p = ')') := by
  unfold symbol? at found
  split at found <;> cases found <;> simp [TokenKind.paren?] <;> grind

/-- A parenthesis is always a sign. -/
theorem symbol?_of_paren (paren : p = '(' ∨ p = ')') : symbol? (p :: cs) ≠ none := by
  rcases paren with rfl | rfl <;> simp [symbol?]

/-- No number is a parenthesis. -/
theorem NumberText.value_paren (n : NumberText) (found : n.value = .ok kind) : kind.paren? = none := by
  unfold value at found
  split at found
  · cases found
  · split at found
    · dsimp only at found
      split at found <;> cases found
      rfl
    · cases found
      rfl

/-- A token is a parenthesis if one parenthesis is all that it is written with, and only then: those that
stand in a string or in a quoted name belong to a longer token. -/
theorem scanToken_paren (found : (scanToken rules cs).value = .ok kind) :
    kind.paren? = some p ↔ (scanToken rules cs).text = [p] ∧ (p = '(' ∨ p = ')') := by
  -- where no symbol is found the text does not begin with a parenthesis
  have other {c : Char} {text rest cs : List Char} (noSymbol : symbol? (c :: cs) = none)
      (none : kind.paren? = none) (begins : text ++ rest = c :: cs) :
      kind.paren? = some p ↔ text = [p] ∧ (p = '(' ∨ p = ')') := by
    refine ⟨fun some => absurd (none.symm.trans some) nofun, fun ⟨alone, paren⟩ => ?_⟩
    rw [alone] at begins
    obtain ⟨rfl, -⟩ := List.cons.inj begins
    exact absurd noSymbol (symbol?_of_paren paren)
  have longer {c : Char} {text : List Char} (none : kind.paren? = none) (more : text ≠ []) :
      kind.paren? = some p ↔ c :: text = [p] ∧ (p = '(' ∨ p = ')') :=
    ⟨fun some => absurd (none.symm.trans some) nofun, fun alone => absurd (List.cons.inj alone.1).2 more⟩
  have splits := scanToken_splits rules cs
  revert found splits
  fun_cases scanToken rules cs with
  | case1 =>
    rintro ⟨⟩ -
    simp [TokenKind.paren?]
  | case2 c cs closing =>
    simp only [scanQuotedIdentifier, Scan.behind]
    split
    · rename_i name value
      rintro ⟨⟩ -
      exact longer rfl (scanQuotedName_text_ne_nil (by simp [value]))
    · rintro ⟨⟩
  | case3 c cs =>
    rintro found -
    obtain ⟨value, rfl⟩ := scanString_kind found
    simp only [scanString, Scan.behind] at found ⊢
    split at found <;> cases found
    exact longer rfl (scanStringBody_text_ne_nil ‹_›)
  | case4 c cs noName noString kind size symbol =>
    rintro ⟨⟩ -
    exact symbol?_paren symbol
  | case5 c cs noName noString noSymbol =>
    intro found splits
    obtain ⟨bytes, rfl⟩ := scanBlob_kind found
    exact other noSymbol rfl splits
  | case6 c cs noName noString noSymbol =>
    intro found splits
    exact other noSymbol (NumberText.value_paren _ found) splits
  | case7 c cs noName noString noSymbol =>
    intro found splits
    refine other noSymbol ?_ splits
    simp only [scanWord] at found
    split at found <;> cases found <;> rfl
  | case8 => rintro ⟨⟩

/-- A token is a parenthesis just if its text is one. -/
theorem nextToken_paren {c after : Cursor} {t : Token} (next : nextToken rules c = (.ok t, after)) :
    t.kind.paren? = some p ↔ t.text = String.ofList [p] ∧ (p = '(' ∨ p = ')') := by
  obtain ⟨kind, _, text, rest, _, -, scan, rfl, -⟩ := nextToken_scans next
  have paren : kind.paren? = some p ↔ (scanToken rules rest).text = [p] ∧ (p = '(' ∨ p = ')') :=
    scanToken_paren (by rw [scan])
  rw [scan] at paren
  rw [paren, String.ofList_inj]

theorem Lexes.parens {c : Cursor} {tokens : List Token} {stop : Except LexError Token}
    (lexes : Lexes rules c tokens stop) : ∀ t ∈ tokens,
      t.kind.paren? = some p ↔ t.text = String.ofList [p] ∧ (p = '(' ∨ p = ')') := by
  induction lexes with
  | eof | fault => nofun
  | token next _ _ ih => exact List.forall_mem_cons.mpr ⟨nextToken_paren next, ih⟩

end

/-- However much fuel there is beyond the moves that are left, a repetition gives the same. -/
theorem Tape.iterate_enough {σ : Type} {step : σ → Tape → Reading (Option σ)}
    (forward : ∀ x (s : Tape), s.Leads (step x s).2) {fuel more : Nat} {x : σ} {s : Tape}
    (enough : s.ahead ≤ fuel) (le : fuel ≤ more) :
    Tape.iterate step more x s = Tape.iterate step fuel x s := by
  induction fuel generalizing more x s with
  | zero =>
    have leads := forward x s
    unfold Tape.iterate
    rcases first : step x s with ⟨_ | _ | y, mid⟩
    · rfl
    · rfl
    · rw [first] at leads
      have stays : ¬ s.lastEnd.offset < mid.lastEnd.offset := fun further => by
        have : mid.ahead < s.ahead := leads.ahead_lt further
        omega
      simp only [if_neg stays]
  | succ fuel ih =>
    obtain ⟨more, rfl⟩ := Nat.exists_eq_succ_of_ne_zero (by omega : more ≠ 0)
    have leads := forward x s
    unfold Tape.iterate
    rcases first : step x s with ⟨_ | _ | y, mid⟩
    · rfl
    · rfl
    · rw [first] at leads
      dsimp only
      split
      · rename_i further
        have : mid.ahead < s.ahead := leads.ahead_lt further
        exact ih (by omega) (by omega)
      · rfl

section

variable {Sym : Type → Type} {α β : Type} {levels : List (TapeLevel Sym)} {s mid : Tape}

/-- What is read behind a rule that gave a value. -/
theorem Rule.read_bind {first : Rule Sym α} {next : α → Rule Sym β} {value : α}
    (read : first.read levels s = (.ok value, mid)) :
    (first >>= next).read levels s = (next value).read levels mid := by
  change (first.bind next).read levels s = _
  rw [Rule.read, read]

/-- A loop from its first step on. -/
theorem Rule.read_loop {σ : Type} {step : σ → Rule Sym (Option σ)} {x : σ}
    (forward : ∀ level ∈ levels, level.Forward) :
    (loop step x).read levels s =
      match (step x).read levels s with
      | (.error failure, after) => (.error failure, after)
      | (.ok none, after) => (.ok x, after)
      | (.ok (some y), after) =>
        if s.lastEnd.offset < after.lastEnd.offset then (loop step y).read levels after
        else (.ok y, after) := by
  have leads := (step x).read_leads forward s
  simp only [Rule.read]
  rw [Tape.iterate]
  rcases read : (step x).read levels s with ⟨_ | _ | y, mid⟩
  · rfl
  · rfl
  · dsimp only
    split
    · rename_i further
      rw [read] at leads
      have fewer : mid.ahead < s.ahead := leads.ahead_lt further
      have enough : mid.ahead ≤ s.tokens.length := by
        have := s.ahead_le
        omega
      have forward' := fun x s => (step x).read_leads forward s
      exact (Tape.iterate_enough forward' (Nat.le_refl _) enough).trans
        (Tape.iterate_enough forward' (Nat.le_refl _) mid.ahead_le).symm
    · rfl

end

/-- Why arguments fail that are nowhere closed: the text ends, or a lexical error stands in the way. -/
def unclosed : Except LexError Token → Failure
  | .ok eof => .mismatch ⟨eof.span.start, ["')'"], eof.describe⟩
  | .error e => .lexical e

section

variable {f : Features} {limit depth i : Nat} {s : Tape} {t : Token} {tokens rest : List Token}

theorem peek_read (next : s.tokens = t :: rest) :
    (peek : SqlRule Token).read (sqlLevels f limit) s = (.ok t, s) := by
  simp only [Rule.read, Tape.peek, next]

theorem bump_read (next : s.tokens = t :: rest) :
    (bump : SqlRule Token).read (sqlLevels f limit) s = (.ok t, s.bump.2) := by
  simp only [Rule.read, Tape.bump, next]

/-- A step counts the parentheses that are open behind its token. -/
theorem balancedStep_read (notEof : t.isEof = false) (next : s.tokens = t :: rest) :
    (balancedStep depth).read (sqlLevels f limit) s = (.ok (depthBehind depth t), s.bump.2) := by
  have taken (found : Option Nat) : (do let _ ← bump; return found : SqlRule (Option Nat)).read
      (sqlLevels f limit) s = (.ok found, s.bump.2) := read_bind (bump_read next)
  refine (read_bind (peek_read next)).trans ?_
  unfold depthBehind
  rw [Token.isEof, beq_eq_false_iff_ne] at notEof
  revert notEof
  cases t.kind with
  | eof => exact fun notEof => absurd rfl notEof
  | _ => exact fun _ => taken _

/-- Where the tokens are used up a step fails. -/
theorem balancedStep_unclosed (ended : s.tokens = [])
    (isEof : ∀ eof, s.stop = .ok eof → eof.isEof = true) :
    ((balancedStep depth).read (sqlLevels f limit) s).1 = .error (unclosed s.stop) := by
  cases stop : s.stop with
  | error e =>
    change ((Rule.bind peek _).read _ s).1 = _
    simp only [Rule.read, Tape.peek, ended, stop, unclosed]
    rfl
  | ok eof =>
    have kind : eof.kind = .eof := by simpa [Token.isEof] using isEof eof stop
    have shown : (peek : SqlRule Token).read (sqlLevels f limit) s = (.ok eof, s) := by
      simp only [Rule.read, Tape.peek, ended, stop]
      rfl
    rw [balancedStep, read_bind shown, kind]
    change ((Rule.bind peek _).read _ s).1 = _
    simp only [Rule.read, Tape.peek, ended, stop, unclosed]
    rfl

/-- A step that leaves parentheses open is followed by the steps behind its token. -/
theorem balancedSteps_next {further : Nat} (along : s.Along tokens) (next : s.tokens = t :: rest)
    (goesOn : depthBehind depth t = some further) : s.Moves [t] s.bump.2 ∧
      (loop balancedStep depth).read (sqlLevels f limit) s =
        (loop balancedStep further).read (sqlLevels f limit) s.bump.2 := by
  have notEof : t.isEof = false := along.notEof t (along.mem (next ▸ List.mem_cons_self))
  have moves : s.Moves [t] s.bump.2 := (along.bump (by rw [Tape.peek, next]) notEof).2
  rw [read_loop (sqlLevels_forward f limit), balancedStep_read notEof next, goesOn]
  exact ⟨moves, if_pos (along.lastEnd_lt moves (List.cons_ne_nil t []))⟩

/-- The steps consume the tokens up to the first one that closes what is open. -/
theorem balancedSteps_closed (along : s.Along tokens) (next : s.tokens = rest)
    (enters : 0 < depth ∨ ∃ t, rest.head? = some t ∧ t.kind = .leftParen)
    (closes : ClosesAt depth rest i) (first : ∀ j < i, ¬ ClosesAt depth rest j) :
    (loop balancedStep depth).Succeeds (sqlLevels f limit) s fun _ after =>
      s.Moves (rest.take (i + 1)) after := by
  induction rest generalizing depth i s with
  | nil =>
    obtain ⟨⟨_, ⟨⟩, -⟩, -⟩ := closes
  | cons t rest ih =>
    have enters : 0 < depth ∨ t.kind = .leftParen := by simpa using enters
    cases behind : depthBehind depth t with
    | none =>
      obtain rfl : i = 0 := Nat.eq_zero_of_not_pos fun pos => first 0 pos ((closesAt_zero enters).mpr behind)
      have notEof : t.isEof = false := along.notEof t (along.mem (next ▸ List.mem_cons_self))
      refine ⟨depth, s.bump.2, ?_, (along.bump (by rw [Tape.peek, next]) notEof).2⟩
      rw [read_loop (sqlLevels_forward f limit), balancedStep_read notEof next, behind]
    | some further =>
      obtain ⟨moves, read⟩ := balancedSteps_next along next behind
      cases i with
      | zero => exact absurd ((closesAt_zero enters).mp closes) (by simp [behind])
      | succ i =>
        have left : s.bump.2.tokens = rest := (List.cons.inj (next.symm.trans moves.tokens)).2.symm
        obtain ⟨last, after, read', moves'⟩ := ih (along.moves moves) left
          (.inl (depthBehind_counts behind).2) ((closesAt_succ behind).mp closes)
          fun j lt closes => first (j + 1) (Nat.succ_lt_succ lt) ((closesAt_succ behind).mpr closes)
        exact ⟨last, after, read.trans read', moves.trans moves'⟩

/-- The steps fail behind the last token if none closes what is open. -/
theorem balancedSteps_unclosed (along : s.Along tokens) (next : s.tokens = rest)
    (enters : 0 < depth ∨ ∃ t, rest.head? = some t ∧ t.kind = .leftParen)
    (never : ∀ i, ¬ ClosesAt depth rest i) :
    ((loop balancedStep depth).read (sqlLevels f limit) s).1 = .error (unclosed s.stop) := by
  induction rest generalizing depth s with
  | nil =>
    have fails : ((balancedStep depth).read (sqlLevels f limit) s).1 = .error (unclosed s.stop) :=
      balancedStep_unclosed next along.eof
    rw [read_loop (sqlLevels_forward f limit)]
    rcases read : (balancedStep depth).read (sqlLevels f limit) s with ⟨result, after⟩
    rw [read] at fails
    obtain rfl : result = _ := fails
    rfl
  | cons t rest ih =>
    have enters : 0 < depth ∨ t.kind = .leftParen := by simpa using enters
    cases behind : depthBehind depth t with
    | none => exact absurd ((closesAt_zero enters).mpr behind) (never 0)
    | some further =>
      obtain ⟨moves, read⟩ := balancedSteps_next along next behind
      have left : s.bump.2.tokens = rest := (List.cons.inj (next.symm.trans moves.tokens)).2.symm
      rw [read, ← moves.stop]
      exact ih (along.moves moves) left (.inl (depthBehind_counts behind).2)
        fun i closes => never (i + 1) ((closesAt_succ behind).mpr closes)

end

/-- A rule goes on as another one does further on in the text, which is evaluated on the way. -/
def SqlRule.GoesOn {α : Type} (rules : LexicalRules) (f : Features) (limit : Nat) (rule : SqlRule α)
    (st : State) (rest : SqlRule α) (s : Tape) : Prop :=
  ∃ mid, Visit.Covers rules (Symbol.body f) ⟨limit, rule, st⟩ ⟨limit, rest, mid⟩ ∧
    rule.evalWithin limit rules f st = rest.evalWithin limit rules f mid ∧ Tracks rules mid s

section

variable {rules : LexicalRules} {f : Features} {limit : Nat} {st : State} {s mid : Tape}
  {t : Token} {tokens rest words : List Token} {names : List String}

/-- Reading the next part of a rule goes on. -/
theorem SqlRule.GoesOn.next {α β : Type} {rule : SqlRule β} {first : SqlRule α} {next : α → SqlRule β}
    {value : α} (goesOn : rule.GoesOn rules f limit st (first >>= next) s)
    (read : first.read (sqlLevels f limit) s = (.ok value, mid)) :
    rule.GoesOn rules f limit st (next value) mid := by
  obtain ⟨near, covers, same, tracks⟩ := goesOn
  have agrees := tracks.agrees (Symbol.body f) limit first
  rcases eval : first.eval rules (Rule.levels rules (Symbol.body f) limit) near with ⟨result, far⟩
  rw [eval, show first.read (Rule.tapeLevels (Symbol.body f) limit) s = _ from read] at agrees
  obtain rfl : result = _ := agrees.result
  exact ⟨far, covers.tail (.next eval), same.trans (eval_bind_of_ok eval), agrees.tracks⟩

/-- Asking for a word of a type consumes nothing. -/
theorem typeWord?_read (next : s.tokens = t :: rest) (isFirst : Bool) :
    (typeWord? isFirst).read (sqlLevels f limit) s = (.ok (t.typeWord? isFirst), s) := by
  refine (read_bind (peek_read next)).trans ?_
  unfold Token.typeWord?
  cases t.kind <;> rfl

variable (f limit) in
/-- The further words of a name are read up to the parenthesis behind them. -/
theorem furtherWords_read (along : s.Along tokens) (further : FurtherWords words names)
    (next : s.tokens = words ++ t :: rest) (left : t.kind = .leftParen) (first : String) :
    ∃ after, (loop furtherWord first).read (sqlLevels f limit) s = (.ok (joined first names), after) ∧
      s.Moves words after := by
  induction further generalizing first s with
  | nil =>
    refine ⟨s, ?_, .refl s⟩
    have ends : t.typeWord? false = none := by rw [Token.typeWord?, left]
    rw [read_loop (sqlLevels_forward f limit), furtherWord, read_bind (typeWord?_read next false), ends]
    rfl
  | @cons w name words names found _ ih =>
    have moves : s.Moves [w] s.bump.2 :=
      (along.bump (by rw [Tape.peek, next]; rfl) (Token.isEof_of_typeWord? found)).2
    have left : s.bump.2.tokens = words ++ t :: rest :=
      (List.cons.inj (next.symm.trans moves.tokens)).2.symm
    obtain ⟨after, read, moves'⟩ := ih (along.moves moves) left s!"{first} {name}"
    refine ⟨after, ?_, moves.trans moves'⟩
    rw [read_loop (sqlLevels_forward f limit), furtherWord, read_bind (typeWord?_read next false), found]
    rw [read_bind (bump_read next)]
    exact (if_pos (along.lastEnd_lt moves (List.cons_ne_nil w []))).trans read

variable (f limit) in
/-- Behind the words of its name a type goes on with its arguments. -/
theorem dataType_goesOn {w : Token} {first : String} (tracks : Tracks rules st s) (along : s.Along tokens)
    (next : s.tokens = w :: (words ++ t :: rest)) (word : w.typeWord? true = some first)
    (verbatim : DataType.argumentsOf first = .verbatim) (further : FurtherWords words names)
    (left : t.kind = .leftParen) :
    ∃ mid, dataType.GoesOn rules f limit st
        (capturedArguments (" ".intercalate (first :: names)) t.span.start) mid ∧
      s.Moves (w :: words) mid ∧ mid.tokens = t :: rest := by
  have start : dataType.GoesOn rules f limit st dataType s := ⟨st, .refl, rfl, tracks⟩
  have moves : s.Moves [w] s.bump.2 :=
    (along.bump (by rw [Tape.peek, next]) (Token.isEof_of_typeWord? word)).2
  have behind : s.bump.2.tokens = words ++ t :: rest :=
    (List.cons.inj (next.symm.trans moves.tokens)).2.symm
  obtain ⟨mid, read, moves'⟩ := furtherWords_read f limit (along.moves moves) further
    behind left first
  have here : mid.tokens = t :: rest := (List.append_cancel_left (behind.symm.trans moves'.tokens)).symm
  have custom : dataType.GoesOn rules f limit st (customType first) s.bump.2 := by
    have named := start.next (typeWord?_read next true)
    rw [word] at named
    have name : (typeName first).read (sqlLevels f limit) s.bump.2 = (.ok first, s.bump.2) := by
      rw [typeName_of_verbatim verbatim]
      rfl
    have typed := (named.next (bump_read next)).next name
    rwa [verbatim] at typed
  rw [customType_eq] at custom
  have checked : (check .leftParen : SqlRule Bool).read (sqlLevels f limit) mid = (.ok true, mid) := by
    rw [check, read_bind (peek_read here), left]
    rfl
  have started : (Rule.start : SqlRule Position).read (sqlLevels f limit) mid = (.ok t.span.start, mid) := by
    rw [Rule.start, read_bind (peek_read here)]
    rfl
  refine ⟨mid, ?_, moves.trans moves', here⟩
  rw [← joined_eq]
  exact ((custom.next read).next checked).next started

/-- What is counted while the arguments are passed is how many parentheses are open. -/
theorem balancedSteps_count {depth : Nat} {st' : State}
    (repeating : Rule.Repeating rules (Symbol.body f) limit balancedStep 0 st depth st')
    (tracks : Tracks rules st s) (along : s.Along tokens) :
    ∃ seen mid, Tracks rules st' mid ∧ s.Moves seen mid ∧ openings seen = closings seen + depth ∧
      (seen ≠ [] → 0 < depth) := by
  induction repeating with
  | start => exact ⟨[], s, tracks, .refl s, rfl, fun some => absurd rfl some⟩
  | @next y z near far _ eval _ ih =>
    obtain ⟨seen, mid, tracks', moves, counts, -⟩ := ih
    obtain ⟨after, read, tracks''⟩ := tracks'.reads eval
    obtain ⟨t, -, goesOn, moves'⟩ := balancedStep_yields (along.moves moves) y _ _ read
    obtain ⟨step, pos⟩ := depthBehind_counts goesOn
    refine ⟨seen ++ [t], after, tracks'', moves.trans moves', ?_, fun _ => pos⟩
    have opens : openings (seen ++ [t]) = openings seen + openings [t] := List.countP_append
    have closes : closings (seen ++ [t]) = closings seen + closings [t] := List.countP_append
    omega

/-- The arguments up to the token that closes them are kept as they are written. -/
theorem capturedArguments_closed {i : Nat} (name : String) (tracks : Tracks rules st s)
    (along : s.Along tokens) (next : s.tokens = t :: rest) (left : t.kind = .leftParen)
    (closes : ClosesAt 0 (t :: rest) i) (first : ∀ j < i, ¬ ClosesAt 0 (t :: rest) j) :
    ∃ closing before written behind after, (t :: rest)[i]? = some closing ∧
      s.text = before ++ (written ++ behind) ∧ t.span.start = Position.start.afterAll before ∧
      closing.span.stop = t.span.start.afterAll written ∧
      (capturedArguments name t.span.start).read (sqlLevels f limit) s =
        (.ok (.custom (name ++ String.ofList written)), after) ∧
      s.Moves ((t :: rest).take (i + 1)) after ∧ after.lastEnd = closing.span.stop := by
  obtain ⟨closing, found, -⟩ := closes.1
  have closed : (loop balancedStep 0).Succeeds (sqlLevels f limit) s fun _ after =>
      s.Moves ((t :: rest).take (i + 1)) after :=
    balancedSteps_closed along next (.inr ⟨t, rfl, left⟩) closes first
  obtain ⟨last, after, read, moves⟩ := closed
  have stop : after.lastEnd = closing.span.stop := by
    rw [moves.lastEnd, List.take_add_one, found, endBehind_append]
    rfl
  have pieces : Lexes rules st.reader.cursor (t :: rest.take i ++ rest.drop i) s.stop := by
    rw [List.cons_append, List.take_append_drop, ← next]
    exact tracks.lexes
  obtain ⟨layout, written, behind, split, start, place, -⟩ := pieces.piece
  obtain ⟨lead, whole, position⟩ := tracks.on
  have cut : s.text = (lead ++ layout) ++ (written ++ behind) := by
    rw [← whole, split, List.append_assoc]
  have start : t.span.start = Position.start.afterAll (lead ++ layout) := by
    rw [start, position, Position.afterAll_append]
  have place : closing.span.stop = t.span.start.afterAll written := by
    rw [← stop, moves.lastEnd, ← tracks.position]
    exact place
  refine ⟨closing, lead ++ layout, written, behind, after, found, cut, start, place, ?_, moves, stop⟩
  have passed : balanced.read (sqlLevels f limit) s = (.ok (), after) := read_bind read
  have spanned : (spanFrom t.span.start : SqlRule Span).read (sqlLevels f limit) after =
      (.ok ⟨t.span.start, closing.span.stop⟩, after) := by
    have lt : t.span.start.offset < after.lastEnd.offset := by
      rw [moves.lastEnd]
      exact (along.ordered_used moves).start_lt_endBehind
    rw [← stop, ← Position.later_of_lt lt]
    rfl
  have sliced : sliceBytes after.text t.span.start.offset closing.span.stop.offset = some written := by
    have size : t.span.start.offset = byteSize (lead ++ layout) := by simp [start, Position.start]
    rw [place, Position.afterAll_offset, size, moves.text, cut, sliceBytes_append]
  rw [capturedArguments, read_bind passed, read_bind spanned]
  have kept : (slice ⟨t.span.start, closing.span.stop⟩ : SqlRule String).read (sqlLevels f limit) after =
      (.ok (String.ofList written), after) := by
    simp only [Rule.read, sliced, Option.getD_some]
  exact read_bind kept

/-- If no token closes them, arguments fail at the end of the text. -/
theorem capturedArguments_unclosed (name : String) (along : s.Along tokens) (next : s.tokens = t :: rest)
    (left : t.kind = .leftParen) (never : ∀ i, ¬ ClosesAt 0 (t :: rest) i) :
    ((capturedArguments name t.span.start).read (sqlLevels f limit) s).1 = .error (unclosed s.stop) := by
  have fails : ((loop balancedStep 0).read (sqlLevels f limit) s).1 = .error (unclosed s.stop) :=
    balancedSteps_unclosed along next (.inr ⟨t, rfl, left⟩) never
  rcases read : (loop balancedStep 0).read (sqlLevels f limit) s with ⟨result, after⟩
  rw [read] at fails
  obtain rfl : result = _ := fails
  change ((((loop balancedStep 0).bind fun _ => Rule.pure ()).bind _).read _ s).1 = _
  simp only [Rule.read] at read ⊢
  rw [read]

end

/-- What becomes of the arguments of a type behind the words `name`, where `args` are the tokens from their
opening parenthesis on and `stop` is what ends them. -/
structure Captured (rules : LexicalRules) (f : Features) (limit : Nat) (st : State) (name : String)
    (args : List Token) (stop : Except LexError Token) : Prop where
  /-- They are the text up to the first token with which as many parentheses are closed as were opened. -/
  closed : ∀ i, ClosesAt 0 args i → (∀ j < i, ¬ ClosesAt 0 args j) →
    ∃ opening closing before written behind after, args.head? = some opening ∧ args[i]? = some closing ∧
      st.reader.text = before ++ (written ++ behind) ∧
      opening.span.start = Position.start.afterAll before ∧
      closing.span.stop = opening.span.start.afterAll written ∧
      dataType.evalWithin limit rules f st = (.ok (.custom (name ++ String.ofList written)), after) ∧
      after.position = closing.span.stop ∧ Lexes rules after.reader.cursor (args.drop (i + 1)) stop
  /-- Where no token closes them the type fails at the end of the text or with the lexical error. -/
  unclosed : (∀ i, ¬ ClosesAt 0 args i) →
    ∃ after, dataType.evalWithin limit rules f st = (.error (unclosed stop), after)
  /-- What the loop counts is how many parentheses are open, one at least where one is to be closed. -/
  counts : ∃ opening, Visit.Inside rules (Symbol.body f) ⟨limit, dataType, st⟩
      ⟨limit, loop balancedStep 0, opening⟩ ∧ ∀ depth mid,
    Rule.Repeating rules (Symbol.body f) limit balancedStep 0 opening depth mid →
      ∃ seen more, args = seen ++ more ∧ Lexes rules mid.reader.cursor more stop ∧
        openings seen = closings seen + depth ∧
        ∀ t, more.head? = some t → t.kind = .rightParen → 0 < depth
  /-- Only a token that is nothing but a parenthesis counts as one. -/
  parens : ∀ t ∈ args, (t.kind = .leftParen ↔ t.text = "(") ∧ (t.kind = .rightParen ↔ t.text = ")")

/-- Arguments that a type keeps as they are written are kept exactly, in every state that a text leads to and
that has the words of the type in front of it. -/
theorem Reachable.arguments_captured {rules : LexicalRules} {text : List Char} {saved : List StateMark}
    {st : State} (reach : Reachable rules text saved st) (f : Features) (limit : Nat)
    {w opening : Token} {words rest : List Token} {stop : Except LexError Token} {first : String}
    {names : List String} (lexes : Lexes rules st.reader.cursor (w :: (words ++ opening :: rest)) stop)
    (word : w.typeWord? true = some first) (verbatim : DataType.argumentsOf first = .verbatim)
    (further : FurtherWords words names) (left : opening.kind = .leftParen) :
    Captured rules f limit st (" ".intercalate (first :: names)) (opening :: rest) stop := by
  obtain ⟨s, tokens, tracks, along⟩ := reach.along
  obtain ⟨next, rfl⟩ := lexes.same tracks.lexes
  obtain ⟨mid, ⟨near, covers, same, tracks'⟩, moves, here⟩ :=
    dataType_goesOn f limit tracks along next word verbatim further left
  have along' := along.moves moves
  have agrees := tracks'.agrees (Symbol.body f) limit
    (capturedArguments (" ".intercalate (first :: names)) opening.span.start)
  rcases eval : (capturedArguments (" ".intercalate (first :: names)) opening.span.start).eval rules
    (Rule.levels rules (Symbol.body f) limit) near with ⟨result, after⟩
  have whole : dataType.evalWithin limit rules f st = (result, after) := same.trans eval
  rw [eval] at agrees
  have inside : Visit.Inside rules (Symbol.body f) ⟨limit, dataType, st⟩
      ⟨limit, loop balancedStep 0, near⟩ :=
    .tail (.tail' covers .first) .first
  refine ⟨?_, ?_, ⟨near, inside, ?_⟩, ?_⟩
  · intro i closes first'
    obtain ⟨closing, before, written, behind, last, found, cut, start, place, read, moves', ended⟩ :=
      capturedArguments_closed (" ".intercalate (first :: names)) tracks' along' here left closes first'
    rw [show Rule.read _ (Rule.tapeLevels (Symbol.body f) limit) mid = _ from read] at agrees
    obtain rfl : result = _ := agrees.result
    refine ⟨opening, closing, before, written, behind, after, rfl, found, ?_, start, place, whole,
      agrees.tracks.position.trans ended, ?_⟩
    · rw [tracks.text, ← moves.text, cut]
    · have rest' : last.tokens = (opening :: rest).drop (i + 1) := by
        have all := here.symm.trans moves'.tokens
        conv_lhs at all => rw [← List.take_append_drop (i + 1) (opening :: rest)]
        exact (List.append_cancel_left all).symm
      rw [← rest', ← moves.stop, ← moves'.stop]
      exact agrees.tracks.lexes
  · intro never
    have fails : ((capturedArguments (" ".intercalate (first :: names)) opening.span.start).read
        (sqlLevels f limit) mid).1 = .error (unclosed mid.stop) :=
      capturedArguments_unclosed _ along' here left never
    have result' := agrees.result.trans fails
    rw [moves.stop] at result'
    obtain rfl : result = _ := result'
    exact ⟨after, whole⟩
  · intro depth st' repeating
    obtain ⟨seen, last, tracks'', moves', counts, pos⟩ := balancedSteps_count repeating tracks' along'
    refine ⟨seen, last.tokens, here.symm.trans moves'.tokens, ?_, counts, fun t shown right => pos ?_⟩
    · rw [← moves.stop, ← moves'.stop]
      exact tracks''.lexes
    · rintro rfl
      rw [← show opening :: rest = last.tokens from here.symm.trans moves'.tokens] at shown
      cases shown
      exact absurd (left.symm.trans right) nofun
  · intro t mem
    have paren (p : Char) := lexes.parens (p := p) t (List.mem_cons_of_mem w (List.mem_append_right words mem))
    refine ⟨?_, ?_⟩
    · have left := paren '('
      revert left
      cases t.kind <;> simp [TokenKind.paren?]
    · have right := paren ')'
      revert right
      cases t.kind <;> simp [TokenKind.paren?]

/-- The parentheses in a string and in a comment close nothing. -/
theorem Reachable.arguments_captured_comment :
    ∃ a b opening string closing eof,
      Lexes Dialect.sqlite.lexical (.ofText "A B (')' /*)*/)".toList)
        (a :: ([b] ++ opening :: [string, closing])) (.ok eof) ∧
      Captured Dialect.sqlite.lexical Dialect.sqlite.features maxNesting
        (.ofText "A B (')' /*)*/)".toList) "A B" [opening, string, closing] (.ok eof) ∧
      ClosesAt 0 [opening, string, closing] 2 ∧
      (dataType.evalWithin maxNesting Dialect.sqlite.lexical Dialect.sqlite.features
        (.ofText "A B (')' /*)*/)".toList)).1 = .ok (.custom "A B(')' /*)*/)") := by
  have lexed : tokenize Dialect.sqlite.lexical "A B (')' /*)*/)" =
      .ok ([⟨.identifier "A", "A", ⟨⟨0, 1, 1⟩, ⟨1, 1, 2⟩⟩⟩, ⟨.identifier "B", "B", ⟨⟨2, 1, 3⟩, ⟨3, 1, 4⟩⟩⟩,
        ⟨.leftParen, "(", ⟨⟨4, 1, 5⟩, ⟨5, 1, 6⟩⟩⟩, ⟨.string ")", "')'", ⟨⟨5, 1, 6⟩, ⟨8, 1, 9⟩⟩⟩,
        ⟨.rightParen, ")", ⟨⟨14, 1, 15⟩, ⟨15, 1, 16⟩⟩⟩] ++ [⟨.eof, "", ⟨⟨15, 1, 16⟩, ⟨15, 1, 16⟩⟩⟩]) := by
    rfl
  obtain ⟨front, eof, split, lexes⟩ := lexes_of_tokenize lexed
  obtain ⟨rfl, same⟩ := List.append_inj' split rfl
  obtain ⟨a, b, opening, string, closing, lexes, first, second, left, quoted, right⟩ :
      ∃ a b opening string closing, Lexes Dialect.sqlite.lexical (.ofText "A B (')' /*)*/)".toList)
          (a :: ([b] ++ opening :: [string, closing])) (.ok eof) ∧ a.typeWord? true = some "A" ∧
        b.typeWord? false = some "B" ∧ opening.kind = .leftParen ∧ string.kind = .string ")" ∧
        closing.kind = .rightParen :=
    ⟨_, _, _, _, _, lexes, rfl, rfl, rfl, rfl, rfl⟩
  have value : (dataType.evalWithin maxNesting Dialect.sqlite.lexical Dialect.sqlite.features
      (.ofText "A B (')' /*)*/)".toList)).1 = .ok (.custom "A B(')' /*)*/)") := by decide +kernel
  have verbatim : DataType.argumentsOf "A" = .verbatim := rfl
  have name : " ".intercalate ["A", "B"] = "A B" := rfl
  have captured := (Reachable.start : Reachable Dialect.sqlite.lexical "A B (')' /*)*/)".toList [] _
    ).arguments_captured Dialect.sqlite.features maxNesting lexes first verbatim (.cons second .nil) left
  rw [name] at captured
  have closes : ClosesAt 0 [opening, string, closing] 2 :=
    ⟨⟨closing, rfl, right⟩, by simp [openings, closings, left, quoted, right]⟩
  exact ⟨a, b, opening, string, closing, eof, lexes, captured, closes, value⟩

end SqlTree
