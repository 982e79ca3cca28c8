import SqlTree.Proofs.Lexing.Joined
import SqlTree.Proofs.Lockstep.Exact
import SqlTree.Proofs.Scripts.NestedStatements
import SqlTree.Proofs.Text.Shifted
import SqlTree.Proofs.Tree.Entries
import SqlTree.Proofs.Tree.Spans

namespace SqlTree

open Rule SqlRule

/-- A tape over the tokens of a sheet is on its way through the tokens of the whole text. -/
theorem Tape.At.along {sheet : Sheet} {i : Nat} {s : Tape} (here : s.At sheet i)
    (before : sheet.before = .start) (ordered : Ordered 0 (sheet.tokens ++ sheet.rest))
    (notEof : ∀ t ∈ sheet.tokens ++ sheet.rest, t.isEof = false) (isEof : sheet.eof.isEof = true) :
    s.Along (sheet.tokens ++ sheet.rest) where
  ordered := ordered
  notEof := notEof
  place := by
    refine ⟨sheet.tokens.take i, ?_, by rw [here.lastEnd, Sheet.stopAt, before]⟩
    rw [here.tokens, ← List.append_assoc, List.take_append_drop]
  eof eof same := by
    rw [here.stop] at same
    cases same
    exact isEof

section

variable {f : Features} {levels : List (TapeLevel Symbol)} {tokens tokens' : List Token} {s s' : Tape}
  {t : Token}

/-- The first one of some semicolons may be taken beforehand. -/
theorem semicolons_bump (along : s.Along tokens) (shown : s.peek = .ok t) (semicolon : t.kind = .semicolon) :
    semicolons.read levels s = semicolons.read levels s.bump.2 := by
  obtain ⟨bumped, moves⟩ := along.bump shown (by rw [Token.isEof, semicolon]; rfl)
  have consumed : (bump : SqlRule Token).read levels s = (.ok t, s.bump.2) := Prod.ext bumped rfl
  obtain ⟨_, _, step, rfl, rfl⟩ : (do if ← eat .semicolon then return some () else return none :
      SqlRule (Option Unit)).Succeeds levels s fun next after => next = some () ∧ after = s.bump.2 := by
    simp only [eat, succeeds_bind, succeeds_check shown, semicolon, succeeds_ite, succeeds_pure]
    exact ⟨t, _, consumed, trivial, rfl⟩
  have fuel : s.tokens.length = s.bump.2.tokens.length + 1 := by
    rw [moves.tokens, List.length_append, Nat.add_comm]
    rfl
  change Tape.iterate _ (s.tokens.length + 1) () s = Tape.iterate _ (s.bump.2.tokens.length + 1) () _
  rw [fuel]
  exact Tape.iterate_next step (along.lastEnd_lt moves (List.cons_ne_nil t []))

/-- Semicolons are consumed alike as far as the first text goes; behind it there may be more. -/
theorem semicolons_abreast (levels : List (TapeLevel Symbol)) {L : Likeness} {texts : Facing L} {i : Nat} (along : s.Along tokens)
    (along' : s'.Along tokens') (abreast : s.Abreast texts i s') :
    ∃ k mid mid', i ≤ k ∧ mid.Abreast texts k mid' ∧
      (texts.left.tokenAt k).kind.sameKind .semicolon = false ∧
      semicolons.read levels s = (.ok (), mid) ∧
      semicolons.read levels s' = semicolons.read levels mid' := by
  induction left : texts.left.length - i using Nat.strongRecOn generalizing i s s' with
  | _ ahead ih =>
    cases same : (texts.left.tokenAt i).kind.sameKind .semicolon with
    | false => exact ⟨i, s, s', Nat.le_refl i, abreast, same, semicolons_read abreast.left.peek same, rfl⟩
    | true =>
      have semicolon := TokenKind.semicolon_of_sameKind same
      have notEof : (texts.left.tokenAt i).isEof = false := by rw [Token.isEof, semicolon]; rfl
      have lt := texts.lt_of_notEof abreast.left.within notEof
      have semicolon' := (texts.like_of_lt lt).kind.trans semicolon
      obtain ⟨-, moves⟩ := along.bump abreast.left.peek notEof
      obtain ⟨-, moves'⟩ := along'.bump abreast.right.peek (by rw [Token.isEof, semicolon']; rfl)
      obtain ⟨k, mid, mid', further, beside, found, read, read'⟩ :=
        ih _ (by omega) (along.moves moves) (along'.moves moves') (abreast.bump lt).2.2 rfl
      refine ⟨k, mid, mid', by omega, beside, found, ?_, ?_⟩
      · rw [semicolons_bump along abreast.left.peek semicolon, read]
      · rw [semicolons_bump along' abreast.right.peek semicolon', read']

/-- A step depends on what is left when its semicolons are consumed. -/
theorem scriptStep_congr (same : semicolons.read levels s = semicolons.read levels s')
    (statements : List Statement) :
    (scriptStep f statements).read levels s = (scriptStep f statements).read levels s' := by
  change (semicolons.bind _).read levels s = (semicolons.bind _).read levels s'
  simp only [Rule.read, same]

end

/-- Repetitions that begin further on begin here as well, if the first one is the same. -/
theorem Runs.earlier {σ : Type} {step : σ → Tape → Reading (Option σ)} {x y : σ} {s s' after : Tape}
    (same : step x s = step x s') (before : s.lastEnd.offset ≤ s'.lastEnd.offset)
    (onward : ∀ y after, step x s' = (.ok (some y), after) → s'.lastEnd.offset < after.lastEnd.offset)
    (runs : Runs step x s' y after) : Runs step x s y after := by
  cases runs with
  | stop read => exact .stop (same.trans read)
  | stay read stays => exact absurd (onward _ _ read) stays
  | next read further rest => exact .next (same.trans read) (Nat.lt_of_le_of_lt before further) rest

/-- Where a step gives nothing there are no repetitions. -/
theorem Runs.of_ended {σ : Type} {step : σ → Tape → Reading (Option σ)} {x y : σ} {s mid after : Tape}
    (runs : Runs step x s y after) (ended : step x s = (.ok none, mid)) : y = x ∧ after = mid := by
  cases runs with
  | stop read => exact ⟨rfl, congrArg Prod.snd (read.symm.trans ended)⟩
  | stay read => cases read.symm.trans ended
  | next read => cases read.symm.trans ended

namespace Joined

section

variable {rules : LexicalRules} {a b : String} (texts : Joined rules a b) {i k : Nat}

/-- The first text as it stands in the joined one. -/
def firstSheet : Sheet where
  text := (a ++ "\n;\n" ++ b).toList
  before := .start
  tokens := texts.front
  rest := texts.semicolon :: texts.moved
  eof := texts.eof
  ordered := texts.whole.ordered.split.1
  notEof := texts.first.notEof
  behind := by
    obtain ⟨layout, start⟩ := texts.whole.start_behind
    rw [start, Position.afterAll_offset]
    exact Nat.le_add_right _ _

/-- How the statements of the first text are read in the joined one. Behind the last token there is the
semicolon, which no statement reaches. -/
def likeness : Likeness where
  place p p' := p' = p ∨ p' = texts.semicolon.span.start
  shift := 0
  written _ w w' := w' = w

/-- What does not touch the semicolon is the same in both texts. -/
theorem faithful : texts.likeness.Faithful (· ≠ texts.semicolon.span.start) where
  place _ _ places other := places.resolve_right other
  shift := rfl
  written _ _ _ same := same

/-- The semicolon stands on a line of its own. -/
theorem stop_lt_semicolon :
    (endBehind .start texts.front).offset < texts.semicolon.span.start.offset := by
  have lexes := texts.first
  rw [← List.append_nil texts.front] at lexes
  obtain ⟨written, behind, split, stop, -⟩ := lexes.cut
  have whole : a.toList = written ++ behind := split
  have place : endBehind .start texts.front = Position.start.afterAll written := stop
  have line : byteSize "\n".toList = 1 := rfl
  rw [place, texts.start, String.toList_append, whole]
  simp only [Position.afterAll_offset, byteSize_append, line]
  omega

/-- The tokens of the first text start in the joined one where they did. -/
theorem startAt_eq (lt : i < texts.front.length) :
    texts.firstSheet.startAt i = texts.first.sheet.startAt i := by
  rw [Sheet.startAt, Sheet.startAt, texts.first.sheet.tokenAt_of_lt lt,
    texts.firstSheet.tokenAt_of_lt lt]
  rfl

/-- Behind the tokens of the first text stands the semicolon. -/
theorem tokenAt_length : texts.firstSheet.tokenAt texts.front.length = texts.semicolon :=
  texts.firstSheet.tokenAt_length

theorem startAt_length :
    texts.firstSheet.startAt texts.front.length = texts.semicolon.span.start := by
  rw [Sheet.startAt, tokenAt_length]

/-- All of them end in front of it. -/
theorem stopAt_lt (within : k ≤ texts.front.length) :
    (texts.firstSheet.stopAt k).offset < texts.semicolon.span.start.offset := by
  refine Nat.lt_of_le_of_lt (texts.firstSheet.stopAt_le within (Nat.le_refl _)) ?_
  have all : texts.firstSheet.stopAt texts.front.length = endBehind .start texts.front :=
    congrArg (endBehind .start) List.take_length
  exact all ▸ texts.stop_lt_semicolon

/-- What is cut out of the first text is cut out of the joined one. -/
theorem written_eq (lt : i < k) (within : k ≤ texts.front.length) :
    texts.firstSheet.written i k = texts.first.sheet.written i k := by
  obtain ⟨written, slice, -⟩ := texts.first.sliced lt within
  have inside := sliceBytes_inside [] ("\n;\n" ++ b).toList slice
  simp only [byteSize_nil, Nat.zero_add, List.nil_append, ← String.toList_append,
    ← String.append_assoc] at inside
  have start := texts.startAt_eq (Nat.lt_of_lt_of_le lt within)
  have same : sliceBytes texts.firstSheet.text (texts.firstSheet.startAt i).offset
      (texts.firstSheet.stopAt k).offset = some written := start ▸ inside
  rw [Sheet.written, same]
  exact (congrArg (fun piece => String.ofList (Option.getD piece [])) slice).symm

/-- The first text and the joined one face each other as far as the semicolon. -/
def facing (nested : Nested texts.front) : Facing texts.likeness where
  left := texts.first.sheet
  right := texts.firstSheet
  exact := False
  tokens := List.forall₂_same.mpr fun _ _ => ⟨rfl, rfl⟩
  isEof := texts.first.eof_of_ok
  closing := .inr ⟨texts.kind, nested, not_false⟩
  start i hi := by
    rcases Nat.lt_or_eq_of_le hi with lt | rfl
    · exact .inl (texts.startAt_eq lt)
    · exact .inr texts.startAt_length
  stop i hi k hk := by
    rcases Nat.lt_or_eq_of_le hi with lt | rfl
    · exact .inl (congrArg _ (texts.startAt_eq lt))
    · refine .inr ?_
      rw [show texts.first.sheet.length = texts.front.length from rfl, texts.startAt_length]
      exact Position.later_eq_right (texts.stopAt_lt hk)
  written _ _ _ _ written := texts.written_eq written.encloses.lt.1 written.within

end

section

variable {rules : LexicalRules} {a b : String} {texts : Joined rules a b} {f : Features} {limit : Nat}
  {i k : Nat} {s s' mid after : Tape} {st : Statement}

/-- A run over the first text has the tokens in front of the semicolon before it. -/
theorem along_first (here : s.At texts.first.sheet i) : s.Along texts.front := by
  have all : texts.front ++ [] = texts.front := List.append_nil _
  exact all ▸ here.along rfl (all.symm ▸ texts.first.ordered) (all.symm ▸ texts.first.notEof)
    texts.first.eof_of_ok

theorem along (here : s.At texts.firstSheet i) :
    s.Along (texts.front ++ texts.semicolon :: texts.moved) :=
  here.along rfl texts.whole.ordered texts.whole.notEof texts.whole.eof_of_ok

/-- No node of a statement of the first text starts or ends at the semicolon. -/
theorem statement_placed (here : s.At texts.firstSheet i) (there : after.At texts.firstSheet k)
    (read : (statement f).read (sqlLevels f limit) s = (.ok st, after)) :
    (Node.ofStatement st).Placed (· ≠ texts.semicolon.span.start) := by
  obtain ⟨used, -, row⟩ := statement_reads (callsAt _ _ _) s (along here) st after read
  have inside : ∀ t ∈ used, t ∈ texts.front := by
    have split := row.moves.tokens
    rw [here.tokens, there.tokens, ← List.append_assoc, List.append_cancel_right_eq] at split
    exact fun t mem => List.mem_of_mem_drop (split ▸ List.mem_append_left _ mem)
  have apart {p : Position} (before : p.offset ≤ (endBehind .start texts.front).offset) :
      p ≠ texts.semicolon.span.start := by
    rintro rfl
    exact absurd texts.stop_lt_semicolon (Nat.not_lt_of_le before)
  intro n within
  obtain ⟨before, own, behind, rfl, covers⟩ := row.laid.covers_of_mem List.mem_cons_self
  obtain ⟨before', own', behind', rfl, covers'⟩ := covers.within within
  obtain ⟨t, rest, rfl⟩ := List.exists_cons_of_ne_nil covers'.ne_nil
  obtain ⟨last, mem, stop⟩ := spanOf_stop_mem t rest
  have bounds (u : Token) (mem : u ∈ t :: rest) := texts.first.ordered.bounds <| inside u <|
    List.mem_append_left _ (List.mem_append_right _ (List.mem_append_left _
      (List.mem_append_right _ mem)))
  have first := bounds t List.mem_cons_self
  have final := bounds last mem
  rw [covers'.span_eq, stop]
  exact ⟨apart (Nat.le_trans (Nat.le_of_lt first.2.1) first.2.2), apart final.2.2⟩

variable {nested : Nested texts.front} {x : List Statement}

/-- What a step comes to over the joined text where one over the first text comes to `next` and `after`,
whatever statements were read before it: to the semicolon, or to the same statement, with the semicolon
that closes it. -/
inductive Ahead (texts : Joined rules a b) (nested : Nested texts.front) (f : Features) (limit : Nat)
    (x : List Statement) (s' : Tape) : Option (List Statement) → Tape → Prop
  | stop {mid mid'} : mid.Abreast (texts.facing nested) texts.front.length mid' →
      s'.lastEnd.offset ≤ mid'.lastEnd.offset →
      (∀ x', (scriptStep f x').read (sqlLevels f limit) s' =
        (scriptStep f x').read (sqlLevels f limit) mid') → Ahead texts nested f limit x s' none mid
  | next {k st after after'} : after.Abreast (texts.facing nested) k after' →
      (∀ x', (scriptStep f x').read (sqlLevels f limit) s' = (.ok (some (st :: x')), after')) →
      Ahead texts nested f limit x s' (some (st :: x)) after
  | last {st after mid'} : after.Abreast (texts.facing nested) texts.front.length mid' →
      (∀ x', (scriptStep f x').read (sqlLevels f limit) s' =
        (.ok (some (st :: x')), mid'.bump.2)) → Ahead texts nested f limit x s' (some (st :: x)) after

/-- The first text ends behind all of its tokens. -/
theorem length_of_ended (here : s.At texts.first.sheet i)
    (isEof : (texts.first.sheet.tokenAt i).kind.sameKind .eof = true) : i = texts.front.length := by
  obtain ⟨empty, -⟩ := (along_first here).ended here.peek isEof
  have none := (List.append_eq_nil_iff.mp (here.tokens ▸ empty)).1
  exact Nat.le_antisymm here.within (List.drop_eq_nil_iff.mp none)

/-- A step over the first text is one over the joined text, or the last one in front of the semicolon. -/
theorem scriptStep_ahead (abreast : s.Abreast (texts.facing nested) i s') :
    (scriptStep f x).Yields (sqlLevels f limit) s (Ahead texts nested f limit x s') := by
  obtain ⟨k, mid, mid', further, beside, other, read, read'⟩ := semicolons_abreast
    (sqlLevels f limit) (along_first abreast.left) (along abreast.right) abreast
  have same := scriptStep_congr (f := f) read'
  simp only [scriptStep, yields_bind, yields_check, yields_ite, yields_pure]
  intro _ _ eq t shown
  rw [read] at eq
  cases eq
  rw [beside.left.peek] at shown
  cases shown
  split
  · rename_i isEof
    obtain rfl := length_of_ended beside.left isEof
    refine .stop beside ?_ same
    rw [abreast.right.lastEnd, beside.right.lastEnd]
    exact texts.firstSheet.stopAt_le further beside.right.within
  rename_i inner
  have lt : k < (texts.facing nested).left.length := by
    refine (texts.facing nested).lt_of_notEof beside.left.within (beq_eq_false_iff_ne.mpr fun isEof => ?_)
    exact inner (by rw [isEof]; rfl)
  have like := (texts.facing nested).like_of_lt lt
  intro st after tried u shown
  have alike : Matches (texts.facing nested) (sqlLevels f limit) (attempt (statement f))
      (Statement.Like texts.likeness) := statement_matches.attempt
  have echoes := alike k mid mid' beside
  rw [tried] at echoes
  generalize again : (attempt (statement f)).read (sqlLevels f limit) mid' = reading at echoes
  obtain ⟨abreast', said⟩ := echoes
  rename_i j st' after'
  have calm : mid'.cancelAfter = none := beside.right.cancelAfter
  obtain rfl : st' = st := said.eq texts.faithful
    (statement_placed beside.right abreast'.right ((attempt_read_iff calm).mp again))
  have closed (semicolon : (texts.firstSheet.tokenAt j).kind = .semicolon) (x' : List Statement) :
      (scriptStep f x').read (sqlLevels f limit) s' = (.ok (some (st' :: x')), after'.bump.2) := by
    refine (same x').trans (scriptStep_closed (along abreast'.right) beside.right.peek ?_ ?_ again
      abreast'.right.peek semicolon x')
    · rw [like.kind]
      exact other
    · rw [like.kind]
      exact Bool.eq_false_iff.mpr inner
  rw [abreast'.left.peek] at shown
  cases shown
  split
  · rename_i isEof
    obtain rfl := length_of_ended abreast'.left isEof
    refine .last abreast' (closed ?_)
    rw [texts.tokenAt_length]
    exact texts.kind
  · refine yields_expect fun u shown found _ => ?_
    rw [abreast'.left.peek] at shown
    cases shown
    have semicolon := TokenKind.semicolon_of_sameKind found
    have lt' := (texts.facing nested).lt_of_notEof abreast'.left.within (by rw [Token.isEof, semicolon]; rfl)
    exact .next (abreast'.bump lt').2.2 (closed (((texts.facing nested).like_of_lt lt').kind.trans semicolon))

/-- A step that gives a statement moves on. -/
theorem scriptStep_onward {tokens : List Token} {y : List Statement} (along : s.Along tokens)
    (read : (scriptStep f x).read (sqlLevels f limit) s = (.ok (some y), after)) :
    s.lastEnd.offset < after.lastEnd.offset :=
  ((scriptStep_ends along x (some y) after read).2 (Option.some_ne_none y)).2

/-- Where the first text ends the joined one stands at the semicolon, and the statements are the same.
What the loop over the joined text comes to from behind the semicolon on it comes to from its start. -/
theorem runs_first {y : List Statement}
    (runs : Runs (fun x => (scriptStep f x).read (sqlLevels f limit)) x s y after)
    (abreast : s.Abreast (texts.facing nested) i s') :
    ∃ statements mid', y = statements ++ x ∧
      after.Abreast (texts.facing nested) texts.front.length mid' ∧
      ∀ x' z after',
        Runs (fun x => (scriptStep f x).read (sqlLevels f limit)) (statements ++ x') mid'.bump.2 z after' →
        Runs (fun x => (scriptStep f x).read (sqlLevels f limit)) x' s' z after' := by
  induction runs generalizing i s' with
  | stop read =>
    obtain ⟨beside, before, same⟩ := scriptStep_ahead abreast _ _ read
    rename_i mid'
    refine ⟨[], mid', rfl, beside, fun x' z after' runs => ?_⟩
    have along' := along beside.right
    have shown : mid'.peek = .ok texts.semicolon := texts.tokenAt_length ▸ beside.right.peek
    obtain ⟨-, moves⟩ := along'.bump shown (by rw [Token.isEof, texts.kind]; rfl)
    have further := along'.lastEnd_lt moves (List.cons_ne_nil _ _)
    refine runs.earlier ((same x').trans ?_) (Nat.le_trans before (Nat.le_of_lt further))
      fun _ _ => scriptStep_onward (along'.moves moves)
    exact scriptStep_congr (semicolons_bump along' shown texts.kind) x'
  | stay read stays => exact absurd (scriptStep_onward (along_first abreast.left) read) stays
  | @next x _ _ _ mid _ read _ rest ih =>
    have ahead := scriptStep_ahead abreast _ _ read
    cases ahead with
    | @next _ st _ _ beside again =>
      obtain ⟨statements, mid', rfl, ended, behind⟩ := ih beside
      refine ⟨statements ++ [st], mid', by simp, ended, fun x' z after' runs => ?_⟩
      refine .next (again x') (scriptStep_onward (along abreast.right) (again x')) ?_
      exact behind (st :: x') z after' (by simpa using runs)
    | @last st _ mid' beside again =>
      have isEof : (texts.first.sheet.tokenAt texts.front.length).kind = .eof := by
        have ends : texts.first.sheet.tokenAt texts.front.length = texts.frontEof :=
          texts.first.sheet.tokenAt_length
        rw [ends]
        simpa [Token.isEof] using texts.first.eof_of_ok
      obtain ⟨rfl, rfl⟩ := rest.of_ended (scriptStep_ended beside.left.peek isEof (st :: x))
      exact ⟨[st], mid', rfl, beside, fun x' z after' runs =>
        .next (again x') (scriptStep_onward (along abreast.right) (again x')) runs⟩

end

end Joined

end SqlTree
