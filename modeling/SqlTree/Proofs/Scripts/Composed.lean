import SqlTree.Proofs.Scripts.Front
import SqlTree.Proofs.Tree.Placeholders

namespace SqlTree

open Rule SqlRule

/-- How what is read behind some lines, in which `count` placeholders were passed, says the same as what
is read of a text alone. -/
def Likeness.behind (lines : String) (count : Nat) : Likeness where
  place p p' := p = p'.shiftedBy lines.toList
  shift := count
  written _ w w' := w' = w

namespace Joined

section

variable {rules : LexicalRules} {a b : String} (texts : Joined rules a b) {i j : Nat}

/-- The second text as it stands in the joined one. -/
def secondSheet : Sheet where
  text := (a ++ "\n;\n" ++ b).toList
  before := texts.semicolon.span.stop
  tokens := texts.moved
  rest := []
  eof := texts.eof
  ordered := texts.whole.ordered.split.2.2.2
  notEof t mem := texts.whole.notEof t (List.mem_append_right _ (List.mem_cons_of_mem _ mem))
  behind := by
    have all := texts.whole
    rw [← List.append_nil (texts.front ++ _)] at all
    obtain ⟨layout, start⟩ := all.start_behind
    rw [endBehind_append, endBehind_cons] at start
    rw [start, Position.afterAll_offset]
    exact Nat.le_add_right _ _

/-- Behind the lines of the first text and the semicolon all places are shifted by them. -/
theorem shifted_of_moved {written : List Char} {p q : Position}
    (moved : Position.Moved .start (Position.start.afterAll (a ++ "\n;\n").toList) written p q) :
    q = p.shiftedBy (a ++ "\n;\n").toList := by
  obtain ⟨read, -, rfl, rfl⟩ := moved
  have lines : (a ++ "\n;\n").toList = (a.toList ++ ['\n', ';']) ++ ['\n'] := by
    rw [String.toList_append, List.append_assoc]
    rfl
  rw [lines, Position.start_afterAll_line, Position.afterAll_shiftedBy]

/-- Moving tokens leaves as many as there were. -/
theorem length_moved : texts.moved.length = texts.back.length := texts.likes.length_eq.symm

theorem tokenAt_moved (hi : i ≤ texts.back.length) :
    Token.Moved .start (Position.start.afterAll (a ++ "\n;\n").toList) b.toList
      (texts.second.sheet.tokenAt i) (texts.secondSheet.tokenAt i) := by
  have length := texts.length_moved
  rcases Nat.lt_or_eq_of_le hi with lt | rfl
  · have lt' : i < texts.moved.length := length ▸ lt
    rw [texts.second.sheet.tokenAt_of_lt lt, texts.secondSheet.tokenAt_of_lt lt']
    exact texts.likes.get lt lt'
  · have ends : texts.second.sheet.tokenAt texts.back.length = texts.backEof :=
      texts.second.sheet.tokenAt_length
    have ends' : texts.secondSheet.tokenAt texts.back.length = texts.eof :=
      length ▸ texts.secondSheet.tokenAt_length
    rw [ends, ends']
    exact texts.ending

/-- A token of the second text starts in the joined one behind the lines of the first text. -/
theorem startAt_moved (hi : i ≤ texts.back.length) : texts.secondSheet.startAt i =
    (texts.second.sheet.startAt i).shiftedBy (a ++ "\n;\n").toList :=
  shifted_of_moved (texts.tokenAt_moved hi).start

theorem stopAt_moved (hi : i < texts.back.length) : texts.secondSheet.stopAt (i + 1) =
    (texts.second.sheet.stopAt (i + 1)).shiftedBy (a ++ "\n;\n").toList := by
  rw [texts.second.sheet.stopAt_succ hi,
    texts.secondSheet.stopAt_succ (lt_of_lt_of_eq hi texts.length_moved.symm)]
  exact shifted_of_moved (texts.tokenAt_moved (Nat.le_of_lt hi)).stop

/-- The end of the semicolon is further on than no token of the second text. -/
theorem stopAt_zero_lt (hi : i ≤ texts.back.length) :
    (texts.secondSheet.stopAt 0).offset < (texts.secondSheet.startAt i).offset := by
  have stop : texts.secondSheet.stopAt 0 = Position.start.afterAll (a ++ "\n;").toList := texts.stop
  have line : byteSize "\n;\n".toList = 3 ∧ byteSize "\n;".toList = 2 := ⟨rfl, rfl⟩
  have first : Position.start.offset = 0 := rfl
  rw [stop, texts.startAt_moved hi, Position.shiftedBy]
  simp only [Position.afterAll_offset, String.toList_append, byteSize_append, line, first]
  omega

/-- The later one of the end of a token and the start of another one. -/
theorem later_moved (hi : i ≤ texts.back.length) (hj : j ≤ texts.back.length) :
    (texts.secondSheet.stopAt j).later (texts.secondSheet.startAt i) =
      ((texts.second.sheet.stopAt j).later (texts.second.sheet.startAt i)).shiftedBy
        (a ++ "\n;\n").toList := by
  cases j with
  | zero =>
    rw [Position.later_eq_right (texts.stopAt_zero_lt hi), texts.second.later_eq hi hj,
      if_neg (Nat.not_lt_zero i), texts.startAt_moved hi]
  | succ j => rw [texts.stopAt_moved hj, texts.startAt_moved hi, Position.later_shiftedBy]

/-- What is cut out of the second text is cut out of the joined one. -/
theorem written_moved (lt : i < j) (within : j ≤ texts.back.length) :
    texts.second.sheet.written i j = texts.secondSheet.written i j := by
  obtain ⟨written, slice, -⟩ := texts.second.sliced lt within
  have inside := sliceBytes_inside (a ++ "\n;\n").toList [] slice
  obtain ⟨j, rfl⟩ := Nat.exists_eq_succ_of_ne_zero (by omega : j ≠ 0)
  have start := congrArg Position.offset (texts.startAt_moved (by omega : i ≤ texts.back.length))
  have stop := congrArg Position.offset (texts.stopAt_moved within)
  have same : sliceBytes texts.secondSheet.text (texts.secondSheet.startAt i).offset
      (texts.secondSheet.stopAt (j + 1)).offset = some written := by
    rw [start, stop, Position.shiftedBy, Position.shiftedBy, Nat.add_comm, Nat.add_comm _ (byteSize _)]
    rw [List.append_nil, ← String.toList_append] at inside
    exact inside
  rw [Sheet.written, Sheet.written, same]
  exact congrArg (fun piece => String.ofList (Option.getD piece [])) slice

/-- The second text behind the first one faces the second text alone. -/
def facingSecond (count : Nat) : Facing (.behind (a ++ "\n;\n") count) where
  left := texts.secondSheet
  right := texts.second.sheet
  exact := False
  tokens := likes_symm (texts.likes.imp fun _ _ moved => moved.toLike)
  isEof := texts.whole.eof_of_ok
  closing := .inl texts.ending.toLike.symm
  start _ hi := texts.startAt_moved (texts.length_moved ▸ hi)
  stop _ hi _ hj := texts.later_moved (texts.length_moved ▸ hi) (texts.length_moved ▸ hj)
  written _ _ _ _ written := texts.written_moved written.encloses.lt.1 (texts.length_moved ▸ written.within)

end

section

variable {rules : LexicalRules} {a b : String} {texts : Joined rules a b} {f : Features} {limit : Nat}

/-- Behind the semicolon the joined text goes on as the second text begins. -/
theorem abreast_second {s : Tape} (here : s.At texts.firstSheet texts.front.length) :
    s.bump.2.Abreast (texts.facingSecond s.params) 0
      (.ofText b.toList texts.back (.ok texts.backEof)) := by
  have left : s.tokens = texts.semicolon :: texts.moved := by
    rw [here.tokens, show texts.firstSheet.tokens = texts.front from rfl, List.drop_length]
    rfl
  refine ⟨?_, texts.second.at_start, ?_, nofun⟩
  · refine ⟨⟨?_, ?_, ?_⟩, Nat.zero_le _, ?_, ?_⟩ <;> simp only [Tape.bump, left]
    · exact here.text
    · exact here.stop
    · exact here.cancelAfter
    · exact (List.append_nil _).symm
    · rfl
  · rw [Tape.bump_params]
    exact (Nat.zero_add _).symm

/-- The statements of the second text are added to those of the first one. -/
theorem runs_second {x y : List Statement} {s after : Tape}
    (here : s.At texts.firstSheet texts.front.length)
    (runs : Runs (fun x => (scriptStep f x).read (sqlLevels f limit)) []
      (.ofText b.toList texts.back (.ok texts.backEof)) y after) :
    ∃ moved after', Runs (fun x => (scriptStep f x).read (sqlLevels f limit)) x s.bump.2
        (moved ++ x) after' ∧
      List.Forall₂ (Statement.Like (.behind (a ++ "\n;\n") s.params)) moved y ∧
      (after.tokens = [] → after'.tokens = []) ∧ after'.stop = .ok texts.eof := by
  have forward (x : List Statement) (s : Tape) :
      s.Leads ((scriptStep f x).read (sqlLevels f limit) s).2 :=
    Rule.read_leads _ (sqlLevels_forward f limit) s
  have closed : (texts.facingSecond s.params).Closed := texts.ending.toLike.symm
  have mirrors : Mirrors (texts.facingSecond s.params) (sqlLevels f limit) 0
      (loop (scriptStep f) x) (loop (scriptStep f) []) fun _ v v' => ∃ moved, v = moved ++ x ∧
        List.Forall₂ (Statement.Like (.behind (a ++ "\n;\n") s.params)) moved v' := by
    refine Mirrors.loop ⟨[], rfl, .nil⟩ fun _ _ _ holds => scriptStep_mirrors closed ?_ holds
    rintro st st' _ _ like ⟨moved, rfl, likes⟩
    exact ⟨st :: moved, rfl, .cons like likes⟩
  have echoes := mirrors _ _ (abreast_second here)
  have read : (loop (scriptStep f) []).read (sqlLevels f limit)
      (.ofText b.toList texts.back (.ok texts.backEof)) = (.ok y, after) :=
    runs.iterate forward (Tape.ahead_le _)
  rw [read] at echoes
  generalize again : (loop (scriptStep f) x).read (sqlLevels f limit) s.bump.2 = reading at echoes
  cases echoes with
  | @ok k _ _ after' _ beside holds =>
    obtain ⟨moved, rfl, likes⟩ := holds
    refine ⟨moved, after', runs_of_iterate forward (Tape.ahead_le _) again, likes, fun empty => ?_,
      beside.left.stop⟩
    have none := beside.right.tokens.symm.trans empty
    have all := List.drop_eq_nil_iff.mp (List.append_eq_nil_iff.mp none).1
    rw [beside.left.tokens, List.append_eq_nil_iff, List.drop_eq_nil_iff]
    exact ⟨texts.length_moved ▸ all, rfl⟩

end

end Joined

section

variable {f : Features} {limit : Nat} {s after : Tape} {tokens : List Token} {t : Token} {value : Script}

/-- A script is what the steps come to that were taken from the first one of its statements on. -/
theorem runs_of_script (read : (script f).read (sqlLevels f limit) s = (.ok value, after)) :
    Runs (fun x => (scriptStep f x).read (sqlLevels f limit)) [] s value.statements.reverse after := by
  have repeats : (script f).Yields (sqlLevels f limit) s fun value after =>
      Runs (fun x => (scriptStep f x).read (sqlLevels f limit)) [] s value.statements.reverse after := by
    simp only [script_eq, yields_bind, yields_start, yields_spanFrom, yields_pure, List.reverse_reverse]
    exact fun _ _ => yields_loop (sqlLevels_forward f limit) fun _ _ runs => runs
  exact repeats value after read

theorem script_of_runs {statements : List Statement} (shown : s.peek = .ok t)
    (runs : Runs (fun x => (scriptStep f x).read (sqlLevels f limit)) [] s statements after) :
    ∃ span, (script f).read (sqlLevels f limit) s = (.ok ⟨statements.reverse, span⟩, after) := by
  obtain ⟨⟨_, span⟩, _, read, rfl, rfl⟩ : (script f).Succeeds (sqlLevels f limit) s
      fun value after' => value.statements = statements.reverse ∧ after' = after := by
    rw [script_eq, succeeds_bind, succeeds_start shown, succeeds_bind]
    refine succeeds_loop (sqlLevels_forward f limit) ⟨statements, after, runs, ?_⟩
    simp only [succeeds_bind, succeeds_spanFrom, succeeds_pure]
    exact ⟨trivial, trivial⟩
  exact ⟨span, read⟩

/-- Behind a script as many placeholders were counted as there are in it. -/
theorem script_params (along : s.Along tokens)
    (read : (script f).read (sqlLevels f limit) s = (.ok value, after)) :
    after.params = s.params + (Node.script value).placeholders.length := by
  obtain ⟨used, row, -⟩ := script_lays along value after read
  obtain ⟨-, pairwise⟩ := row.laid.spans (along.ordered_used row.moves)
  obtain ⟨marks, perm, -, count, -⟩ := row.counted.placeholders pairwise
  have parts : (Node.script value).placeholders =
      (value.statements.map Node.ofStatement).flatMap Node.placeholders := by
    rw [Node.placeholders_eq]
    simp [Node.placeholder?, Node.parts, Node.fields]
  rw [count, perm.length_eq, parts]

end

/-- A text that was parsed has no lexical error. -/
theorem Dialect.lexes_of_parse {d : Dialect} {kind : ModelKind} {text : String} {m : Model}
    (parsed : d.parse kind text = .ok m) :
    ∃ tokens eof, Lexes d.lexical (.ofText text.toList) tokens (.ok eof) := by
  obtain ⟨used, rest, consumed⟩ := d.consumed parsed
  obtain ⟨tokens, eof, -, lexes⟩ := lexes_of_tokenize consumed.tokenized
  exact ⟨tokens, eof, lexes⟩

/-- A script is read from the tokens of its text, and none of them is left. -/
theorem Dialect.script_read {d : Dialect} {text : String} {tokens : List Token} {eof : Token}
    {value : Script} (scripts : d.supports .script)
    (lexes : Lexes d.lexical (.ofText text.toList) tokens (.ok eof))
    (parsed : d.parse .script text = .ok (.script value)) :
    ∃ after : Tape, after.tokens = [] ∧ (script d.features).read (sqlLevels d.features maxNesting)
      (.ofText text.toList tokens (.ok eof)) = (.ok value, after) := by
  obtain ⟨after, read, -⟩ := (Dialect.parse_iff scripts lexes).mp parsed
  obtain ⟨script, inner, same⟩ := read_map_iff.mp read
  cases same
  exact ⟨after, (script_ends lexes.along value after inner).1, inner⟩

/-- The tokens of a script close what they open. -/
theorem script_nested {f : Features} {limit : Nat} {tokens : List Token} {s after : Tape} {value : Script}
    (along : s.Along tokens) (read : (script f).read (sqlLevels f limit) s = (.ok value, after))
    (empty : after.tokens = []) : Nested s.tokens := by
  obtain ⟨used, moves, closes⟩ := script_nests (callsNest f tokens limit) s along value after read
  rw [moves.tokens, empty, List.append_nil]
  exact closes

/-- Two texts with a semicolon on a line between them have the statements of both; those of the second one
stand further on, and their placeholders have greater numbers by as many as there are in the first one. -/
theorem Dialect.parse_joined {d : Dialect} (builtin : d ∈ Dialect.builtin) {a b : String}
    {first second : Script} (parsed : d.parse .script a = .ok (.script first))
    (parsed' : d.parse .script b = .ok (.script second)) :
    ∃ moved span,
      d.parse .script (a ++ "\n;\n" ++ b) = .ok (.script ⟨first.statements ++ moved, span⟩) ∧
      List.Forall₂ (Statement.Like
          (.behind (a ++ "\n;\n") (Node.script first).placeholders.length))
        moved second.statements := by
  obtain ⟨-, scripts, -⟩ := Dialect.builtin_supports builtin
  obtain ⟨texts⟩ := joined_exists (Dialect.standard_of_builtin builtin) (Dialect.lineSafe_of_builtin builtin)
    (Dialect.lexes_of_parse parsed).choose_spec.choose_spec
    (Dialect.lexes_of_parse parsed').choose_spec.choose_spec
  obtain ⟨mid, empty, read⟩ := Dialect.script_read scripts texts.first parsed
  obtain ⟨after, empty', read'⟩ := Dialect.script_read scripts texts.second parsed'
  have nested : Nested texts.front := script_nested texts.first.along read empty
  have start : (Tape.ofText a.toList texts.front (.ok texts.frontEof)).Abreast (texts.facing nested) 0
      (.ofText (a ++ "\n;\n" ++ b).toList (texts.front ++ texts.semicolon :: texts.moved)
        (.ok texts.eof)) :=
    ⟨texts.first.at_start, ⟨⟨rfl, rfl, rfl⟩, Nat.zero_le _, rfl, rfl⟩, rfl, nofun⟩
  obtain ⟨statements, mid', whole, ended, joins⟩ := Joined.runs_first (runs_of_script read) start
  obtain ⟨moved, after', runs, likes, done, stop⟩ :=
    Joined.runs_second (x := statements ++ []) ended.right (runs_of_script read')
  obtain ⟨span, joined⟩ := script_of_runs start.right.peek (joins [] _ after' runs)
  have count : mid'.params = (Node.script first).placeholders.length :=
    ended.params.symm.trans ((script_params texts.first.along read).trans (Nat.zero_add _))
  rw [List.append_nil] at whole
  rw [count] at likes
  refine ⟨moved.reverse, span, (Dialect.parse_iff scripts texts.whole).mpr ⟨after', ?_, ⟨_, stop⟩,
    .inl (done empty')⟩, ?_⟩
  · refine read_map_iff.mpr ⟨_, joined, ?_⟩
    rw [List.append_nil, List.reverse_append, ← whole, List.reverse_reverse]
  · exact List.reverse_reverse second.statements ▸ List.rel_reverse likes

/-- The script of one query for one placeholder. -/
def oneMark : Script :=
  let mark : Expr := ⟨.parameter none 1, ⟨⟨7, 1, 8⟩, ⟨8, 1, 9⟩⟩⟩
  let whole : Span := ⟨⟨0, 1, 1⟩, ⟨8, 1, 9⟩⟩
  ⟨[.select ⟨false, [⟨mark, none, mark.span⟩], [], none, [], none, [], none, whole⟩], whole⟩

/-- The first text ends in a comment, which the line closes. -/
theorem Dialect.sqlite_marks_joined : Dialect.sqlite ∈ Dialect.builtin ∧
    Dialect.sqlite.parse .script "SELECT ? --" = .ok (.script oneMark) ∧
    Dialect.sqlite.parse .script "SELECT ?" = .ok (.script oneMark) ∧
    ∃ moved span,
      Dialect.sqlite.parse .script ("SELECT ? --" ++ "\n;\n" ++ "SELECT ?") =
        .ok (.script ⟨oneMark.statements ++ moved, span⟩) ∧
      List.Forall₂ (Statement.Like
          (.behind ("SELECT ? --" ++ "\n;\n") (Node.script oneMark).placeholders.length))
        moved oneMark.statements := by
  have builtin : Dialect.sqlite ∈ Dialect.builtin := by decide
  let tokens : List Token :=
    [⟨.keyword .SELECT, "SELECT", ⟨⟨0, 1, 1⟩, ⟨6, 1, 7⟩⟩⟩, ⟨.question, "?", ⟨⟨7, 1, 8⟩, ⟨8, 1, 9⟩⟩⟩]
  have lexed : tokenize Dialect.sqlite.lexical "SELECT ? --" =
      .ok (tokens ++ [⟨.eof, "", ⟨⟨11, 1, 12⟩, ⟨11, 1, 12⟩⟩⟩]) := rfl
  have lexed' : tokenize Dialect.sqlite.lexical "SELECT ?" =
      .ok (tokens ++ [⟨.eof, "", ⟨⟨8, 1, 9⟩, ⟨8, 1, 9⟩⟩⟩]) := rfl
  have parsed : Dialect.sqlite.parse .script "SELECT ? --" = .ok (.script oneMark) :=
    (Dialect.parse_eq_read rfl (.of_tokenize lexed)).trans rfl
  have parsed' : Dialect.sqlite.parse .script "SELECT ?" = .ok (.script oneMark) :=
    (Dialect.parse_eq_read rfl (.of_tokenize lexed')).trans rfl
  exact ⟨builtin, parsed, parsed', Dialect.parse_joined builtin parsed parsed'⟩

end SqlTree
