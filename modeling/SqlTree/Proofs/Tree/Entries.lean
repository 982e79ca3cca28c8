import SqlTree.Proofs.Lockstep.Layout
import SqlTree.Proofs.Reading.Awaits
import SqlTree.Proofs.Tree.Consumed

namespace SqlTree

open Rule SqlRule

/-- A statement as a model of its own kind. -/
def Statement.model : Statement → Model
  | .select s => .select s
  | .insert s => .insert s
  | .update s => .update s
  | .delete s => .delete s
  | .createTable s => .createTable s
  | .pragma s => .pragma s

/-- The kinds of models that are statements of one kind. -/
def ModelKind.statements : List ModelKind := [.select, .insert, .update, .delete, .createTable, .pragma]

section

variable {f : Features} {levels : List (TapeLevel Symbol)} {limit : Nat} {s after : Tape}

/-- Each statement begins with a word of its own. -/
theorem selectStatement_awaits : selectStatement.Awaits (sqlLevels f (limit + 1)) [.SELECT] :=
  awaits_call (.start fun _ => (awaits_expectKeyword .SELECT).bind _)

theorem insertStatement_awaits : (insertStatement f).Awaits levels [.INSERT] :=
  .start fun _ => (awaits_expectKeyword .INSERT).bind _

theorem updateStatement_awaits : (updateStatement f).Awaits levels [.UPDATE] :=
  .start fun _ => (awaits_expectKeyword .UPDATE).bind _

theorem deleteStatement_awaits : (deleteStatement f).Awaits levels [.DELETE] :=
  .start fun _ => (awaits_expectKeyword .DELETE).bind _

theorem createTableStatement_awaits : (createTableStatement f).Awaits levels [.CREATE] :=
  .start fun _ => (awaits_expectKeyword .CREATE).bind _

theorem pragmaStatement_awaits : pragmaStatement.Awaits levels [.PRAGMA] :=
  .start fun _ => (awaits_expectKeyword .PRAGMA).bind _

/-- The alternatives of a statement that every dialect has, with the words that they wait for. -/
def standardAlternatives (f : Features) : List (SqlRule Statement × List Keyword) :=
  [(selectAsStatement, [.SELECT]), (insertAsStatement f, [.INSERT]), (updateAsStatement f, [.UPDATE]),
    (deleteAsStatement f, [.DELETE]), (createTableAsStatement f, [.CREATE])]

/-- The alternatives of a statement wait for their words. -/
theorem standardAlternatives_await : ∀ a ∈ standardAlternatives f,
    a.1.Awaits (sqlLevels f (limit + 1)) a.2 := by
  simp only [standardAlternatives, List.forall_mem_cons, List.not_mem_nil, false_implies, implies_true,
    and_true]
  exact ⟨selectStatement_awaits.bind _, insertStatement_awaits.bind _, updateStatement_awaits.bind _,
    deleteStatement_awaits.bind _, createTableStatement_awaits.bind _⟩

/-- No two alternatives of a statement wait for the same word. -/
theorem standardAlternatives_apart : ((standardAlternatives f).map Prod.snd).Pairwise Apart := by
  simp only [standardAlternatives, List.map_cons, List.map_nil]
  decide

/-- The alternatives of a statement in a dialect with pragmas. -/
def pragmaAlternatives (f : Features) : List (SqlRule Statement × List Keyword) :=
  [(standardStatement f, [.SELECT, .INSERT, .UPDATE, .DELETE, .CREATE]), (pragmaAsStatement, [.PRAGMA])]

theorem standardStatement_awaits : (standardStatement f).Awaits (sqlLevels f (limit + 1))
    [.SELECT, .INSERT, .UPDATE, .DELETE, .CREATE] :=
  awaits_choice (sqlLevels_forward f (limit + 1)) standardAlternatives_await

theorem pragmaAlternatives_await : ∀ a ∈ pragmaAlternatives f,
    a.1.Awaits (sqlLevels f (limit + 1)) a.2 := by
  simp only [pragmaAlternatives, List.forall_mem_cons, List.not_mem_nil, false_implies, implies_true,
    and_true]
  exact ⟨standardStatement_awaits, pragmaStatement_awaits.bind _⟩

theorem pragmaAlternatives_apart : ((pragmaAlternatives f).map Prod.snd).Pairwise Apart := by
  simp only [pragmaAlternatives, List.map_cons, List.map_nil]
  decide

/-- A statement waits for the word of one of its kinds. -/
theorem statement_awaits : (statement f).Awaits (sqlLevels f (limit + 1))
    [.SELECT, .INSERT, .UPDATE, .DELETE, .CREATE, .PRAGMA] := by
  unfold statement
  split
  · exact awaits_choice (sqlLevels_forward f (limit + 1)) pragmaAlternatives_await
  · exact standardStatement_awaits.mono (List.subset_append_left _ [Keyword.PRAGMA])

/-- What a rule gives under another name. -/
theorem Rule.read_map_iff {α β : Type} {rule : SqlRule α} {g : α → β} {value : β} :
    (do return g (← rule) : SqlRule β).read levels s = (.ok value, after) ↔
      ∃ a, rule.read levels s = (.ok a, after) ∧ g a = value := by
  change (rule.bind fun a => Rule.pure (g a)).read levels s = _ ↔ _
  simp only [Rule.read]
  split
  · rename_i a mid eq
    simp only [eq, Prod.mk.injEq, Except.ok.injEq, and_assoc, exists_eq_left']
    exact and_comm
  · rename_i failure mid eq
    simp [eq]

/-- A statement that every dialect has is read where the rule for its own kind reads it. -/
theorem standardStatement_read_iff (calm : s.cancelAfter = none) {st : Statement} :
    (standardStatement f).read (sqlLevels f (limit + 1)) s = (.ok st, after) ↔
      st.kind ≠ .pragma ∧ (entry f st.kind).read (sqlLevels f (limit + 1)) s = (.ok st.model, after) := by
  refine (choiceAfter_read_iff (sqlLevels_forward f (limit + 1)) standardAlternatives_await
    standardAlternatives_apart calm none).trans ?_
  simp only [standardAlternatives, List.mem_cons, List.not_mem_nil, or_false, exists_eq_or_imp,
    exists_eq_left, selectAsStatement, insertAsStatement, updateAsStatement, deleteAsStatement,
    createTableAsStatement, read_map_iff]
  cases st <;> simp [entry, read_map_iff, Statement.kind, Statement.model]

/-- A statement is read where a statement of its own kind is. -/
theorem statement_read_iff (calm : s.cancelAfter = none) {st : Statement} :
    (statement f).read (sqlLevels f (limit + 1)) s = (.ok st, after) ↔
      (st.kind = .pragma → f.pragma = true) ∧
        (entry f st.kind).read (sqlLevels f (limit + 1)) s = (.ok st.model, after) := by
  unfold statement
  split
  · rename_i pragma
    refine (choiceAfter_read_iff (sqlLevels_forward f (limit + 1)) pragmaAlternatives_await
      pragmaAlternatives_apart calm none).trans ?_
    simp only [pragmaAlternatives, List.mem_cons, List.not_mem_nil, or_false, exists_eq_or_imp,
      exists_eq_left, standardStatement_read_iff calm, pragmaAsStatement, read_map_iff]
    cases st <;> simp [pragma, entry, read_map_iff, Statement.kind, Statement.model]
  · rename_i pragma
    rw [standardStatement_read_iff calm]
    cases st <;> simp [pragma, Statement.kind]

/-- An attempt gives what its rule gives, where nobody asks to leave. -/
theorem attempt_read_iff {α : Type} {rule : SqlRule α} {value : α} (calm : s.cancelAfter = none) :
    (attempt rule).read levels s = (.ok value, after) ↔ rule.read levels s = (.ok value, after) := by
  simp only [attempt, Rule.read, Tape.checkCancelled_of_none calm]
  split <;> simp_all

/-- A model is complete where a semicolon at most is left of the text. -/
theorem complete_succeeds {α : Type} {rule : SqlRule α} {value : α} {mid : Tape} {tokens : List Token}
    (calm : s.cancelAfter = none) (along : mid.Along tokens)
    (read : rule.read levels s = (.ok value, mid)) (near : mid.NearEnd) :
    (complete rule).Succeeds levels s fun v _ => v = value := by
  obtain ⟨⟨eof, stop⟩, left⟩ := near
  have isEof : eof.kind = .eof := by simpa [Token.isEof] using along.eof eof stop
  refine succeeds_bind.mpr ⟨value, mid, (attempt_read_iff calm).mpr read, ?_⟩
  rcases left with empty | ⟨t, semicolon, one⟩
  · have shown : mid.peek = .ok eof := by rw [Tape.peek, empty, stop]; rfl
    simp only [eat, succeeds_bind, succeeds_check shown, succeeds_ite, isEof, succeeds_pure]
    exact trivial
  · have shown : mid.peek = .ok t := by rw [Tape.peek, one]
    have shown' : mid.bump.2.peek = .ok eof := by simp [Tape.peek, Tape.bump, one, stop]; rfl
    have bumped : (bump : SqlRule Token).read levels mid = (.ok t, mid.bump.2) := by
      simp [Rule.read, Tape.bump, one]
    simp only [eat, succeeds_bind, succeeds_check shown, succeeds_ite, semicolon]
    refine ⟨t, _, bumped, ?_⟩
    simp only [succeeds_pure, succeeds_check shown', isEof]
    exact trivial

end

section

variable {f : Features} {levels : List (TapeLevel Symbol)} {s mid after : Tape} {t : Token}

theorem semicolons_read (shown : s.peek = .ok t) (other : t.kind.sameKind .semicolon = false) :
    semicolons.read levels s = (.ok (), s) := by
  obtain ⟨_, _, step, rfl, rfl⟩ : (do if ← eat .semicolon then return some () else return none :
      SqlRule (Option Unit)).Succeeds levels s fun next after => next = none ∧ after = s := by
    simp only [eat, succeeds_bind, succeeds_check shown, succeeds_ite, other, succeeds_pure]
    exact ⟨trivial, trivial⟩
  exact Tape.iterate_none step

/-- At the end of a text no statement is left. -/
theorem scriptStep_ended (shown : s.peek = .ok t) (isEof : t.kind = .eof) (statements : List Statement) :
    (scriptStep f statements).read levels s = (.ok none, s) := by
  obtain ⟨_, _, step, rfl, rfl⟩ : (scriptStep f statements).Succeeds levels s
      fun next after => next = none ∧ after = s := by
    refine succeeds_bind.mpr ⟨(), s, semicolons_read shown (by rw [isEof]; rfl), ?_⟩
    simp only [succeeds_bind, succeeds_check shown, isEof, succeeds_ite, succeeds_pure]
    exact ⟨trivial, trivial⟩
  exact step

/-- The tape has come to the end of its text. -/
def Tape.Done (s : Tape) : Prop := s.tokens = [] ∧ ∃ eof, s.stop = .ok eof

/-- At the end of the text, the end of the text is shown. -/
theorem Tape.Done.peek {tokens : List Token} (done : s.Done) (along : s.Along tokens) :
    ∃ eof, s.peek = .ok eof ∧ eof.kind = .eof := by
  obtain ⟨empty, eof, stop⟩ := done
  refine ⟨eof, ?_, by simpa [Token.isEof] using along.eof eof stop⟩
  rw [Tape.peek, empty, stop]
  rfl

/-- A statement is read with the semicolon behind it. -/
theorem scriptStep_closed {tokens : List Token} {st : Statement} {u : Token} (along : mid.Along tokens)
    (shown : s.peek = .ok t) (other : t.kind.sameKind .semicolon = false)
    (notEof : t.kind.sameKind .eof = false)
    (read : (attempt (statement f)).read levels s = (.ok st, mid)) (shown' : mid.peek = .ok u)
    (semicolon : u.kind = .semicolon) (statements : List Statement) :
    (scriptStep f statements).read levels s = (.ok (some (st :: statements)), mid.bump.2) := by
  obtain ⟨bumped, -⟩ := along.bump shown' (by rw [Token.isEof, semicolon]; rfl)
  have consumed : (bump : SqlRule Token).read levels mid = (.ok u, mid.bump.2) := Prod.ext bumped rfl
  obtain ⟨_, _, step, rfl, rfl⟩ : (scriptStep f statements).Succeeds levels s
      fun next after => next = some (st :: statements) ∧ after = mid.bump.2 := by
    refine succeeds_bind.mpr ⟨(), s, semicolons_read shown other, ?_⟩
    simp only [succeeds_bind, succeeds_check shown, notEof, succeeds_ite, Bool.false_eq_true, if_false]
    refine ⟨st, mid, read, ?_⟩
    simp only [succeeds_check shown', semicolon, expect, succeeds_bind, succeeds_ite, succeeds_pure]
    exact ⟨u, _, consumed, trivial, rfl⟩
  exact step

/-- A statement with nothing but a semicolon behind it is the last one of a script. -/
theorem scriptStep_last {tokens : List Token} {st : Statement} (calm : s.cancelAfter = none)
    (along : mid.Along tokens) (shown : s.peek = .ok t) (other : t.kind.sameKind .semicolon = false)
    (notEof : t.kind.sameKind .eof = false) (read : (statement f).read levels s = (.ok st, mid))
    (near : mid.NearEnd) (statements : List Statement) :
    (scriptStep f statements).Succeeds levels s fun next after =>
      next = some (st :: statements) ∧ after.Done ∧ ∃ more, mid.Moves more after := by
  have tried := (attempt_read_iff calm).mpr read
  obtain ⟨⟨eof, stop⟩, left⟩ := near
  rcases left with empty | ⟨u, semicolon, one⟩
  · have done : mid.Done := ⟨empty, eof, stop⟩
    obtain ⟨eof, shown', isEof⟩ := done.peek along
    refine succeeds_bind.mpr ⟨(), s, semicolons_read shown other, ?_⟩
    simp only [succeeds_bind, succeeds_check shown, notEof, succeeds_ite, Bool.false_eq_true, if_false]
    refine ⟨st, mid, tried, ?_⟩
    simp only [succeeds_check shown', isEof, succeeds_pure]
    exact ⟨trivial, done, [], .refl mid⟩
  · have shown' : mid.peek = .ok u := by rw [Tape.peek, one]
    obtain ⟨-, moves⟩ := along.bump shown' (by rw [Token.isEof, semicolon]; rfl)
    refine ⟨_, _, scriptStep_closed along shown other notEof tried shown' semicolon statements, rfl,
      ⟨?_, eof, moves.stop.trans stop⟩, _, moves⟩
    have split := one.symm.trans moves.tokens
    simpa using split.symm

/-- A statement is a script of one statement. -/
theorem script_of_statement {tokens : List Token} {st : Statement} {limit : Nat}
    (calm : s.cancelAfter = none) (along : s.Along tokens)
    (read : (statement f).read (sqlLevels f (limit + 1)) s = (.ok st, mid)) (near : mid.NearEnd) :
    (script f).Succeeds (sqlLevels f (limit + 1)) s fun value after =>
      value.statements = [st] ∧ after.Done := by
  obtain ⟨t, shown, k, -, spells⟩ := statement_awaits.gives s st mid read
  obtain ⟨used, nonempty, moves, -⟩ := statement_wide s along st mid read
  have word : t.kind.sameKind .semicolon = false ∧ t.kind.sameKind .eof = false := by
    rcases t with ⟨kind, text, span⟩
    cases kind <;> first | exact ⟨rfl, rfl⟩ | cases spells
  obtain ⟨_, after, step, rfl, done, more, moves'⟩ :=
    scriptStep_last calm (along.moves moves) shown word.1 word.2 read near []
  have further : s.lastEnd.offset < after.lastEnd.offset :=
    along.lastEnd_lt (moves.trans moves') (List.append_ne_nil_of_left_ne_nil nonempty _)
  obtain ⟨eof, ended, isEof⟩ := done.peek (along.moves (moves.trans moves'))
  have runs : Runs (fun x => (scriptStep f x).read (sqlLevels f (limit + 1))) [] s [st] after :=
    .next step further (.stop (scriptStep_ended ended isEof [st]))
  rw [script_eq, succeeds_bind, succeeds_start shown, succeeds_bind]
  refine succeeds_loop (sqlLevels_forward f _) ⟨[st], after, runs, ?_⟩
  simp only [succeeds_bind, succeeds_spanFrom, succeeds_pure]
  exact ⟨rfl, done⟩

end

/-- A text is a model where the rule for the model leaves nothing but a semicolon of it. -/
theorem Dialect.parse_iff {d : Dialect} {kind : ModelKind} {text : String} {m : Model}
    {tokens : List Token} {stop : Except LexError Token} (supported : d.supports kind)
    (lexes : Lexes d.lexical (.ofText text.toList) tokens stop) :
    d.parse kind text = .ok m ↔ ∃ mid : Tape,
      (entry d.features kind).read (sqlLevels d.features maxNesting) (.ofText text.toList tokens stop) =
        (.ok m, mid) ∧ mid.NearEnd := by
  have calm : (Tape.ofText text.toList tokens stop).cancelAfter = none := rfl
  have stops : (entry d.features kind).Yields (sqlLevels d.features maxNesting)
      (.ofText text.toList tokens stop) (Stops kind (.ofText text.toList tokens stop)) :=
    entry_stops lexes.along kind
  constructor
  · intro parsed
    obtain ⟨after, read⟩ := d.read_of_parse parsed lexes
    obtain ⟨mid, tried, near⟩ := yields_reporting (complete_ends lexes.along fun value mid tried =>
      (stops value mid ((attempt_read_iff calm).mp tried)).used.imp fun _ used => used.1) m after read
    exact ⟨mid, (attempt_read_iff calm).mp tried, near⟩
  · rintro ⟨mid, read, near⟩
    obtain ⟨used, moves, -⟩ := (stops m mid read).used
    obtain ⟨value, after, whole, same⟩ := complete_succeeds calm (lexes.along.moves moves) read near
    have reported : (entry d.features kind).run.read (sqlLevels d.features maxNesting)
        (.ofText text.toList tokens stop) = (.ok m, after) := by
      simp only [run, Rule.read, whole, same]
    exact d.parse_of_read supported lexes reported

/-- Which models the built-in dialects know: statements of one kind, pragmas only where there are any,
and scripts. -/
theorem Dialect.builtin_supports {d : Dialect} (builtin : d ∈ Dialect.builtin) :
    d.supports .statement ∧ d.supports .script ∧
      ∀ kind ∈ ModelKind.statements, d.supports kind ↔ (kind = .pragma → d.features.pragma = true) := by
  simp only [Dialect.builtin, List.mem_cons, List.not_mem_nil, or_false] at builtin
  rcases builtin with rfl | rfl | rfl | rfl <;> decide

theorem Dialect.builtin_supports_select {d : Dialect} (builtin : d ∈ Dialect.builtin) : d.supports .select :=
  ((Dialect.builtin_supports builtin).2.2 .select (by decide)).mpr nofun

/-- A model of one kind of statements is a statement of that kind. -/
theorem exists_statement {f : Features} {kind : ModelKind} (single : kind ∈ ModelKind.statements)
    {levels : List (TapeLevel Symbol)} {s after : Tape} {m : Model}
    (read : (entry f kind).read levels s = (.ok m, after)) :
    ∃ st : Statement, st.kind = kind ∧ st.model = m := by
  simp only [ModelKind.statements, List.mem_cons, List.not_mem_nil, or_false] at single
  rcases single with rfl | rfl | rfl | rfl | rfl | rfl <;>
    obtain ⟨value, -, rfl⟩ := read_map_iff.mp read
  · exact ⟨.select value, rfl, rfl⟩
  · exact ⟨.insert value, rfl, rfl⟩
  · exact ⟨.update value, rfl, rfl⟩
  · exact ⟨.delete value, rfl, rfl⟩
  · exact ⟨.createTable value, rfl, rfl⟩
  · exact ⟨.pragma value, rfl, rfl⟩

theorem Statement.kind_mem (st : Statement) : st.kind ∈ ModelKind.statements := by
  cases st <;> simp [Statement.kind, ModelKind.statements]

/-- A text is a statement if it is a model of the kind of that statement. -/
theorem Dialect.parse_statement_iff {d : Dialect} (builtin : d ∈ Dialect.builtin) {text : String}
    {st : Statement} :
    d.parse .statement text = .ok (.statement st) ↔ d.parse st.kind text = .ok st.model := by
  obtain ⟨tokens, stop, lexes⟩ := lexes_exists d.lexical (.ofText text.toList)
  obtain ⟨statements, -, single⟩ := Dialect.builtin_supports builtin
  have same (mid : Tape) : (statement d.features).read (sqlLevels d.features maxNesting)
      (.ofText text.toList tokens stop) = (.ok st, mid) ↔
        (st.kind = .pragma → d.features.pragma = true) ∧
          (entry d.features st.kind).read (sqlLevels d.features maxNesting)
            (.ofText text.toList tokens stop) = (.ok st.model, mid) :=
    statement_read_iff rfl
  have named (mid : Tape) : (entry d.features .statement).read (sqlLevels d.features maxNesting)
      (.ofText text.toList tokens stop) = (.ok (.statement st), mid) ↔
        (statement d.features).read (sqlLevels d.features maxNesting)
          (.ofText text.toList tokens stop) = (.ok st, mid) := by
    simp [entry, read_map_iff]
  rw [Dialect.parse_iff statements lexes]
  by_cases supported : d.supports st.kind
  · rw [Dialect.parse_iff supported lexes]
    refine exists_congr fun mid => and_congr_left fun done => (named mid).trans ((same mid).trans ?_)
    exact and_iff_right ((single st.kind st.kind_mem).mp supported)
  · rw [Dialect.parse_unsupported supported]
    refine iff_of_false ?_ (by simp)
    rintro ⟨mid, inner, -⟩
    have pragma := ((same mid).mp ((named mid).mp inner)).1
    exact absurd ((single st.kind st.kind_mem).mpr pragma) supported

/-- The entry points of a built-in dialect agree: a statement is what its own kind of models gives, no
text is a model of two kinds of statements, and a statement is a script of one statement. -/
theorem Dialect.entries_agree {d : Dialect} (builtin : d ∈ Dialect.builtin) (text : String) :
    (∀ st : Statement,
      d.parse .statement text = .ok (.statement st) ↔ d.parse st.kind text = .ok st.model) ∧
    (∀ kind ∈ ModelKind.statements, ∀ kind' ∈ ModelKind.statements, ∀ m m',
      d.parse kind text = .ok m → d.parse kind' text = .ok m' → kind = kind') ∧
    (∀ m, d.parse .statement text = .ok m → ∃ st span, m = .statement st ∧
      d.parse .script text = .ok (.script ⟨[st], span⟩)) := by
  obtain ⟨tokens, stop, lexes⟩ := lexes_exists d.lexical (.ofText text.toList)
  obtain ⟨statements, scripts, -⟩ := Dialect.builtin_supports builtin
  have whole {kind : ModelKind} (single : kind ∈ ModelKind.statements) {m : Model}
      (parsed : d.parse kind text = .ok m) :
      ∃ st : Statement, st.kind = kind ∧ d.parse .statement text = .ok (.statement st) := by
    have supported : d.supports kind := by
      by_contra missing
      rw [Dialect.parse_unsupported missing] at parsed
      cases parsed
    obtain ⟨mid, read, -⟩ := (Dialect.parse_iff supported lexes).mp parsed
    obtain ⟨st, rfl, rfl⟩ := exists_statement single read
    exact ⟨st, rfl, (Dialect.parse_statement_iff builtin).mpr parsed⟩
  refine ⟨fun st => Dialect.parse_statement_iff builtin, ?_, ?_⟩
  · intro kind single kind' single' m m' parsed parsed'
    obtain ⟨st, rfl, eq⟩ := whole single parsed
    obtain ⟨st', rfl, eq'⟩ := whole single' parsed'
    obtain rfl : st = st' := by
      have both := Except.ok.inj (eq.symm.trans eq')
      injection both
    rfl
  · intro m parsed
    obtain ⟨mid, read, near⟩ := (Dialect.parse_iff statements lexes).mp parsed
    obtain ⟨st, inner, rfl⟩ := read_map_iff.mp read
    obtain ⟨⟨_, span⟩, after, read', rfl, done⟩ :=
      (script_of_statement rfl lexes.along inner near :
        (script d.features).Succeeds (sqlLevels d.features maxNesting) _ _)
    refine ⟨st, span, rfl, (Dialect.parse_iff scripts lexes).mpr ⟨after, ?_, done.2, .inl done.1⟩⟩
    exact read_map_iff.mpr ⟨_, read', rfl⟩

/-- A pragma without a value. -/
theorem Dialect.sqlite_entries_agree : Dialect.sqlite ∈ Dialect.builtin ∧
    (∀ st : Statement, Dialect.sqlite.parse .statement "PRAGMA a;" = .ok (.statement st) ↔
      Dialect.sqlite.parse st.kind "PRAGMA a;" = .ok st.model) ∧
    (∀ kind ∈ ModelKind.statements, ∀ kind' ∈ ModelKind.statements, ∀ m m',
      Dialect.sqlite.parse kind "PRAGMA a;" = .ok m → Dialect.sqlite.parse kind' "PRAGMA a;" = .ok m' →
        kind = kind') ∧
    (∀ m, Dialect.sqlite.parse .statement "PRAGMA a;" = .ok m → ∃ st span, m = .statement st ∧
      Dialect.sqlite.parse .script "PRAGMA a;" = .ok (.script ⟨[st], span⟩)) :=
  have builtin : Dialect.sqlite ∈ Dialect.builtin := by decide
  ⟨builtin, Dialect.entries_agree builtin "PRAGMA a;"⟩

end SqlTree
