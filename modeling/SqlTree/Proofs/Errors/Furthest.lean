import SqlTree.Proofs.Errors.Anchors
import SqlTree.Proofs.Errors.Owns
import SqlTree.Proofs.Lexing.Reserved
import SqlTree.Proofs.Reading.Nesting
import SqlTree.Proofs.Reading.Owed

namespace SqlTree

open Rule SqlRule

/-- The built-in dialects reserve the words that tell queries, forms and constraints from names, and no
word that numbers rows begins another constraint. -/
theorem Dialect.telling_of_builtin {d : Dialect} (builtin : d ∈ Dialect.builtin) :
    (∀ k ∈ tellingWords, d.lexical.keywords.reserves k = true) ∧ Numbers d.features := by
  simp only [Dialect.builtin, List.mem_cons, List.not_mem_nil, or_false] at builtin
  unfold Numbers
  rcases builtin with rfl | rfl | rfl | rfl <;> decide

/-- The tokens of a text, its end included, stand in the order of their places. -/
theorem Lexes.sorted {rules : LexicalRules} {c : Cursor} {tokens : List Token}
    {stop : Except LexError Token} (lexes : Lexes rules c tokens stop) :
    (tokens ++ stop.toOption.toList).Pairwise (fun t u => t.span.start.offset ≤ u.span.start.offset) ∧
      ∀ t ∈ tokens ++ stop.toOption.toList, c.position.offset ≤ t.span.start.offset := by
  induction lexes with
  | eof next =>
    obtain ⟨layout, text, -, -, span, -⟩ := nextToken_ok next
    simp [Except.toOption, span]
  | fault => simp [Except.toOption]
  | @token c after t tokens stop next notEof _ ih =>
    obtain ⟨layout, text, -, -, span, place, -⟩ := nextToken_ok next
    have behind (u : Token) (mem : u ∈ tokens ++ stop.toOption.toList) :
        t.span.stop.offset ≤ u.span.start.offset := place ▸ ih.2 u mem
    have start : c.position.offset ≤ t.span.start.offset ∧ t.span.start.offset ≤ t.span.stop.offset := by
      simp [span]
    refine ⟨List.pairwise_cons.mpr ⟨fun u mem => ?_, ih.1⟩, List.forall_mem_cons.mpr ⟨start.1, ?_⟩⟩
    · exact Nat.le_trans start.2 (behind u mem)
    · exact fun u mem => Nat.le_trans start.1 (Nat.le_trans start.2 (behind u mem))

/-- A mismatch in a text without pragmas is reported at the furthest place that any rule on the way came
to, whatever went on from there. -/
theorem Dialect.mismatch_furthest {d : Dialect} (builtin : d ∈ Dialect.builtin) {kind : ModelKind}
    {text : String} (pragmas : d.features.allowsPragma kind = true →
      ∀ t, HasToken d.lexical text t → t.spells .PRAGMA = false) {f : Mismatch}
    (fails : (logOf maxNesting d kind text.toList).outcome.1 = .error (.mismatch f)) :
    ∀ e ∈ (logOf maxNesting d kind text.toList).log, ∀ m : Mismatch, e.EndsIn (.mismatch m) →
      m.position.offset ≤ f.position.offset := by
  obtain ⟨tokens, stop, lexes⟩ := lexes_exists d.lexical (.ofText text.toList)
  obtain ⟨reserved, numbers⟩ := Dialect.telling_of_builtin builtin
  let good (t : Token) : Prop :=
    t.Telling ∧ (d.features.allowsPragma kind = true → t.spells .PRAGMA = false)
  have fair : (Tape.ofText text.toList tokens stop).Fair good := by
    refine ⟨rfl, fun t mem => ⟨fun name k word => ?_, fun allowed => ?_⟩, lexes.sorted.1⟩
    · exact lexes.not_reserved (Dialect.standard_of_builtin builtin) (reserved k word) t mem name
    · refine pragmas allowed t ⟨tokens, stop, lexes, ?_⟩
      refine (List.mem_append.mp mem).imp_right fun last => ?_
      cases stop with
      | ok eof => rw [List.mem_singleton.mp last]
      | error => cases last
  have owns : (entry d.features kind).Owns good (sqlLevels d.features maxNesting) none :=
    entry_owns (fun _ holds => holds.1) numbers fun allowed _ holds => holds.2 allowed
  intro e mem m ends
  exact owns.run_furthest (body_owns (fun _ holds => holds.1) d.features) (tracks_ofText lexes) fair fails
    mem ends

/-- A run with its log comes to what is read from the tokens of the text. -/
theorem Dialect.logOf_eq_read {d : Dialect} (kind : ModelKind) {text : String} {tokens : List Token}
    {stop : Except LexError Token} (lexes : Lexes d.lexical (.ofText text.toList) tokens stop) :
    (logOf maxNesting d kind text.toList).outcome.1 =
      ((entry d.features kind).run.read (sqlLevels d.features maxNesting)
        (.ofText text.toList tokens stop)).1 := by
  rw [logOf, logWithin_outcome]
  exact d.eval_entry_eq kind lexes

/-- A name is missing behind a point. -/
theorem Dialect.sqlite_qualifier_furthest : Dialect.sqlite ∈ Dialect.builtin ∧
    (Dialect.sqlite.features.allowsPragma .expression = true →
      ∀ t, HasToken Dialect.sqlite.lexical "a." t → t.spells .PRAGMA = false) ∧
    ∃ f : Mismatch, (logOf maxNesting Dialect.sqlite .expression "a.".toList).outcome.1 =
        .error (.mismatch f) ∧
      ∀ e ∈ (logOf maxNesting Dialect.sqlite .expression "a.".toList).log, ∀ m : Mismatch,
        e.EndsIn (.mismatch m) → m.position.offset ≤ f.position.offset := by
  have builtin : Dialect.sqlite ∈ Dialect.builtin := by decide
  have pragmas : Dialect.sqlite.features.allowsPragma .expression = true →
      ∀ t, HasToken Dialect.sqlite.lexical "a." t → t.spells .PRAGMA = false := nofun
  let tokens : List Token :=
    [⟨.identifier "a", "a", ⟨⟨0, 1, 1⟩, ⟨1, 1, 2⟩⟩⟩, ⟨.dot, ".", ⟨⟨1, 1, 2⟩, ⟨2, 1, 3⟩⟩⟩]
  have lexed : tokenize Dialect.sqlite.lexical "a." =
      .ok (tokens ++ [⟨.eof, "", ⟨⟨2, 1, 3⟩, ⟨2, 1, 3⟩⟩⟩]) := rfl
  have fails : (logOf maxNesting Dialect.sqlite .expression "a.".toList).outcome.1 =
      .error (.mismatch ⟨⟨2, 1, 3⟩, ["identifier"], "end of input"⟩) :=
    (Dialect.logOf_eq_read _ (.of_tokenize lexed)).trans rfl
  exact ⟨builtin, pragmas, _, fails, Dialect.mismatch_furthest builtin pragmas fails⟩

set_option maxRecDepth 4096 in
/-- An operand may come further than the reserved word that stands for it. Of this value of a pragma NOT
is read as a word, and it is forgotten that a name was missing behind the point. -/
theorem Dialect.sqlite_pragma_not_furthest :
    ∃ f m : Mismatch, ∃ e ∈ (logOf maxNesting Dialect.sqlite .pragma "PRAGMA x = NOT a.".toList).log,
      (logOf maxNesting Dialect.sqlite .pragma "PRAGMA x = NOT a.".toList).outcome.1 =
        .error (.mismatch f) ∧ e.EndsIn (.mismatch m) ∧ f.position.offset < m.position.offset := by
  let tokens : List Token :=
    [⟨.keyword .PRAGMA, "PRAGMA", ⟨⟨0, 1, 1⟩, ⟨6, 1, 7⟩⟩⟩, ⟨.identifier "x", "x", ⟨⟨7, 1, 8⟩, ⟨8, 1, 9⟩⟩⟩,
      ⟨.eq, "=", ⟨⟨9, 1, 10⟩, ⟨10, 1, 11⟩⟩⟩, ⟨.keyword .NOT, "NOT", ⟨⟨11, 1, 12⟩, ⟨14, 1, 15⟩⟩⟩,
      ⟨.identifier "a", "a", ⟨⟨15, 1, 16⟩, ⟨16, 1, 17⟩⟩⟩, ⟨.dot, ".", ⟨⟨16, 1, 17⟩, ⟨17, 1, 18⟩⟩⟩]
  have lexed : tokenize Dialect.sqlite.lexical "PRAGMA x = NOT a." =
      .ok (tokens ++ [⟨.eof, "", ⟨⟨17, 1, 18⟩, ⟨17, 1, 18⟩⟩⟩]) := rfl
  have fails : (logOf maxNesting Dialect.sqlite .pragma "PRAGMA x = NOT a.".toList).outcome.1 =
      .error (.mismatch ⟨⟨15, 1, 16⟩, ["end of input"], "'a'"⟩) :=
    (Dialect.logOf_eq_read _ (.of_tokenize lexed)).trans rfl
  have further : ((logOf maxNesting Dialect.sqlite .pragma "PRAGMA x = NOT a.".toList).log.filterMap
      Event.mismatch?).any (decide <| 15 < ·.position.offset) = true := by
    decide +kernel
  obtain ⟨m, found, further⟩ := List.any_eq_true.mp further
  obtain ⟨e, mem, ends⟩ := List.mem_filterMap.mp found
  exact ⟨_, m, e, mem, fails, Event.mismatch?_eq_some.mp ends, of_decide_eq_true further⟩

end SqlTree
