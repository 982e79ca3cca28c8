import SqlTree.Proofs.Tree.Lays

namespace SqlTree

open Rule

section

variable {α β : Type} {f : Features} {tokens used : List Token} {nodes : List Node} {s₀ s : Tape}
  {t : Token} {top limit least : Nat}

theorem yields_ite {rule other : SqlRule α} {c : Prop} [Decidable c] {post : α → Tape → Prop} :
    (if c then rule else other).Yields (sqlLevels f limit) s post ↔
      if c then rule.Yields (sqlLevels f limit) s post
      else other.Yields (sqlLevels f limit) s post := by
  split <;> rfl

namespace Lays

/-- To consume a token carries on what was consumed. -/
theorem bump (row : Lays f tokens top s₀ used nodes s) {post : Token → Tape → Prop}
    (peek : s.peek = .ok t) (notEof : t.isEof = false)
    (next : ∀ after, Lays f tokens top s₀ (used ++ [t]) nodes after → post t after) :
    (Rule.bump : SqlRule Token).Yields (sqlLevels f limit) s post := by
  obtain ⟨shown, moves⟩ := row.along.bump peek notEof
  rw [yields_bump]
  intro u shown'
  rw [shown] at shown'
  cases shown'
  exact next _ (row.token moves (Tape.bump_params s).symm)

theorem eat (row : Lays f tokens top s₀ used nodes s) {eaten left : Tape → Prop} {kind : TokenKind}
    (notEof : kind.sameKind .eof = false)
    (found : ∀ t after, Lays f tokens top s₀ (used ++ [t]) nodes after → eaten after)
    (missing : left s) :
    (Rule.eat kind : SqlRule Bool).Yields (sqlLevels f limit) s fun found after =>
      if found = true then eaten after else left after := by
  simp only [Rule.eat, yields_bind, yields_check]
  intro t peek
  cases same : t.kind.sameKind kind with
  | true =>
    rw [if_pos rfl, yields_bind]
    refine row.bump peek (TokenKind.sameKind_eof same notEof) fun after row => ?_
    exact (yields_pure _).mpr (found t after row)
  | false => exact (yields_pure _).mpr missing

theorem eatKeyword (row : Lays f tokens top s₀ used nodes s) {eaten left : Tape → Prop} {k : Keyword}
    (found : ∀ t after, Lays f tokens top s₀ (used ++ [t]) nodes after → eaten after)
    (missing : left s) :
    (Rule.eatKeyword k : SqlRule Bool).Yields (sqlLevels f limit) s fun found after =>
      if found = true then eaten after else left after := by
  simp only [Rule.eatKeyword, yields_bind, yields_checkKeyword]
  intro t peek
  cases spells : t.spells k with
  | true =>
    rw [if_pos rfl, yields_bind]
    refine row.bump peek (Token.isEof_of_spells spells) fun after row => ?_
    exact (yields_pure _).mpr (found t after row)
  | false => exact (yields_pure _).mpr missing

/-- A token that may stand there or not, and makes no difference to what follows. -/
theorem mayEat (row : Lays f tokens top s₀ used nodes s) {post : Bool → Tape → Prop} {kind : TokenKind}
    (notEof : kind.sameKind .eof = false)
    (next : ∀ eaten after more, Lays f tokens top s₀ (used ++ more) nodes after → post eaten after) :
    (Rule.eat kind : SqlRule Bool).Yields (sqlLevels f limit) s post := by
  have either : (Rule.eat kind : SqlRule Bool).Yields (sqlLevels f limit) s fun eaten after =>
      if eaten = true then post true after else post false after :=
    row.eat notEof (fun t after row => next true after _ row)
      (next false s [] (by rwa [List.append_nil]))
  exact either.mono fun eaten after holds => by cases eaten <;> exact holds

/-- A word that may stand there or not, and makes no difference to what follows. -/
theorem mayEatKeyword (row : Lays f tokens top s₀ used nodes s) {post : Bool → Tape → Prop} {k : Keyword}
    (next : ∀ eaten after more, Lays f tokens top s₀ (used ++ more) nodes after → post eaten after) :
    (Rule.eatKeyword k : SqlRule Bool).Yields (sqlLevels f limit) s post := by
  have either : (Rule.eatKeyword k : SqlRule Bool).Yields (sqlLevels f limit) s fun eaten after =>
      if eaten = true then post true after else post false after :=
    row.eatKeyword (fun t after row => next true after _ row)
      (next false s [] (by rwa [List.append_nil]))
  exact either.mono fun eaten after holds => by cases eaten <;> exact holds

theorem expect (row : Lays f tokens top s₀ used nodes s) {post : Token → Tape → Prop} {kind : TokenKind}
    (notEof : kind.sameKind .eof = false)
    (next : ∀ t after, Lays f tokens top s₀ (used ++ [t]) nodes after → post t after) :
    (Rule.expect kind : SqlRule Token).Yields (sqlLevels f limit) s post := by
  simp only [Rule.expect, yields_bind, yields_check]
  intro t peek
  cases same : t.kind.sameKind kind with
  | true => exact row.bump peek (TokenKind.sameKind_eof same notEof) (next t)
  | false => exact (yields_failAny _).mpr trivial

theorem expectKeyword (row : Lays f tokens top s₀ used nodes s) {post : Token → Tape → Prop} {k : Keyword}
    (next : ∀ t after, Lays f tokens top s₀ (used ++ [t]) nodes after → post t after) :
    (Rule.expectKeyword k : SqlRule Token).Yields (sqlLevels f limit) s post := by
  simp only [Rule.expectKeyword, yields_bind, yields_checkKeyword]
  intro t peek
  cases spells : t.spells k with
  | true => exact row.bump peek (Token.isEof_of_spells spells) (next t)
  | false => exact (yields_failAny _).mpr trivial

/-- What a rule reads is put to what lies on the tokens. -/
theorem part (row : Lays f tokens top s₀ used nodes s) {rule : SqlRule α} {nds : α → List Node}
    (reads : Reads f tokens top limit least rule nds) {post : α → Tape → Prop}
    (next : ∀ value after more, least ≤ more.length →
      Lays f tokens top s₀ (used ++ more) (nodes ++ nds value) after → post value after) :
    rule.Yields (sqlLevels f limit) s post :=
  (reads s row.along).mono fun value after ⟨more, enough, rest⟩ =>
    next value after more enough (row.trans rest)

end Lays

/-- The node of a value, which is no placeholder itself, has the span from a start to the end of the
last token consumed, and its parts lie on the tokens consumed. -/
def Ending {α : Type} (f : Features) (tokens : List Token) (top : Nat) (s : Tape) (start : Position)
    (node : α → Node) (value : α) (after : Tape) : Prop :=
  ∃ used nodes, used ≠ [] ∧ Lays f tokens top s used nodes after ∧
    (node value).span = ⟨start, after.lastEnd.later start⟩ ∧ Arranged (node value) nodes ∧
    (node value).isParameter = false

/-- A node that ends like this fills its tokens. -/
theorem Ending.filling {node : α → Node} {value : α} {after : Tape}
    (ending : Ending f tokens top s t.span.start node value after) (peek : s.peek = .ok t) :
    Filling f tokens top s node value after := by
  obtain ⟨used, nodes, some, row, span, arranged, plain⟩ := ending
  have fits : Fits f (s.page tokens top) used (node value) nodes :=
    ⟨some, span.trans (row.span_eq some peek), arranged, row.laid⟩
  have ordered := row.start.ordered_used row.moves
  exact ⟨row.start, ⟨used, nodes, row.moves, fits⟩, fits.counted ordered plain row.counted⟩

/-- A rule that begins by asking where it starts gives a node from there on. -/
theorem Fills.intro {rule : Position → SqlRule α} {node : α → Node}
    (body : ∀ s t, s.peek = .ok t → Lays f tokens top s [] [] s →
      (rule t.span.start).Yields (sqlLevels f limit) s (Ending f tokens top s t.span.start node)) :
    Fills f tokens top limit (Rule.start >>= rule) node := by
  intro s along
  rw [yields_bind, yields_start]
  intro t peek
  exact (body s t peek (.refl _ along)).mono fun value after ending => ending.filling peek

end

section

variable {α β : Type} {f : Features} {tokens : List Token} {top limit least : Nat} {rule : SqlRule α}
  {nodes : α → List Node}

theorem reads_pure (value : α) (none : nodes value = []) :
    Reads f tokens top limit 0 (Pure.pure value : SqlRule α) nodes := by
  intro s along
  exact (yields_pure _).mpr ⟨[], Nat.zero_le _, none ▸ .refl _ along⟩

theorem Reads.map (reads : Reads f tokens top limit least rule nodes) {g : α → β} {nodes' : β → List Node}
    (same : ∀ value, nodes' (g value) = nodes value) :
    Reads f tokens top limit least (do return g (← rule)) nodes' := by
  intro s along
  simp only [yields_bind, yields_pure]
  exact (reads s along).mono fun value after ⟨used, enough, row⟩ =>
    ⟨used, enough, (same value).symm ▸ row⟩

section

/-- What is said of the way from a tape does not change when the way starts at the same place. -/
def Steady (tokens : List Token) (post : Tape → α → Tape → Prop) : Prop :=
  ∀ (s checked : Tape) value after, s.Along tokens → s.Moves [] checked →
    checked.params = s.params → post checked value after → post s value after

variable {post : Tape → α → Tape → Prop}

theorem steady_laying : Steady tokens fun s => Laying f tokens top s least nodes :=
  fun _ _ _ _ along moves same ⟨used, enough, row⟩ =>
    ⟨used, enough, along, moves.trans row.moves, moves.page_eq ▸ row.laid, same ▸ row.counted⟩

theorem steady_filling {node : α → Node} : Steady tokens fun s => Filling f tokens top s node :=
  fun _ _ _ _ along moves same ⟨_, ⟨used, nodes, moves', fits⟩, counted⟩ =>
    ⟨along, ⟨used, nodes, moves.trans moves', moves.page_eq ▸ fits⟩, same ▸ counted⟩

/-- What always holds of both alternatives always holds. -/
theorem always_orElse (steady : Steady tokens post) {first : SqlRule α} {other : Mismatch → SqlRule α}
    (always : Always f tokens limit first post) (always' : ∀ m, Always f tokens limit (other m) post) :
    Always f tokens limit (orElse first other) post := by
  have back {s checked : Tape} (along : s.Along tokens) (moves : s.Moves [] checked)
      (same : checked.params = s.params) {rule : SqlRule α}
      (always : Always f tokens limit rule post) :
      rule.Yields (sqlLevels f limit) checked (post s) :=
    (always checked (along.moves moves)).mono fun value after holds =>
      steady _ _ _ _ along moves same holds
  intro s along
  exact yields_orElse (fun checked moves same => back along moves same always)
    (fun m checked moves same => back along moves same (always' m)) (sqlLevels_forward f limit)

theorem always_fail (failure : Failure) : Always f tokens limit (fail failure : SqlRule α) post :=
  fun _ _ => (yields_fail failure).mpr trivial

theorem always_failAny (expected : List String) :
    Always f tokens limit (failAny expected : SqlRule α) post :=
  fun _ _ => (yields_failAny expected).mpr trivial

theorem always_choiceAfter (steady : Steady tokens post) {rules : List (SqlRule α)}
    (always : ∀ rule ∈ rules, Always f tokens limit rule post) (failure : Option Mismatch) :
    Always f tokens limit (choiceAfter failure rules) post := by
  induction rules generalizing failure with
  | nil =>
    cases failure with
    | none => exact always_failAny _
    | some => exact always_fail _
  | cons rule rules ih =>
    have rest := ih fun rule member => always rule (List.mem_cons_of_mem _ member)
    have first := always rule List.mem_cons_self
    cases failure with
    | none => exact always_orElse steady first fun m => rest _
    | some => exact always_orElse steady first fun m => rest _

/-- What always holds of each alternative always holds of a choice. -/
theorem always_choice (steady : Steady tokens post) {rules : List (SqlRule α)}
    (always : ∀ rule ∈ rules, Always f tokens limit rule post) :
    Always f tokens limit (choice rules) post :=
  always_choiceAfter steady always none

end

theorem Reads.attempt (reads : Reads f tokens top limit least rule nodes) :
    Reads f tokens top limit least (Rule.attempt rule) nodes :=
  always_orElse steady_laying reads fun _ => always_fail _

/-- The nodes of an optional rule lie on its tokens. -/
theorem Reads.optional (reads : Reads f tokens top limit least rule nodes) :
    Reads f tokens top limit 0 (Rule.optional rule) (fun value => value.toList.flatMap nodes) := by
  refine always_orElse steady_laying ?_ fun m => ?_
  · exact (reads.mono (Nat.zero_le _)).map fun value => by simp
  · intro s along value after read
    cases read
    exact ⟨[], Nat.zero_le _, along, .of_place rfl rfl rfl rfl, .nil, .none rfl⟩

theorem Reads.many (reads : Reads f tokens top limit least rule nodes) :
    Reads f tokens top limit 0 (Rule.many rule) (fun values => values.flatMap nodes) := by
  intro s along
  simp only [Rule.many, yields_bind, yields_pure]
  refine (yields_loop_of_kept
    (fun values after => ∃ used, Lays f tokens top s used (values.reverse.flatMap nodes) after)
    (sqlLevels_forward f limit) ⟨[], .refl _ along⟩ ?_).mono
      fun values after ⟨used, row⟩ => ⟨used, Nat.zero_le _, row⟩
  rintro values mid ⟨used, row⟩
  simp only [yields_bind, yields_pure]
  refine row.part reads.optional fun value after more _ row => ⟨used ++ more, ?_⟩
  cases value with
  | none => simpa using row
  | some value => simpa using row

theorem Reads.commaSeparated (reads : Reads f tokens top limit least rule nodes) :
    Reads f tokens top limit least (Rule.commaSeparated rule) (fun values => values.flatMap nodes) := by
  have behindComma : Reads f tokens top limit 0 (do let _ ← Rule.expect .comma; rule) nodes := by
    intro s along
    rw [yields_bind]
    refine (Lays.refl top along).expect rfl fun comma s row => ?_
    exact row.part reads fun value after more _ row => ⟨_, Nat.zero_le _, row⟩
  intro s along
  simp only [Rule.commaSeparated, yields_bind, yields_pure]
  refine (Lays.refl top along).part reads fun first s used enough row => ?_
  refine row.part behindComma.many fun rest after more _ row => ⟨_, ?_, row⟩
  simp
  omega

theorem Reads.parenthesizedList (reads : Reads f tokens top limit least rule nodes) :
    Reads f tokens top limit 2 (Rule.parenthesizedList rule) (fun values => values.flatMap nodes) := by
  intro s along
  simp only [Rule.parenthesizedList, yields_bind, yields_pure]
  refine (Lays.refl top along).expect rfl fun opening s row => ?_
  refine row.part reads.commaSeparated fun values s more _ row => ?_
  refine row.expect rfl fun closing after row => ⟨_, ?_, row⟩
  simp

theorem Reads.congr (reads : Reads f tokens top limit least rule nodes) {others : α → List Node}
    (same : ∀ value, nodes value = others value) : Reads f tokens top limit least rule others := by
  have equal : nodes = others := funext same
  rwa [← equal]

end

section

variable {α : Type} {f : Features} {tokens : List Token} {top limit least : Nat} {rule : SqlRule α}
  {node : α → Node}

theorem Reads.optionalNode (reads : Reads f tokens top limit least rule fun value => [node value]) :
    Reads f tokens top limit 0 (Rule.optional rule) (fun value => value.toList.map node) :=
  reads.optional.congr fun _ => List.map_eq_flatMap.symm

theorem Reads.manyNodes (reads : Reads f tokens top limit least rule fun value => [node value]) :
    Reads f tokens top limit 0 (Rule.many rule) (fun values => values.map node) :=
  reads.many.congr fun _ => List.map_eq_flatMap.symm

theorem Reads.commaSeparatedNodes (reads : Reads f tokens top limit least rule fun value => [node value]) :
    Reads f tokens top limit least (Rule.commaSeparated rule) (fun values => values.map node) :=
  reads.commaSeparated.congr fun _ => List.map_eq_flatMap.symm

theorem Reads.parenthesizedNodes (reads : Reads f tokens top limit least rule fun value => [node value]) :
    Reads f tokens top limit 2 (Rule.parenthesizedList rule) (fun values => values.map node) :=
  reads.parenthesizedList.congr fun _ => List.map_eq_flatMap.symm

/-- A part that stands behind a word of its own or is left out with it. -/
theorem reads_behindKeyword {β : Type} {k : Keyword} {present : SqlRule β} {absent : β}
    {nodes : β → List Node} (reads : Reads f tokens top limit least present nodes)
    (none : nodes absent = []) :
    Reads f tokens top limit 0 (do if ← eatKeyword k then present else return absent) nodes := by
  intro s along
  have row := Lays.refl (f := f) top along
  simp only [yields_bind, yields_ite, yields_pure]
  refine row.eatKeyword (fun t s row => ?_) ⟨[], Nat.zero_le _, by rw [none]; exact row⟩
  exact row.part reads fun value after more _ row => ⟨_, Nat.zero_le _, row⟩

end

end SqlTree
