import SqlTree.Proofs.Reading.Awaits
import SqlTree.Proofs.Reading.Backtracking

namespace SqlTree

/-- The same state but for what was learnt: the tokens that are remembered and the mismatch that was
put aside. -/
def State.Alike (st after : State) : Prop :=
  after = { st with scanned := after.scanned, furthest := after.furthest }

/-- The same place of the same tape but for the mismatch that was put aside. -/
def Tape.Alike (s after : Tape) : Prop := ∃ noted, after = { s with furthest := noted }

namespace Mismatch

/-- Whether another mismatch stands at the same offset. -/
def levelWith (m f : Mismatch) : Bool := f.position.offset == m.position.offset

/-- One mismatch for several that were found one after the other: it stands where the furthest of them
do, as the first of those has it, and what would have fit is what would have fit for any of those. -/
structure Sums (found : List Mismatch) (m : Mismatch) : Prop where
  furthest : ∀ f ∈ found, f.position.offset ≤ m.position.offset
  first : ∃ f, found.find? m.levelWith = some f ∧ m.position = f.position ∧ m.found = f.found
  expected : m.expected = ((found.filter m.levelWith).flatMap (·.expected)).eraseDups

/-- Adds the items of a list to another one that has each of its items once. -/
theorem pool_eraseDups (items more : List String) :
    pool items.eraseDups more = (items ++ more).eraseDups := by
  induction more generalizing items with
  | nil => rw [List.append_nil]; rfl
  | cons item more ih =>
    have step : (if items.eraseDups.contains item then items.eraseDups
        else items.eraseDups ++ [item]) = (items ++ [item]).eraseDups := by
      rw [List.eraseDups_append]
      by_cases old : item ∈ items <;> simp [List.removeAll, old, List.eraseDups_cons]
    have rest := ih (items ++ [item])
    rw [List.append_assoc, List.singleton_append] at rest
    rw [← rest, ← step]
    rfl

theorem eraseDups_of_nodup {items : List String} (nodup : items.Nodup) : items.eraseDups = items := by
  induction items with
  | nil => rfl
  | cons item items ih =>
    obtain ⟨new, nodup⟩ := List.nodup_cons.mp nodup
    have kept : items.filter (fun other => !other == item) = items :=
      List.filter_eq_self.mpr fun other mem => by
        have : other ≠ item := fun same => new (same ▸ mem)
        simpa using this
    rw [List.eraseDups_cons, kept, ih nodup]

section

variable {found : List Mismatch} {m f : Mismatch}

theorem sums_singleton (nodup : m.expected.Nodup) : Sums [m] m where
  furthest := by simp
  first := ⟨m, by simp [levelWith], rfl, rfl⟩
  expected := by simp [levelWith, eraseDups_of_nodup nodup]

/-- One more mismatch is merged with those before. -/
theorem Sums.merge (sums : Sums found m) (nodup : f.expected.Nodup) :
    Sums (found ++ [f]) (m.merge f) := by
  obtain ⟨furthest, ⟨first, head, position, text⟩, expected⟩ := sums
  rw [Mismatch.merge]
  by_cases nearer : f.position.offset < m.position.offset
  · have other : m.levelWith f = false := beq_eq_false_iff_ne.mpr (Nat.ne_of_lt nearer)
    rw [if_pos nearer]
    refine ⟨?_, ⟨first, by rw [List.find?_append, head, Option.some_or], position, text⟩, ?_⟩
    · simpa [or_imp, forall_and] using ⟨furthest, Nat.le_of_lt nearer⟩
    · rw [List.filter_append, List.filter_singleton, other, expected]
      simp
  rw [if_neg nearer]
  by_cases further : m.position.offset < f.position.offset
  · have others : ∀ g ∈ found, ¬ f.levelWith g = true := fun g mem same => by
      have here : g.position.offset = f.position.offset := beq_iff_eq.mp same
      have := furthest g mem
      omega
    have self : f.levelWith f = true := beq_self_eq_true _
    rw [if_pos further]
    refine ⟨?_, ⟨f, ?_, rfl, rfl⟩, ?_⟩
    · intro g mem
      rcases List.mem_append.mp mem with old | new
      · exact Nat.le_of_lt (Nat.lt_of_le_of_lt (furthest g old) further)
      · exact Nat.le_of_eq (by rw [List.mem_singleton.mp new])
    · rw [List.find?_append, List.find?_eq_none.mpr others, Option.none_or, List.find?_singleton, self,
        if_pos rfl]
    · rw [List.filter_append, List.filter_eq_nil_iff.mpr others, List.filter_singleton, self]
      simp [eraseDups_of_nodup nodup]
  · have same : m.levelWith f = true := beq_iff_eq.mpr (by omega)
    rw [if_neg further]
    refine ⟨?_, ⟨first, ?_, position, text⟩, ?_⟩
    · intro g mem
      rcases List.mem_append.mp mem with old | new
      · exact furthest g old
      · rw [List.mem_singleton.mp new]
        exact Nat.le_of_not_lt further
    · exact (List.find?_append ..).trans (by
        rw [show found.find? ({ m with expected := pool m.expected f.expected } : Mismatch).levelWith =
          some first from head, Option.some_or])
    · change pool m.expected f.expected = (((found ++ [f]).filter m.levelWith).flatMap _).eraseDups
      rw [List.filter_append, List.filter_singleton, same, List.flatMap_append, expected,
        pool_eraseDups]
      simp

/-- More mismatches are merged with those before, one after the other. -/
theorem Sums.foldl {more : List Mismatch} (sums : Sums found m)
    (nodup : ∀ f ∈ more, f.expected.Nodup) : Sums (found ++ more) (more.foldl Mismatch.merge m) := by
  induction more generalizing found m with
  | nil => rwa [List.append_nil]
  | cons f more ih =>
    obtain ⟨first, rest⟩ := List.forall_mem_cons.mp nodup
    have whole := ih (sums.merge first) rest
    rwa [List.append_assoc] at whole

end

/-- A mismatch together with those of the alternatives before, if there were any. -/
def behind (failure : Option Mismatch) (m : Mismatch) : Option Mismatch :=
  some ((failure.map (·.merge m)).getD m)

theorem foldl_behind (m : Mismatch) (more : List Mismatch) :
    more.foldl behind (some m) = some (more.foldl merge m) := by
  induction more generalizing m with
  | nil => rfl
  | cons f more ih => exact ih (m.merge f)

end Mismatch

namespace Rule

variable {Sym : Type → Type} {α : Type}

section

variable {body : ∀ α : Type, Sym α → Rule Sym α} {limit : Nat} {rule : Rule Sym α}
  {other : Mismatch → Rule Sym α} {s s' after : Tape} {m : Mismatch} {failure : Failure} {value : α}

/-- Where nobody asks to leave, an alternative goes back unless it fits, and its fallback is read there. -/
theorem read_orElse_calm (levels : List (TapeLevel Sym)) (calm : s.cancelAfter = none) :
    (orElse rule other).read levels s =
      (rule.read levels s).orBack s fun m => (other m).read levels := by
  simp only [read, Tape.checkCancelled, calm]
  rcases rule.read levels s with ⟨⟨_ | _ | _ | _⟩ | _, _⟩ <;> rfl

variable (limit) in
/-- A rule gives the same where another mismatch was put aside, and going back leaves no other trace
of it than the one that it puts aside itself. -/
theorem read_alike (bodies : ∀ α name, (body α name).Confined False False)
    (confined : rule.Confined False False) (calm : s.cancelAfter = none) (alike : s.Alike s') :
    Reading.Alike (rule.read (tapeLevels body limit) s) (rule.read (tapeLevels body limit) s') ∧
      s.Alike ((rule.read (tapeLevels body limit) s').2.backTo s') ∧ s'.cancelAfter = none := by
  obtain ⟨noted, rfl⟩ := alike
  generalize same : ({ s with furthest := noted } : Tape) = s'
  have calm' : s'.cancelAfter = none := same ▸ calm
  have leads := rule.read_leads (tapeLevels_forward body limit) s'
  have kept := rule.read_cancelAfter confined (tapeLevels_keepsRest bodies limit) s' (.inl calm')
  refine ⟨same ▸ rule.read_forgets confined (tapeLevels_forgets bodies limit) s noted, ?_, calm'⟩
  refine ⟨(rule.read (tapeLevels body limit) s').2.furthest, ?_⟩
  rw [Tape.backTo, leads.text, leads.stop, kept, ← same]

/-- An alternative whose rule fails by itself makes way for the others. -/
theorem read_alternative_fails (bodies : ∀ α name, (body α name).Confined False False)
    (confined : rule.Confined False False) (calm : s.cancelAfter = none) (alike : s.Alike s')
    (fails : (rule.read (tapeLevels body limit) s).1 = .error (.mismatch m)) :
    ∃ after, s.Alike after ∧ (orElse rule other).read (tapeLevels body limit) s' =
      (other m).read (tapeLevels body limit) after := by
  obtain ⟨⟨_, same⟩, back, calm'⟩ := read_alike limit bodies confined calm alike
  refine ⟨_, back, ?_⟩
  rw [read_orElse_calm _ calm', same, fails]
  rfl

/-- An alternative that fails at once does so whatever was tried before it. -/
theorem read_alternative_stops (bodies : ∀ α name, (body α name).Confined False False)
    (confined : rule.Confined False False) (calm : s.cancelAfter = none) (alike : s.Alike s')
    (stops : (rule.read (tapeLevels body limit) s).1 = .error failure)
    (terminal : failure.isTerminal = true) :
    ∃ after, s.Alike after ∧
      (orElse rule other).read (tapeLevels body limit) s' = (.error failure, after) := by
  obtain ⟨⟨_, same⟩, back, calm'⟩ := read_alike limit bodies confined calm alike
  refine ⟨_, back, ?_⟩
  rw [read_orElse_calm _ calm', same, stops]
  cases failure with
  | mismatch => cases terminal
  | _ => rfl

/-- An alternative that fits by itself fits whatever was tried before it. -/
theorem read_alternative_fits (bodies : ∀ α name, (body α name).Confined False False)
    (confined : rule.Confined False False) (calm : s.cancelAfter = none) (alike : s.Alike s')
    (fits : rule.read (tapeLevels body limit) s = (.ok value, after)) :
    ∃ after', after.Alike after' ∧
      (orElse rule other).read (tapeLevels body limit) s' = (.ok value, after') := by
  obtain ⟨⟨noted, same⟩, -, calm'⟩ := read_alike limit bodies confined calm alike
  rw [fits] at same
  refine ⟨_, ⟨noted, rfl⟩, ?_⟩
  rw [read_orElse_calm _ calm', same]
  rfl

/-- Alternatives that fail by themselves leave the choice to the others, and their mismatches to be
told if those fail as well. -/
theorem read_choiceAfter_tried (bodies : ∀ α name, (body α name).Confined False False)
    {tried rest : List (Rule Sym α)} {failures : List Mismatch}
    (confined : ∀ rule ∈ tried, rule.Confined False False) (calm : s.cancelAfter = none)
    (fail : List.Forall₂ (fun rule m => (rule.read (tapeLevels body limit) s).1 =
      .error (.mismatch m)) tried failures) (alike : s.Alike s') (before : Option Mismatch) :
    ∃ after, s.Alike after ∧
      (choiceAfter before (tried ++ rest)).read (tapeLevels body limit) s' =
        (choiceAfter (failures.foldl Mismatch.behind before) rest).read (tapeLevels body limit)
          after := by
  induction fail generalizing s' before with
  | nil => exact ⟨s', alike, rfl⟩
  | @cons rule m tried failures fails _ ih =>
    obtain ⟨first, others⟩ := List.forall_mem_cons.mp confined
    rw [List.cons_append, choiceAfter_cons]
    obtain ⟨mid, alike', step⟩ := read_alternative_fails bodies first calm alike fails
    obtain ⟨after, alike'', run⟩ := ih others alike' (Mismatch.behind before m)
    exact ⟨after, alike'', step.trans run⟩

end

end Rule

section

variable {Sym : Type → Type} {α : Type} {rules : LexicalRules} {body : ∀ α : Type, Sym α → Rule Sym α}
  {limit : Nat} {st : State} {s : Tape}

/-- Two states that stand where tapes stand that differ in the mismatch put aside differ in what was
learnt. -/
theorem Tracks.alike {after : State} {s' : Tape} (tracks : Tracks rules st s)
    (tracks' : Tracks rules after s') (alike : s.Alike s')
    (marks : after.reader.marks = st.reader.marks) (nesting : after.nesting = st.nesting) :
    st.Alike after := by
  obtain ⟨noted, rfl⟩ := alike
  obtain ⟨reader, lastEnd, params, nesting⟩ :=
    tracks.restored_of_returns tracks' ⟨rfl, rfl, rfl, rfl, rfl⟩ marks nesting
  have cancelAfter : after.cancelAfter = st.cancelAfter :=
    tracks'.cancelAfter.trans tracks.cancelAfter.symm
  rw [State.Alike, ← reader, ← lastEnd, ← params, ← nesting, ← cancelAfter]

/-- What is read of a choice is what is evaluated of it. -/
theorem Tracks.chosen {rule : Rule Sym α} {result : Except Failure α} {st' : State} {s' after : Tape}
    (tracks : Tracks rules st s) (tracks' : Tracks rules st' s')
    (marks : st'.reader.marks = st.reader.marks) (nesting : st'.nesting = st.nesting)
    (alike : s'.Alike after) (read : rule.read (Rule.tapeLevels body limit) s = (result, after)) :
    ∃ after', rule.eval rules (Rule.levels rules body limit) st = (result, after') ∧
      st'.Alike after' := by
  have agrees := tracks.agrees body limit rule
  rw [read] at agrees
  exact ⟨_, Prod.ext agrees.result rfl, tracks'.alike agrees.tracks alike
    (agrees.marks.trans marks.symm) (agrees.nesting.trans nesting.symm)⟩

/-- What a choice gives in a state, told from what each of its alternatives gives in the same state. -/
structure Chooses (rules : LexicalRules) (levels : List (Level Sym)) (st : State)
    (alternatives : List (Rule Sym α)) : Prop where
  /-- The first alternative that does not fail with a mismatch fits. -/
  fits : ∀ {tried rule others value after}, alternatives = tried ++ rule :: others →
    (∀ t ∈ tried, ∃ m, (t.eval rules levels st).1 = .error (.mismatch m)) →
    rule.eval rules levels st = (.ok value, after) →
    ∃ after', (Rule.choice alternatives).eval rules levels st = (.ok value, after') ∧
      after.Alike after'
  /-- The first alternative that does not fail with a mismatch fails so that no other may be tried. -/
  stops : ∀ {tried rule others failure}, alternatives = tried ++ rule :: others →
    (∀ t ∈ tried, ∃ m, (t.eval rules levels st).1 = .error (.mismatch m)) →
    (rule.eval rules levels st).1 = .error failure → failure.isTerminal = true →
    ∃ after', (Rule.choice alternatives).eval rules levels st = (.error failure, after') ∧
      st.Alike after'
  /-- All alternatives fail with a mismatch. -/
  fails : ∀ {failures}, List.Forall₂ (fun rule m =>
      (rule.eval rules levels st).1 = .error (.mismatch m)) alternatives failures →
    (∀ m ∈ failures, m.expected.Nodup) →
    ∃ m after', (Rule.choice alternatives).eval rules levels st = (.error (.mismatch m), after') ∧
      st.Alike after' ∧ m.Sums failures

/-- Where nobody asks to leave, a choice gives what its alternatives give by themselves. -/
theorem Tracks.chooses_of_calm {alternatives : List (Rule Sym α)} (tracks : Tracks rules st s)
    (calm : st.cancelAfter = none) (bodies : ∀ α name, (body α name).Confined False False)
    (confined : ∀ rule ∈ alternatives, rule.Confined False False) (some : alternatives ≠ []) :
    Chooses rules (Rule.levels rules body limit) st alternatives := by
  have calm' : s.cancelAfter = none := tracks.cancelAfter.symm.trans calm
  have read (rule : Rule Sym α) : (rule.read (Rule.tapeLevels body limit) s).1 =
      (rule.eval rules (Rule.levels rules body limit) st).1 :=
    (tracks.agrees body limit rule).result.symm
  have failures {tried : List (Rule Sym α)} (fail : ∀ t ∈ tried, ∃ m,
      (t.eval rules (Rule.levels rules body limit) st).1 = .error (.mismatch m)) :
      ∃ failures, List.Forall₂ (fun rule m => (rule.read (Rule.tapeLevels body limit) s).1 =
        .error (.mismatch m)) tried failures := by
    induction tried with
    | nil => exact ⟨[], .nil⟩
    | cons rule tried ih =>
      obtain ⟨⟨m, first⟩, others⟩ := List.forall_mem_cons.mp fail
      obtain ⟨failures, rest⟩ := ih others
      exact ⟨m :: failures, .cons ((read rule).trans first) rest⟩
  constructor
  · rintro tried rule others value after rfl fail fits
    obtain ⟨before, later⟩ := List.forall_mem_append.mp confined
    obtain ⟨failures, tell⟩ := failures fail
    obtain ⟨mid, alike, run⟩ := Rule.read_choiceAfter_tried bodies before calm' tell ⟨_, rfl⟩ none
    have agrees := tracks.agrees body limit rule
    rw [fits] at agrees
    obtain ⟨s', read', tracks', marks, nesting⟩ := agrees.reading_eq
    obtain ⟨last, alike', ends⟩ := Rule.read_alternative_fits bodies
      (List.forall_mem_cons.mp later).1 calm' alike read'
    rw [Rule.choiceAfter_cons] at run
    exact tracks.chosen tracks' marks nesting alike' (run.trans ends)
  · rintro tried rule others failure rfl fail stops terminal
    obtain ⟨before, later⟩ := List.forall_mem_append.mp confined
    obtain ⟨failures, tell⟩ := failures fail
    obtain ⟨mid, alike, run⟩ := Rule.read_choiceAfter_tried bodies before calm' tell ⟨_, rfl⟩ none
    obtain ⟨last, alike', ends⟩ := Rule.read_alternative_stops bodies
      (List.forall_mem_cons.mp later).1 calm' alike ((read rule).trans stops) terminal
    rw [Rule.choiceAfter_cons] at run
    exact tracks.chosen tracks rfl rfl alike' (run.trans ends)
  · intro failures fail nodup
    have tell := fail.imp fun rule m fails => (read rule).trans fails
    obtain ⟨last, alike, run⟩ := Rule.read_choiceAfter_tried bodies confined calm' tell ⟨_, rfl⟩ none
    rw [List.append_nil] at run
    cases tell with
    | nil => exact absurd rfl some
    | @cons _ m _ more =>
      obtain ⟨first, others⟩ := List.forall_mem_cons.mp nodup
      rw [List.foldl_cons, Mismatch.behind, Mismatch.foldl_behind] at run
      obtain ⟨after', eval, alike'⟩ := tracks.chosen tracks rfl rfl alike run
      exact ⟨_, after', eval, alike', (Mismatch.sums_singleton first).foldl others⟩

end

/-- In every reachable state that nobody asks to leave, a choice gives exactly what the first alternative
that does not fail with a mismatch gives there by itself, and otherwise the furthest mismatches as one. -/
theorem Reachable.chooses {rules : LexicalRules} {text : List Char} {saved : List StateMark}
    {st : State} (reach : Reachable rules text saved st) (calm : st.cancelAfter = none)
    {Sym : Type → Type} {body : ∀ α : Type, Sym α → Rule Sym α}
    (bodies : ∀ α name, (body α name).Confined False False) (limit : Nat) {α : Type}
    {alternatives : List (Rule Sym α)} (confined : ∀ rule ∈ alternatives, rule.Confined False False)
    (some : alternatives ≠ []) : Chooses rules (Rule.levels rules body limit) st alternatives := by
  obtain ⟨tokens, stop, lexes⟩ := lexes_exists rules (.ofText text)
  obtain ⟨s, tracks, -, -⟩ := reach.tracks lexes
  exact tracks.chooses_of_calm calm bodies confined some

/-- Counts a placeholder and reads SELECT, and then what is to follow it. -/
def behindSelect (next : SqlRule Token) : SqlRule Token := do
  let _ ← Rule.nextParam
  let _ ← Rule.expectKeyword .SELECT
  next

/-- Alternatives of which the first fails at once, and the others behind SELECT. -/
def selectAlternatives : List (SqlRule Token) :=
  [Rule.expectKeyword .FROM, behindSelect (Rule.expect (.identifier "")),
    behindSelect (Rule.expectKeyword .SELECT), behindSelect (Rule.failAny ["SELECT", "WHERE"])]

theorem behindSelect_confined {next : SqlRule Token} (confined : next.Confined False False) :
    (behindSelect next).Confined False False :=
  ⟨trivial, fun _ => ⟨(Rule.blames_expectKeyword .SELECT).plain.confined, fun _ => confined⟩⟩

/-- Behind SELECT three alternatives miss something, and two of them the same. -/
theorem Reachable.chooses_behind_select :
    let failures : List Mismatch := [⟨⟨0, 1, 1⟩, ["FROM"], "'SELECT'"⟩,
      ⟨⟨7, 1, 8⟩, ["identifier"], "'1'"⟩, ⟨⟨7, 1, 8⟩, ["SELECT"], "'1'"⟩,
      ⟨⟨7, 1, 8⟩, ["SELECT", "WHERE"], "'1'"⟩]
    let st := State.ofText "SELECT 1".toList
    List.Forall₂ (fun rule m => (Dialect.sqlite.eval rule st).1 = .error (.mismatch m))
        selectAlternatives failures ∧
      ∃ m after, Dialect.sqlite.eval (Rule.choice selectAlternatives) st =
        (.error (.mismatch m), after) ∧ st.Alike after ∧ m.Sums failures := by
  intro failures st
  have fail : List.Forall₂ (fun rule m => (Dialect.sqlite.eval rule st).1 = .error (.mismatch m))
      selectAlternatives failures :=
    .cons rfl (.cons rfl (.cons rfl (.cons rfl .nil)))
  have confined : ∀ rule ∈ selectAlternatives, rule.Confined False False := by
    have word (k : Keyword) : (Rule.expectKeyword k : SqlRule Token).Confined False False :=
      (Rule.blames_expectKeyword k).plain.confined
    simp only [selectAlternatives, List.forall_mem_cons, List.not_mem_nil, false_implies,
      implies_true, and_true]
    exact ⟨word .FROM, behindSelect_confined (Rule.confined_expect _),
      behindSelect_confined (word .SELECT), behindSelect_confined ⟨trivial, fun _ => trivial⟩⟩
  have reach : Reachable Dialect.sqlite.lexical "SELECT 1".toList [] st := .start
  have chooses := reach.chooses rfl (Symbol.body_confined Dialect.sqlite.features) maxNesting confined
    (List.cons_ne_nil _ _)
  exact ⟨fail, chooses.fails fail (by decide)⟩

end SqlTree
