import Mathlib.Data.List.Nodup
import SqlTree.Proofs.Lockstep.Layout
import SqlTree.Proofs.Reading.Blames

namespace SqlTree

open Rule SqlRule

namespace Mismatch

/-- What is expected is told without repetitions. -/
theorem pool_nodup {first second : List String} (nodup : first.Nodup) : (pool first second).Nodup := by
  induction second generalizing first with
  | nil => exact nodup
  | cons item second ih =>
    simp only [pool, List.foldl_cons] at ih ⊢
    split
    · exact ih nodup
    · rename_i new
      refine ih (nodup.append (List.nodup_singleton item) ?_)
      simpa using new

/-- Something is told to be expected. -/
theorem pool_ne_nil {first second : List String} (some : first ≠ []) : pool first second ≠ [] := by
  induction second generalizing first with
  | nil => exact some
  | cons item second ih =>
    simp only [pool, List.foldl_cons] at ih ⊢
    split
    · exact ih some
    · exact ih (List.append_ne_nil_of_left_ne_nil some _)

/-- A mismatch with a token: it names the token as it is found where it starts, and tells, without
repeating itself, what was to stand there instead. -/
structure Names (m : Mismatch) (t : Token) : Prop where
  position : m.position = t.span.start
  found : m.found = t.describe
  some : m.expected ≠ []
  nodup : m.expected.Nodup

/-- Of two mismatches, what they come to names the token that one of them names. -/
theorem Names.merge {m m' : Mismatch} {t t' : Token} (names : m.Names t) (names' : m'.Names t') :
    (m.merge m').Names t ∨ (m.merge m').Names t' := by
  unfold Mismatch.merge
  split
  · exact .inl names
  · split
    · exact .inr names'
    · exact .inl ⟨names.position, names.found, pool_ne_nil names.some, pool_nodup names.nodup⟩

end Mismatch

/-- A token of a text, the end of the text included, that is found without a lexical error in front
of it. -/
def HasToken (rules : LexicalRules) (text : String) (t : Token) : Prop :=
  ∃ tokens stop, Lexes rules (.ofText text.toList) tokens stop ∧ (t ∈ tokens ∨ stop = .ok t)

/-- What may be held against a text: its tokens are not the right ones, or it has a lexical error. -/
def Grounds.ofTokens (tokens : List Token) (stop : Except LexError Token) : Grounds where
  token t := t ∈ tokens ∨ stop = .ok t
  lexical e := stop = .error e
  mismatch m := ∃ t, (t ∈ tokens ∨ stop = .ok t) ∧ m.Names t
  unmet shown some nodup := ⟨_, shown, rfl, rfl, some, nodup⟩
  merge := fun ⟨t, shown, names⟩ ⟨t', shown', names'⟩ =>
    (names.merge names').elim (fun names => ⟨t, shown, names⟩) fun names => ⟨t', shown', names⟩

theorem Tape.grounded_ofText (text : List Char) (tokens : List Token) (stop : Except LexError Token) :
    (Tape.ofText text tokens stop).Grounded (.ofTokens tokens stop) where
  token _ mem := .inl mem
  eof _ same := .inr same
  fault _ same := same
  furthest _ mem := nomatch mem

/-- An error of a text is anchored to it. Unless nesting is to blame, it names the token where it is
reported; a lexical error is the one that the whole text has. -/
theorem Dialect.parse_blames {d : Dialect} {kind : ModelKind} {text : String} {e : AnalysisError}
    (failed : d.parse kind text = .error e) :
    (e.kind = .malformed → ∃ t, HasToken d.lexical text t ∧ e.position? = some t.span.start ∧
      (e.message ≠ "expression nested too deeply" →
        e.found? = some t.describe ∧ e.expected ≠ [] ∧ e.expected.Nodup)) ∧
    (e.kind = .lexical → ∃ fault, e = .lexical fault ∧ tokenize d.lexical text = .error fault) := by
  by_cases supported : d.supports kind
  · obtain ⟨tokens, stop, lexes⟩ := lexes_exists d.lexical (.ofText text.toList)
    rw [Dialect.parse_eq_read supported lexes] at failed
    obtain ⟨failure, fails, rfl⟩ : ∃ failure, ((entry d.features kind).run.read
        (sqlLevels d.features maxNesting) (.ofText text.toList tokens stop)).1 = .error failure ∧
        AnalysisError.ofFailure failure = e := by
      generalize Prod.fst (Rule.read _ _ _) = result at failed
      cases result with
      | ok => cases failed
      | error failure => exact ⟨failure, rfl, Except.error.inj failed⟩
    have grounded := (entry_blames d.features kind).run_grounded
      (tapeLevels_grounded (Symbol.body_blames d.features) maxNesting)
      (Tape.grounded_ofText text.toList tokens stop) fails
    cases failure with
    | mismatch m =>
      obtain ⟨t, shown, names⟩ := grounded
      exact ⟨fun _ => ⟨t, ⟨tokens, stop, lexes, shown⟩, congrArg some names.position, fun _ =>
        ⟨congrArg some names.found, names.some, names.nodup⟩⟩, nofun⟩
    | tooDeep p =>
      obtain ⟨t, shown, rfl⟩ := grounded
      exact ⟨fun _ => ⟨t, ⟨tokens, stop, lexes, shown⟩, rfl, fun other => absurd rfl other⟩, nofun⟩
    | lexical fault =>
      have same : stop = .error fault := grounded
      exact ⟨nofun, fun _ => ⟨fault, rfl, by rw [lexes.tokenize, same]; rfl⟩⟩
    | cancelled => exact ⟨nofun, nofun⟩
  · rw [Dialect.parse_unsupported supported] at failed
    obtain rfl := Except.error.inj failed
    exact ⟨nofun, nofun⟩

/-- A name is missing behind a point. -/
theorem Dialect.sqlite_qualifier_blames :
    ∃ e, Dialect.sqlite.parse .expression "a." = .error e ∧
      (e.kind = .malformed → ∃ t, HasToken Dialect.sqlite.lexical "a." t ∧
        e.position? = some t.span.start ∧ (e.message ≠ "expression nested too deeply" →
          e.found? = some t.describe ∧ e.expected ≠ [] ∧ e.expected.Nodup)) ∧
      (e.kind = .lexical → ∃ fault, e = .lexical fault ∧
        tokenize Dialect.sqlite.lexical "a." = .error fault) := by
  have failed : Dialect.sqlite.parse .expression "a." =
      .error (.mismatch ⟨⟨2, 1, 3⟩, ["identifier"], "end of input"⟩) := rfl
  exact ⟨_, failed, Dialect.parse_blames failed⟩

end SqlTree
