import SqlTree.Proofs.Dialects.Extensions
import SqlTree.Proofs.Lockstep.Layout

namespace SqlTree

open SqlRule Rule

/-- The words that the extensions of the built-in dialects start with. -/
def vendorWords : List Keyword :=
  [.LIMIT, .OFFSET, .RETURNING, .ILIKE, .IF, .NULLS, .PRAGMA, .AUTOINCREMENT, .AUTO_INCREMENT]

/-- A token with which no extension of a built-in dialect starts: neither two colons, nor one of the words,
unquoted and in whatever case. -/
structure Token.Shared (t : Token) : Prop where
  sign : t.kind ≠ .doubleColon
  words : ∀ k ∈ vendorWords, t.spells k = false

section

variable {f : Features} {d d' : Dialect} {kind : ModelKind} {text : String} {tokens : List Token}

/-- These are all the words that extensions start with. -/
theorem Dialect.ownWords_of_builtin (builtin : d ∈ Dialect.builtin) :
    ∀ k ∈ d.features.ownWords, k ∈ vendorWords := by
  simp only [Dialect.builtin, List.mem_cons, List.not_mem_nil, or_false] at builtin
  rcases builtin with rfl | rfl | rfl | rfl <;> decide

/-- A token with which no extension starts means the same with the features of a dialect as without. -/
theorem Token.Shared.common {t : Token} (shared : t.Shared) (builtin : d ∈ Dialect.builtin) :
    t.Common d.features :=
  ⟨shared.sign, fun k own => shared.words k (Dialect.ownWords_of_builtin builtin k own)⟩

theorem Tape.twin_ofText (chars : List Char) {eof : Token} (common : ∀ t ∈ tokens ++ [eof], t.Common f) :
    (Tape.ofText chars tokens (.ok eof)).Twin f (.ofText chars tokens (.ok eof)) where
  text := rfl
  stop := rfl
  ended := ⟨eof, rfl, common eof (by simp)⟩
  calm := rfl
  calm' := rfl
  tokens := rfl
  common := fun t mem => common t (List.mem_append_left _ mem)
  lastEnd := rfl
  params := rfl

/-- Readings that come to the same give the same values. -/
theorem Reading.Concurs.gives_iff {α : Type} {reading reading' : Reading α}
    (concurs : reading.Concurs f reading') (value : α) :
    reading.1 = .ok value ↔ reading'.1 = .ok value := by
  cases concurs <;> simp

/-- A text without extensions means what it means where there are none. -/
theorem Dialect.parse_base (supported : d.supports kind) (lexed : tokenize d.lexical text = .ok tokens)
    (common : ∀ t ∈ tokens, t.Common d.features) {front : List Token} {eof : Token}
    (split : tokens = front ++ [eof]) (m : Model) :
    d.parse kind text = .ok m ↔
      ((entry .base kind).run.read (sqlLevels .base maxNesting)
        (.ofText text.toList front (.ok eof))).1 = .ok m := by
  obtain ⟨front', eof', same, lexes⟩ := lexes_of_tokenize lexed
  obtain ⟨rfl, rfl⟩ := List.append_singleton_inj.mp (split.symm.trans same)
  subst split
  have concurs := (entry_concurs kind).run _ _ (tapeLevels_concur Symbol.body_concurs maxNesting) _ _
    (Tape.twin_ofText text.toList common)
  rw [Dialect.parse_eq_read supported lexes, ← concurs.gives_iff m]
  generalize (entry d.features kind).run.read _ _ = reading
  rcases reading with ⟨_ | _, _⟩ <;> simp [Except.mapError]

end

/-- A text that uses no extension means the same in all built-in dialects that read the same tokens in it:
it is parsed in one of them exactly if it is in the other one, and as the same model. -/
theorem Dialect.parse_conservative {d d' : Dialect} (builtin : d ∈ Dialect.builtin)
    (builtin' : d' ∈ Dialect.builtin) {kind : ModelKind} (supported : d.supports kind)
    (supported' : d'.supports kind) {text : String} {tokens : List Token}
    (lexed : tokenize d.lexical text = .ok tokens) (lexed' : tokenize d'.lexical text = .ok tokens)
    (shared : ∀ t ∈ tokens, t.Shared) (m : Model) :
    d.parse kind text = .ok m ↔ d'.parse kind text = .ok m := by
  obtain ⟨front, eof, split, -⟩ := lexes_of_tokenize lexed
  rw [Dialect.parse_base supported lexed (fun t mem => (shared t mem).common builtin) split,
    Dialect.parse_base supported' lexed' (fun t mem => (shared t mem).common builtin') split]

/-- A query in which SQLite and PostgreSQL read the same tokens. -/
theorem Dialect.sqlite_postgresql_conservative : ∃ tokens,
    tokenize Dialect.sqlite.lexical "SELECT a FROM t" = .ok tokens ∧
    tokenize Dialect.postgresql.lexical "SELECT a FROM t" = .ok tokens ∧ (∀ t ∈ tokens, t.Shared) ∧
    ∀ m, Dialect.sqlite.parse .select "SELECT a FROM t" = .ok m ↔
      Dialect.postgresql.parse .select "SELECT a FROM t" = .ok m := by
  let tokens : List Token :=
    [⟨.keyword .SELECT, "SELECT", ⟨⟨0, 1, 1⟩, ⟨6, 1, 7⟩⟩⟩,
      ⟨.identifier "a", "a", ⟨⟨7, 1, 8⟩, ⟨8, 1, 9⟩⟩⟩,
      ⟨.keyword .FROM, "FROM", ⟨⟨9, 1, 10⟩, ⟨13, 1, 14⟩⟩⟩,
      ⟨.identifier "t", "t", ⟨⟨14, 1, 15⟩, ⟨15, 1, 16⟩⟩⟩,
      ⟨.eof, "", ⟨⟨15, 1, 16⟩, ⟨15, 1, 16⟩⟩⟩]
  have lexed : tokenize Dialect.sqlite.lexical "SELECT a FROM t" = .ok tokens := rfl
  have lexed' : tokenize Dialect.postgresql.lexical "SELECT a FROM t" = .ok tokens := rfl
  have shared : ∀ t ∈ tokens, t.Shared := by
    have each : ∀ t ∈ tokens, t.kind ≠ .doubleColon ∧ ∀ k ∈ vendorWords, t.spells k = false := by
      decide
    exact fun t mem => ⟨(each t mem).1, (each t mem).2⟩
  exact ⟨tokens, lexed, lexed', shared, Dialect.parse_conservative (by simp [Dialect.builtin])
    (by simp [Dialect.builtin]) (by decide) (by decide) lexed lexed' shared⟩

end SqlTree
