import Mathlib.Data.List.Basic
import SqlTree.Dialect.Registry

namespace SqlTree

/-- Whether a name is the name or an alias of a dialect, whatever the case of its letters. -/
def Dialect.AnswersTo (d : Dialect) (name : String) : Prop :=
  ∃ known ∈ d.name :: d.aliases, sameWord known name = true

/-- The keys of a dialect are its names in small letters. -/
theorem Dialect.mem_keys {d : Dialect} {name : String} : lowerCase name ∈ d.keys ↔ d.AnswersTo name := by
  simp only [keys, AnswersTo, List.mem_map, sameWord_iff]

namespace Registry

/-- The index holds the slots of the dialects under all that they answer to, and nothing else, so that a
name belongs to one dialect at most. -/
def Consistent (r : Registry) : Prop :=
  ∀ key slot, r.slot? key = some slot ↔ ∃ d, r.dialects[slot]? = some d ∧ key ∈ d.keys

/-- What a registry does and knows. -/
structure Orderly (r : Registry) : Prop where
  /-- A dialect is added when nothing that it answers to is taken. -/
  accepts : ∀ d, (r.register d).refusal? = none ↔
    ∀ name ∈ d.name :: d.aliases, ∀ other ∈ r.dialects, ¬ other.AnswersTo name
  /-- Else the first name that is taken is reported, and the registry that is left is the same. -/
  refuses : ∀ d error, (r.register d).refusal? = some error → (r.register d).registry = r ∧
    ∃ before name after, d.name :: d.aliases = before ++ name :: after ∧
      error = .duplicateName (lowerCase name) ∧ (∃ other ∈ r.dialects, other.AnswersTo name) ∧
      ∀ earlier ∈ before, ∀ other ∈ r.dialects, ¬ other.AnswersTo earlier
  /-- A new dialect comes last, answers to its own names, and takes none from another. -/
  adds : ∀ d, (r.register d).refusal? = none →
    (r.register d).registry.dialects = r.dialects ++ [d] ∧
      (r.register d).registry.names = r.names ++ [d.name] ∧
      (∀ name, d.AnswersTo name → (r.register d).registry.get? name = some d) ∧
      ∀ name, ¬ d.AnswersTo name → (r.register d).registry.get? name = r.get? name
  /-- A name leads to the dialects that answer to it. -/
  finds : ∀ name d, r.get? name = some d ↔ d ∈ r.dialects ∧ d.AnswersTo name
  /-- No two dialects answer to one name. -/
  apart : r.dialects.Pairwise fun d d' => ∀ name, ¬ (d.AnswersTo name ∧ d'.AnswersTo name)

section

variable {r : Registry} {d : Dialect}

/-- Entering some keys changes what they lead to and nothing else. -/
theorem lookup_enter (slot : Nat) (key : String) (keys : List String) (index : List (String × Nat)) :
    (enter slot keys index).lookup key = if key ∈ keys then some slot else index.lookup key := by
  induction keys generalizing index with
  | nil => simp [enter]
  | cons first keys ih =>
    have entered : enter slot (first :: keys) index = enter slot keys ((first, slot) :: index) := rfl
    rw [entered, ih, List.lookup_cons]
    by_cases same : key = first
    · simp [same]
    · simp [beq_false_of_ne same, same]

/-- What an attempt to add a dialect comes to. -/
theorem register_cases (r : Registry) (d : Dialect) :
    (∃ before key after, d.keys = before ++ key :: after ∧ r.isTaken key = true ∧
      (∀ other ∈ before, r.isTaken other = false) ∧
      r.register d = @Registration.error r (.duplicateName key)) ∨
    ((∀ key ∈ d.keys, r.isTaken key = false) ∧
      r.register d = .ok ⟨r.dialects ++ [d], enter r.dialects.length d.keys r.index⟩) := by
  unfold register
  cases found : d.keys.find? r.isTaken with
  | some key =>
    obtain ⟨taken, before, after, split, free⟩ := List.find?_eq_some_iff_append.mp found
    exact .inl ⟨before, key, after, split, taken, by simpa using free, rfl⟩
  | none => exact .inr ⟨by simpa using found, rfl⟩

/-- A dialect is only added where all its names are free. -/
theorem register_added (added : (r.register d).refusal? = none) :
    (∀ key ∈ d.keys, r.isTaken key = false) ∧
      r.attempt d = ⟨r.dialects ++ [d], enter r.dialects.length d.keys r.index⟩ := by
  obtain ⟨_, _, _, _, _, _, failed⟩ | ⟨free, done⟩ := register_cases r d
  · rw [failed] at added
    cases added
  · exact ⟨free, by rw [attempt, done]; rfl⟩

/-- Under the keys of a dialect that is added stands its slot. -/
theorem slot?_attempt (added : (r.register d).refusal? = none) (key : String) :
    (r.attempt d).slot? key = if key ∈ d.keys then some r.dialects.length else r.slot? key := by
  rw [(register_added added).2]
  exact lookup_enter ..

/-- A dialect that is added is the last one of the list. -/
theorem dialects_attempt (added : (r.register d).refusal? = none) :
    (r.attempt d).dialects = r.dialects ++ [d] := by
  rw [(register_added added).2]

/-- An attempt that fails has entered nothing. -/
theorem attempt_failed {error : DialectError} (failed : (r.register d).refusal? = some error) :
    r.attempt d = r := by
  obtain ⟨_, _, _, _, _, _, refused⟩ | ⟨_, done⟩ := register_cases r d
  · rw [attempt, refused]
    rfl
  · rw [done] at failed
    cases failed

/-- A key is taken if some dialect has it. -/
theorem Consistent.isTaken_iff (consistent : r.Consistent) {key : String} :
    r.isTaken key = true ↔ ∃ d ∈ r.dialects, key ∈ d.keys := by
  simp only [isTaken, Option.isSome_iff_exists, consistent key, List.mem_iff_getElem?]
  constructor
  · rintro ⟨slot, d, atSlot, mem⟩
    exact ⟨d, ⟨slot, atSlot⟩, mem⟩
  · rintro ⟨d, ⟨slot, atSlot⟩, mem⟩
    exact ⟨slot, d, atSlot, mem⟩

theorem getElem?_concat_eq_some {α : Type} {l : List α} {a b : α} {i : Nat} :
    (l ++ [a])[i]? = some b ↔ l[i]? = some b ∨ i = l.length ∧ a = b := by
  rcases Nat.lt_trichotomy i l.length with inside | rfl | past
  · simp [List.getElem?_append_left inside, Nat.ne_of_lt inside]
  · simp
  · have none : (l ++ [a])[i]? = none := List.getElem?_eq_none (by simp; omega)
    simp [none, List.getElem?_eq_none (Nat.le_of_lt past), Nat.ne_of_gt past]

/-- An attempt to add a dialect, which may fail, leaves index and dialects in agreement. -/
theorem Consistent.attempt (consistent : r.Consistent) (d : Dialect) : (r.attempt d).Consistent := by
  cases reported : (r.register d).refusal? with
  | some error => rwa [attempt_failed reported]
  | none =>
    have free := (register_added reported).1
    intro key slot
    rw [slot?_attempt reported, dialects_attempt reported]
    simp only [getElem?_concat_eq_some]
    by_cases own : key ∈ d.keys
    · -- no dialect that was there before answers to a name of the new one
      have unknown : ∀ old, r.dialects[slot]? = some old → key ∉ old.keys := by
        intro old atSlot known
        have taken := consistent.isTaken_iff.mpr ⟨old, List.mem_of_getElem? atSlot, known⟩
        rw [free key own] at taken
        cases taken
      simp only [own, if_true, Option.some.injEq]
      constructor
      · rintro rfl
        exact ⟨d, .inr ⟨rfl, rfl⟩, own⟩
      · rintro ⟨e, old | ⟨last, -⟩, known⟩
        · exact absurd known (unknown e old)
        · exact last.symm
    · simp only [own, if_false, consistent key slot]
      constructor
      · rintro ⟨e, atSlot, known⟩
        exact ⟨e, .inl atSlot, known⟩
      · rintro ⟨e, old | ⟨-, rfl⟩, known⟩
        · exact ⟨e, old, known⟩
        · exact absurd known own

/-- Whatever dialects one tries to add, index and list agree. -/
theorem Consistent.foldl (consistent : r.Consistent) (calls : List Dialect) :
    (calls.foldl Registry.attempt r).Consistent := by
  induction calls generalizing r with
  | nil => exact consistent
  | cons d calls ih => exact ih (consistent.attempt d)

theorem consistent_empty : empty.Consistent := by simp [Consistent, empty, slot?]

theorem consistent_builtin : builtin.Consistent := consistent_empty.foldl _

theorem Consistent.taken_iff (consistent : r.Consistent) {name : String} :
    r.isTaken (lowerCase name) = true ↔ ∃ other ∈ r.dialects, other.AnswersTo name := by
  simp only [consistent.isTaken_iff, Dialect.mem_keys]

theorem Consistent.free_iff (consistent : r.Consistent) {name : String} :
    r.isTaken (lowerCase name) = false ↔ ∀ other ∈ r.dialects, ¬ other.AnswersTo name := by
  rw [← Bool.not_eq_true, consistent.taken_iff]
  exact ⟨fun none other mem answers => none ⟨other, mem, answers⟩,
    fun free ⟨other, mem, answers⟩ => free other mem answers⟩

/-- A dialect is added if no other one answers to any of its names. -/
theorem Consistent.accepts (consistent : r.Consistent) (d : Dialect) :
    (r.register d).refusal? = none ↔
      ∀ name ∈ d.name :: d.aliases, ∀ other ∈ r.dialects, ¬ other.AnswersTo name := by
  have free : (∀ key ∈ d.keys, r.isTaken key = false) ↔
      ∀ name ∈ d.name :: d.aliases, ∀ other ∈ r.dialects, ¬ other.AnswersTo name := by
    simp only [Dialect.keys, List.forall_mem_map, consistent.free_iff]
  rw [← free]
  obtain ⟨before, key, after, split, taken, _, failed⟩ | ⟨free, done⟩ := register_cases r d
  · have mem : key ∈ d.keys := by simp [split]
    constructor
    · intro added
      rw [failed] at added
      cases added
    · intro free
      rw [free key mem] at taken
      cases taken
  · exact ⟨fun _ => free, fun _ => by rw [done]; rfl⟩

/-- A dialect is refused for the first of its names that another one answers to. -/
theorem Consistent.refuses (consistent : r.Consistent) {d : Dialect} {error : DialectError}
    (failed : (r.register d).refusal? = some error) :
    ∃ before name after, d.name :: d.aliases = before ++ name :: after ∧
      error = .duplicateName (lowerCase name) ∧ (∃ other ∈ r.dialects, other.AnswersTo name) ∧
      ∀ earlier ∈ before, ∀ other ∈ r.dialects, ¬ other.AnswersTo earlier := by
  obtain ⟨_, _, _, split, taken, free, reported⟩ | ⟨_, done⟩ := register_cases r d
  · obtain ⟨before, rest, names, rfl, others⟩ := List.map_eq_append_iff.mp split
    obtain ⟨name, after, rfl, rfl, rfl⟩ := List.map_eq_cons_iff.mp others
    rw [reported] at failed
    cases failed
    refine ⟨before, name, after, names, rfl, consistent.taken_iff.mp taken, ?_⟩
    intro earlier mem
    exact consistent.free_iff.mp (free _ (List.mem_map_of_mem mem))
  · rw [done] at failed
    cases failed

/-- A name finds the dialect that answers to it. -/
theorem Consistent.finds (consistent : r.Consistent) (name : String) (d : Dialect) :
    r.get? name = some d ↔ d ∈ r.dialects ∧ d.AnswersTo name := by
  simp only [get?, Option.bind_eq_some_iff, consistent (lowerCase name), Dialect.mem_keys]
  constructor
  · rintro ⟨slot, ⟨e, there, answers⟩, atSlot⟩
    obtain rfl : e = d := Option.some.inj (there.symm.trans atSlot)
    exact ⟨List.mem_of_getElem? atSlot, answers⟩
  · rintro ⟨mem, answers⟩
    obtain ⟨slot, atSlot⟩ := List.getElem?_of_mem mem
    exact ⟨slot, ⟨d, atSlot, answers⟩, atSlot⟩

/-- The slot of a name is one, and so is the dialect that answers to it. -/
theorem Consistent.apart (consistent : r.Consistent) :
    r.dialects.Pairwise fun d d' => ∀ name, ¬ (d.AnswersTo name ∧ d'.AnswersTo name) := by
  rw [List.pairwise_iff_getElem]
  rintro i j hi hj before name ⟨first, second⟩
  have atFirst := (consistent _ i).mpr ⟨_, List.getElem?_eq_getElem hi, Dialect.mem_keys.mpr first⟩
  have atSecond := (consistent _ j).mpr ⟨_, List.getElem?_eq_getElem hj, Dialect.mem_keys.mpr second⟩
  rw [atFirst, Option.some.injEq] at atSecond
  omega

/-- What a dialect does to the answers of a registry that it is added to. -/
theorem get?_attempt (consistent : r.Consistent) (added : (r.register d).refusal? = none) (name : String) :
    (d.AnswersTo name → (r.attempt d).get? name = some d) ∧
      (¬ d.AnswersTo name → (r.attempt d).get? name = r.get? name) := by
  have after : (r.attempt d).Consistent := consistent.attempt d
  have listed := dialects_attempt added
  refine ⟨fun answers => (after.finds name d).mpr ⟨by simp [listed], answers⟩, fun other => ?_⟩
  refine Option.ext fun e => ?_
  rw [after.finds, consistent.finds, listed, List.mem_append, List.mem_singleton]
  constructor
  · rintro ⟨old | rfl, answers⟩
    · exact ⟨old, answers⟩
    · exact absurd answers other
  · exact fun ⟨old, answers⟩ => ⟨.inl old, answers⟩

theorem Consistent.keepsOrder (consistent : r.Consistent) : r.Orderly where
  accepts := consistent.accepts
  refuses := fun _ _ failed => ⟨attempt_failed failed, consistent.refuses failed⟩
  adds := by
    intro d added
    have listed : (r.register d).registry.dialects = r.dialects ++ [d] := dialects_attempt added
    exact ⟨listed, by simp [names, listed], fun name => (get?_attempt consistent added name).1,
      fun name => (get?_attempt consistent added name).2⟩
  finds := consistent.finds
  apart := consistent.apart

/-- A registry stays orderly whatever dialects one tries to add to it. -/
theorem orderly_attempts {start : Registry} (known : start = empty ∨ start = builtin) (calls : List Dialect) :
    (calls.foldl Registry.attempt start).Orderly := by
  rcases known with rfl | rfl
  · exact (consistent_empty.foldl calls).keepsOrder
  · exact (consistent_builtin.foldl calls).keepsOrder

theorem orderly_attempts_clash :
    let reporting := { Dialect.sql92 with name := "Reporting", aliases := ["reports", "REPORTING"] }
    let clash := { Dialect.sql92 with name := "fresh", aliases := ["SQLite", "Reports"] }
    let registry := [reporting, clash].foldl Registry.attempt builtin
    (builtin = empty ∨ builtin = builtin) ∧ registry.Orderly ∧ registry.get? "REPORTS" = some reporting ∧
      registry.get? "fresh" = none ∧ registry.names = builtin.names ++ ["Reporting"] :=
  ⟨.inr rfl, orderly_attempts (.inr rfl) _, by decide +kernel, by decide +kernel, by decide +kernel⟩

end

end Registry

end SqlTree
