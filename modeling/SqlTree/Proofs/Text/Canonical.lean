import Mathlib.Data.List.Induction
import SqlTree.Proofs.Text.Cursor

namespace SqlTree

namespace Position

/-- A place between two characters of a text. Its offset is the bytes before it, its line counts the
line feeds before it, and its column the characters since the last one of them. -/
def Canonical (text : List Char) (p : Position) : Prop :=
  ∃ before rest, text = before ++ rest ∧ p.offset = byteSize before ∧
    p.line = 1 + before.count '\n' ∧
    p.column = 1 + (before.reverse.takeWhile (· ≠ '\n')).length

/-- Counting on from the first character gives the line and the column. -/
theorem start_afterAll (read : List Char) :
    (start.afterAll read).offset = byteSize read ∧
      (start.afterAll read).line = 1 + read.count '\n' ∧
      (start.afterAll read).column = 1 + (read.reverse.takeWhile (· ≠ '\n')).length := by
  induction read using List.reverseRecOn with
  | nil => exact ⟨rfl, rfl, rfl⟩
  | append_singleton read c ih =>
    obtain ⟨offset, line, column⟩ := ih
    have step : start.afterAll (read ++ [c]) = (start.afterAll read).after c := by
      rw [afterAll_append, afterAll_cons, afterAll_nil]
    have size : byteSize (read ++ [c]) = byteSize read + c.utf8Size := by simp
    rw [step, size, List.count_append, List.reverse_append]
    by_cases feed : c = '\n'
    · subst feed
      refine ⟨by rw [after_offset, offset], ?_, ?_⟩
      · simp only [after, if_true, line, List.count_singleton_self]
        omega
      · simp [after]
    · have none : [c].count '\n' = 0 := List.count_eq_zero.mpr (by simpa using Ne.symm feed)
      refine ⟨by rw [after_offset, offset], ?_, ?_⟩
      · simp only [after, if_neg feed, line, none, Nat.add_zero]
      · have longer : (([c].reverse ++ read.reverse).takeWhile (· ≠ '\n')).length =
            (read.reverse.takeWhile (· ≠ '\n')).length + 1 := by
          rw [List.reverse_singleton, List.singleton_append,
            List.takeWhile_cons_of_pos (by simpa using feed), List.length_cons]
        simp only [after, if_neg feed]
        rw [column, longer, Nat.add_assoc]

section

variable {text : List Char} {p q : Position}

/-- The places of a text are those that reading it from its start leads to. -/
theorem canonical_iff :
    p.Canonical text ↔ ∃ read rest, text = read ++ rest ∧ p = start.afterAll read := by
  constructor
  · rintro ⟨read, rest, whole, offset, line, column⟩
    obtain ⟨offset', line', column'⟩ := start_afterAll read
    refine ⟨read, rest, whole, ?_⟩
    cases p
    simp only at offset line column
    rw [offset, line, column, ← offset', ← line', ← column']
  · rintro ⟨read, rest, whole, rfl⟩
    exact ⟨read, rest, whole, start_afterAll read⟩

/-- Within one text the offset determines the place. -/
theorem Canonical.eq_of_offset_eq (placeP : p.Canonical text) (placeQ : q.Canonical text)
    (same : p.offset = q.offset) : p = q := by
  obtain ⟨readP, restP, wholeP, rfl⟩ := canonical_iff.mp placeP
  obtain ⟨readQ, restQ, wholeQ, rfl⟩ := canonical_iff.mp placeQ
  rw [(start_afterAll readP).1, (start_afterAll readQ).1] at same
  rw [(append_cancel_of_byteSize (wholeP.symm.trans wholeQ) same).1]

/-- A place lies within its text or at its end. -/
theorem Canonical.offset_le (place : p.Canonical text) : p.offset ≤ byteSize text := by
  obtain ⟨read, rest, rfl, offset, -⟩ := place
  rw [offset, byteSize_append]
  omega

/-- A text can be cut at each of its places. -/
theorem Canonical.cuts (place : p.Canonical text) : ∃ rest, dropBytes text p.offset = some rest := by
  obtain ⟨read, rest, rfl, offset, -⟩ := place
  exact ⟨rest, by rw [offset, dropBytes_append]⟩

/-- Between two of its places a text can be cut out. -/
theorem Canonical.slices (placeP : p.Canonical text) (placeQ : q.Canonical text)
    (ordered : p.offset ≤ q.offset) : ∃ written, sliceBytes text p.offset q.offset = some written := by
  obtain ⟨readP, restP, wholeP, offsetP, -⟩ := placeP
  obtain ⟨readQ, restQ, wholeQ, offsetQ, -⟩ := placeQ
  rcases List.append_eq_append_iff.mp (wholeP.symm.trans wholeQ) with
    ⟨written, rfl, -⟩ | ⟨written, rfl, rest⟩
  · refine ⟨written, ?_⟩
    rw [wholeQ, offsetP, offsetQ, List.append_assoc, byteSize_append, sliceBytes_append]
  · have sizes : byteSize written = 0 := by
      rw [byteSize_append] at offsetP
      omega
    have empty : written = [] := by
      cases written with
      | nil => rfl
      | cons c written =>
        have := byteSize_pos (List.cons_ne_nil c written)
        omega
    refine ⟨[], ?_⟩
    have cut := sliceBytes_append readQ [] restQ
    rw [wholeQ, offsetP, offsetQ, empty, List.append_nil]
    simpa using cut

end

end Position

/-- A cursor in a text stands at one of its places. -/
theorem Cursor.On.canonical {text : List Char} {c : Cursor} (on : c.On text) :
    c.position.Canonical text := by
  obtain ⟨read, whole, place⟩ := on
  exact Position.canonical_iff.mpr ⟨read, c.rest, whole.symm, place⟩

/-- Every place further on in a text is one of its places. -/
theorem Cursor.On.canonical_afterAll {text a b : List Char} {c : Cursor} (on : c.On text)
    (split : c.rest = a ++ b) : (c.position.afterAll a).Canonical text :=
  (on.afterAll split).canonical

end SqlTree
