import Mathlib.Algebra.GroupWithZero.Nat
import SqlTree.Text.Reader

namespace SqlTree

/-- How many bytes a text takes. -/
def byteSize (text : List Char) : Nat := (text.map Char.utf8Size).sum

@[simp] theorem byteSize_nil : byteSize [] = 0 := rfl

@[simp] theorem byteSize_cons (c : Char) (text : List Char) :
    byteSize (c :: text) = c.utf8Size + byteSize text := by
  simp [byteSize]

@[simp] theorem byteSize_append (a b : List Char) : byteSize (a ++ b) = byteSize a + byteSize b := by
  simp [byteSize]

theorem byteSize_pos {text : List Char} (nonempty : text ≠ []) : 0 < byteSize text := by
  cases text with
  | nil => exact absurd rfl nonempty
  | cons c rest =>
    have := c.utf8Size_pos
    simp only [byteSize_cons]
    omega

/-- Two beginnings of one text that take equally many bytes are the same. -/
theorem append_cancel_of_byteSize {a b c d : List Char} (same : a ++ b = c ++ d)
    (size : byteSize a = byteSize c) : a = c ∧ b = d := by
  induction a generalizing c with
  | nil =>
    cases c with
    | nil => exact ⟨rfl, same⟩
    | cons x c =>
      have := byteSize_pos (List.cons_ne_nil x c)
      simp only [byteSize_nil] at size
      omega
  | cons x a ih =>
    cases c with
    | nil =>
      have := byteSize_pos (List.cons_ne_nil x a)
      simp only [byteSize_nil] at size
      omega
    | cons y c =>
      simp only [List.cons_append, List.cons.injEq] at same
      obtain ⟨rfl, same⟩ := same
      simp only [byteSize_cons, Nat.add_left_cancel_iff] at size
      obtain ⟨rfl, rfl⟩ := ih same size
      exact ⟨rfl, rfl⟩

/-- The bytes of a text that is followed by another one end where that one begins. -/
theorem dropBytes_append (a b : List Char) : dropBytes (a ++ b) (byteSize a) = some b := by
  induction a with
  | nil => rw [List.nil_append, byteSize_nil, dropBytes]
  | cons c a ih =>
    obtain ⟨size, eq⟩ := Nat.exists_eq_succ_of_ne_zero (Nat.pos_iff_ne_zero.mp
      (byteSize_pos (List.cons_ne_nil c a)))
    have within : c.utf8Size ≤ size + 1 ∧ size + 1 - c.utf8Size = byteSize a := by
      rw [byteSize_cons] at eq
      omega
    rw [eq, List.cons_append, dropBytes, if_pos within.1, within.2, ih]

/-- As many bytes as a text has are the text, whatever follows it. -/
theorem takeBytes_append (a b : List Char) : takeBytes (a ++ b) (byteSize a) = some a := by
  induction a with
  | nil => rw [byteSize_nil, takeBytes]
  | cons c a ih =>
    obtain ⟨size, eq⟩ := Nat.exists_eq_succ_of_ne_zero (Nat.pos_iff_ne_zero.mp
      (byteSize_pos (List.cons_ne_nil c a)))
    have within : c.utf8Size ≤ size + 1 ∧ size + 1 - c.utf8Size = byteSize a := by
      rw [byteSize_cons] at eq
      omega
    rw [eq, List.cons_append, takeBytes, if_pos within.1, within.2, ih]
    rfl

/-- A piece of a text is cut out between the bytes before it and those up to its end. -/
theorem sliceBytes_append (a b c : List Char) :
    sliceBytes (a ++ (b ++ c)) (byteSize a) (byteSize a + byteSize b) = some b := by
  rw [sliceBytes, if_pos (Nat.le_add_right _ _), dropBytes_append]
  simp only [Nat.add_sub_cancel_left, takeBytes_append]

namespace Position

@[simp] theorem after_offset (p : Position) (c : Char) : (p.after c).offset = p.offset + c.utf8Size := by
  unfold after
  split <;> rfl

@[simp] theorem afterAll_offset (p : Position) (text : List Char) :
    (p.afterAll text).offset = p.offset + byteSize text := by
  induction text generalizing p with
  | nil => simp
  | cons c text ih =>
    rw [afterAll_cons, ih, after_offset, byteSize_cons]
    omega

end Position

namespace Cursor

/-- The cursor stands somewhere in `text`: what was read before it and what follows make up the
text, and its place is the one behind what was read. -/
def On (text : List Char) (c : Cursor) : Prop :=
  ∃ read, read ++ c.rest = text ∧ c.position = Position.start.afterAll read

theorem on_ofText (text : List Char) : (ofText text).On text := ⟨[], rfl, rfl⟩

/-- The bytes that were read and those that follow make up the bytes of the text. -/
theorem On.offset_eq {text : List Char} {c : Cursor} (on : c.On text) :
    c.position.offset + byteSize c.rest = byteSize text := by
  obtain ⟨read, whole, place⟩ := on
  rw [place, ← whole]
  simp [Position.start]

/-- Within one text the offset determines the cursor. -/
theorem On.eq_of_offset_eq {text : List Char} {c d : Cursor} (onC : c.On text) (onD : d.On text)
    (same : c.position.offset = d.position.offset) : c = d := by
  obtain ⟨c, rest⟩ := c
  obtain ⟨d, rest'⟩ := d
  obtain ⟨readC, wholeC, rfl⟩ := onC
  obtain ⟨readD, wholeD, rfl⟩ := onD
  simp only [Position.afterAll_offset, Nat.add_left_cancel_iff] at same
  obtain ⟨rfl, rests⟩ := append_cancel_of_byteSize (wholeC.trans wholeD.symm) same
  simp only at rests
  rw [rests]

/-- Reading on in a text stays in the text. -/
theorem On.afterAll {text a b : List Char} {c : Cursor} (on : c.On text) (split : c.rest = a ++ b) :
    On text ⟨c.position.afterAll a, b⟩ := by
  obtain ⟨read, whole, place⟩ := on
  refine ⟨read ++ a, ?_, ?_⟩
  · rw [List.append_assoc, ← split, whole]
  · rw [place, Position.afterAll_append]

/-- What is read next is what the text holds up to the place behind it. -/
theorem On.slice {text a b : List Char} {c : Cursor} (on : c.On text) (split : c.rest = a ++ b) :
    sliceBytes text c.position.offset (c.position.afterAll a).offset = some a := by
  obtain ⟨read, whole, place⟩ := on
  have start : c.position.offset = byteSize read := by
    rw [place]
    simp [Position.start]
  rw [Position.afterAll_offset, start, ← whole, split, sliceBytes_append]

/-- A cursor further on in the text has fewer characters in front of it. -/
theorem On.rest_length_lt {text : List Char} {c d : Cursor} (onC : c.On text) (onD : d.On text)
    (further : c.position.offset < d.position.offset) : d.rest.length < c.rest.length := by
  have sizes : byteSize d.rest < byteSize c.rest := by
    have := onC.offset_eq
    have := onD.offset_eq
    omega
  obtain ⟨readC, wholeC, -⟩ := onC
  obtain ⟨readD, wholeD, -⟩ := onD
  have shared := wholeC.trans wholeD.symm
  rcases List.append_eq_append_iff.mp shared with ⟨mid, -, restC⟩ | ⟨mid, -, restD⟩
  · rw [restC] at sizes ⊢
    cases mid with
    | nil => simp at sizes
    | cons =>
      simp only [List.cons_append, List.length_cons, List.length_append]
      omega
  · rw [restD, byteSize_append] at sizes
    omega

end Cursor

end SqlTree
