import Mathlib.Data.List.Induction
import SqlTree.Proofs.Text.Cursor

namespace SqlTree

section

variable {text rest written : List Char} {start stop : Nat}

/-- What is left of a text behind some bytes is the end of the text. -/
theorem dropBytes_eq_some (found : dropBytes text start = some rest) :
    ∃ front, text = front ++ rest ∧ start = byteSize front := by
  induction text generalizing start with
  | nil =>
    cases start with
    | zero => exact ⟨[], Option.some.inj found, rfl⟩
    | succ start => cases found
  | cons c text ih =>
    cases start with
    | zero => exact ⟨[], Option.some.inj found, rfl⟩
    | succ start =>
      rw [dropBytes] at found
      split at found
      · obtain ⟨front, rfl, size⟩ := ih found
        refine ⟨c :: front, rfl, ?_⟩
        rw [byteSize_cons]
        omega
      · cases found

/-- What is taken of a text up to some bytes is its beginning. -/
theorem takeBytes_eq_some (found : takeBytes text stop = some written) :
    ∃ back, text = written ++ back ∧ stop = byteSize written := by
  induction text generalizing stop written with
  | nil =>
    cases stop with
    | zero => exact ⟨[], by cases found; rfl, by cases found; rfl⟩
    | succ stop => cases found
  | cons c text ih =>
    cases stop with
    | zero => exact ⟨c :: text, by cases found; rfl, by cases found; rfl⟩
    | succ stop =>
      rw [takeBytes] at found
      split at found
      · obtain ⟨taken, inner, rfl⟩ := Option.map_eq_some_iff.mp found
        obtain ⟨back, rfl, size⟩ := ih inner
        refine ⟨back, rfl, ?_⟩
        rw [byteSize_cons]
        omega
      · cases found

/-- A piece that is cut out of a text stands between what is before it and what is behind it. -/
theorem sliceBytes_eq_some (cut : sliceBytes text start stop = some written) :
    ∃ front back, text = front ++ (written ++ back) ∧ start = byteSize front ∧
      stop = byteSize front + byteSize written := by
  unfold sliceBytes at cut
  split at cut
  case isFalse => cases cut
  split at cut
  case h_2 => cases cut
  rename_i rest dropped
  obtain ⟨front, rfl, rfl⟩ := dropBytes_eq_some dropped
  obtain ⟨back, rfl, size⟩ := takeBytes_eq_some cut
  exact ⟨front, back, rfl, rfl, by omega⟩

/-- What is cut out of a text is cut out of every text around it, too. -/
theorem sliceBytes_inside (front back : List Char) (cut : sliceBytes text start stop = some written) :
    sliceBytes (front ++ (text ++ back)) (byteSize front + start) (byteSize front + stop) =
      some written := by
  obtain ⟨before, behind, rfl, rfl, rfl⟩ := sliceBytes_eq_some cut
  have whole : front ++ (before ++ (written ++ behind) ++ back) =
      (front ++ before) ++ (written ++ (behind ++ back)) := by
    simp only [List.append_assoc]
  rw [whole, ← Nat.add_assoc, ← byteSize_append, sliceBytes_append]

end

namespace Position

variable (p q : Position) (lines : List Char)

/-- A place of a text that stands behind some lines. -/
def shiftedBy : Position := ⟨p.offset + byteSize lines, p.line + lines.count '\n', p.column⟩

/-- A character leads on behind some lines as it does at the start of a text. -/
theorem after_shiftedBy (c : Char) : (p.shiftedBy lines).after c = (p.after c).shiftedBy lines := by
  unfold after shiftedBy
  split <;> simp only [mk.injEq, and_true] <;> omega

theorem afterAll_shiftedBy (text : List Char) :
    (p.shiftedBy lines).afterAll text = (p.afterAll text).shiftedBy lines := by
  induction text generalizing p with
  | nil => rfl
  | cons c text ih => rw [afterAll_cons, after_shiftedBy, ih, afterAll_cons]

theorem afterAll_line (text : List Char) : (p.afterAll text).line = p.line + text.count '\n' := by
  induction text generalizing p with
  | nil => rfl
  | cons c text ih =>
    rw [afterAll_cons, ih, List.count_cons, after]
    split <;> simp_all
    omega

/-- A text begins behind the lines in front of it. -/
theorem start_afterAll_line : start.afterAll (lines ++ ['\n']) = start.shiftedBy (lines ++ ['\n']) := by
  have offset := afterAll_offset start lines
  have line := afterAll_line start lines
  rw [afterAll_append, afterAll_cons, afterAll_nil, after, if_pos rfl, offset, line, shiftedBy]
  simp only [start, byteSize_append, byteSize_cons, byteSize_nil, List.count_append,
    List.count_singleton_self, mk.injEq, and_true]
  omega

/-- Which of two places is the later one does not change behind some lines. -/
theorem later_shiftedBy :
    (p.shiftedBy lines).later (q.shiftedBy lines) = (p.later q).shiftedBy lines := by
  have same (a b k : Nat) : Ord.compare (a + k) (b + k) = Ord.compare a b := by
    simp only [Nat.compare_eq_ite_lt, Nat.add_lt_add_iff_right]
  unfold later compare
  simp only [shiftedBy, same]
  split <;> rfl

/-- A place behind `p`, counted as if the text began at `p`. -/
def since : Position :=
  ⟨q.offset - p.offset, q.line - p.line + 1, if q.line = p.line then q.column - p.column + 1 else q.column⟩

/-- Counting on from a place goes on as from the start of a text. -/
theorem since_after (c : Char) (offset : p.offset ≤ q.offset) (line : p.line ≤ q.line)
    (column : q.line = p.line → p.column ≤ q.column) : p.since (q.after c) = (p.since q).after c := by
  unfold since after
  split
  · simp only [mk.injEq]
    refine ⟨by omega, by omega, if_neg (by omega)⟩
  · simp only [mk.injEq, true_and]
    refine ⟨by omega, ?_⟩
    split
    · have := column ‹_›
      omega
    · rfl

/-- Counted from a place, what is read from there on ends where it ends when it is read alone. -/
theorem since_afterAll (read : List Char) : p.since (p.afterAll read) = start.afterAll read := by
  have counted : p.offset ≤ (p.afterAll read).offset ∧ p.line ≤ (p.afterAll read).line ∧
      ((p.afterAll read).line = p.line → p.column ≤ (p.afterAll read).column) ∧
        p.since (p.afterAll read) = start.afterAll read := by
    induction read using List.reverseRecOn with
    | nil => simp [since, start]
    | append_singleton read c ih =>
      obtain ⟨offset, line, column, same⟩ := ih
      rw [afterAll_append, afterAll_append, afterAll_cons, afterAll_cons, afterAll_nil, afterAll_nil, ← same,
        since_after p _ c offset line column]
      unfold after
      split
      · exact ⟨Nat.le_add_right_of_le offset, Nat.le_succ_of_le line,
          fun same => absurd same (Nat.ne_of_gt (Nat.lt_succ_of_le line)), rfl⟩
      · exact ⟨Nat.le_add_right_of_le offset, line, fun same => Nat.le_succ_of_le (column same), rfl⟩
  exact counted.2.2.2

/-- A place is the same counted as from itself on as the start of a text. -/
theorem since_self : p.since p = start := p.since_afterAll []

end Position

end SqlTree
