import Mathlib.Data.List.Forall2
import SqlTree.Keyword
import SqlTree.Proofs.Text.Cursor
import SqlTree.Text.Slice

namespace SqlTree

/-- The same character, or the same letter in another case. -/
def SameLetter (c c' : Char) : Prop := c.toLower = c'.toLower

section

variable {c c' : Char} {a a' b b' : String} {cs cs' : List Char}

/-- A letter is one of the capital ones or one of the small ones. -/
theorem isAlpha_iff :
    c.isAlpha = true ↔ ('A'.val ≤ c.val ∧ c.val ≤ 'Z'.val) ∨ ('a'.val ≤ c.val ∧ c.val ≤ 'z'.val) := by
  change (decide ('A'.val ≤ c.val ∧ c.val ≤ 'Z'.val) ||
    (decide ('a'.val ≤ c.val) && decide (c.val ≤ 'z'.val))) = true ↔ _
  simp only [Bool.or_eq_true, Bool.and_eq_true, decide_eq_true_eq]

/-- A letter is one of the first 128 characters. -/
theorem toNat_lt_of_isAlpha (alpha : c.isAlpha = true) : c.toNat < 128 := by
  rcases isAlpha_iff.mp alpha with ⟨-, le⟩ | ⟨-, le⟩
  · exact Nat.lt_of_le_of_lt (UInt32.le_iff_toNat_le.mp le) (by decide)
  · exact Nat.lt_of_le_of_lt (UInt32.le_iff_toNat_le.mp le) (by decide)

/-- What holds of the first 128 characters holds of every letter. -/
theorem of_isAlpha {P : Char → Prop} (each : ∀ code < 128, P (Char.ofNat code)) (alpha : c.isAlpha = true) :
    P c := by
  rw [← Char.ofNat_toNat c]
  exact each _ (toNat_lt_of_isAlpha alpha)

/-- Only letters have another case. -/
theorem case_of_not_isAlpha (other : ¬ c.isAlpha = true) : c.toLower = c ∧ c.toUpper = c := by
  rw [isAlpha_iff, not_or] at other
  exact ⟨dif_neg other.1, dif_neg other.2⟩

/-- What holds of the first 128 characters, and of every one without another case, holds of all. -/
theorem forall_case {P : Char → Prop} (each : ∀ code < 128, P (Char.ofNat code))
    (other : ∀ c : Char, c.toLower = c → c.toUpper = c → P c) (c : Char) : P c := by
  by_cases alpha : c.isAlpha = true
  · exact of_isAlpha each alpha
  · exact other c (case_of_not_isAlpha alpha).1 (case_of_not_isAlpha alpha).2

namespace SameLetter

theorem refl (c : Char) : SameLetter c c := rfl

theorem symm (same : SameLetter c c') : SameLetter c' c := Eq.symm same

/-- A small letter is the same as the capital one. -/
theorem toLower (c : Char) : SameLetter c.toLower c :=
  forall_case (P := fun c => c.toLower.toLower = c.toLower) (by decide) (fun c lower _ => by rw [lower, lower]) c

theorem toUpper (c : Char) : SameLetter c.toUpper c :=
  forall_case (P := fun c => c.toUpper.toLower = c.toLower) (by decide) (fun c _ upper => by rw [upper]) c

/-- The same letters have the same capital one. -/
theorem toUpper_eq (same : SameLetter c c') : c.toUpper = c'.toUpper := by
  have small : ∀ c : Char, c.toLower.toUpper = c.toUpper :=
    forall_case (by decide) fun c lower _ => by rw [lower]
  rw [← small c, same, small c']

/-- Only letters are the same as a letter. -/
theorem isAlpha_eq (same : SameLetter c c') : c.isAlpha = c'.isAlpha := by
  have small : ∀ c : Char, c.toLower.isAlpha = c.isAlpha :=
    forall_case (by decide) fun c lower _ => by rw [lower]
  rw [← small c, same, small c']

/-- The same letters are one character, or letters both. -/
theorem eq_or_isAlpha (same : SameLetter c c') : c' = c ∨ c.isAlpha = true ∧ c'.isAlpha = true := by
  by_cases alpha : c.isAlpha = true
  · exact .inr ⟨alpha, same.isAlpha_eq.symm.trans alpha⟩
  · have alpha' : ¬ c'.isAlpha = true := by rwa [← same.isAlpha_eq]
    exact .inl ((case_of_not_isAlpha alpha').1.symm.trans (same.symm.trans (case_of_not_isAlpha alpha).1))

theorem eq_of_not_isAlpha (same : SameLetter c c') (other : c.isAlpha = false) : c' = c :=
  same.eq_or_isAlpha.resolve_right fun alpha => by simp [alpha.1] at other

/-- A character that is no letter is told by itself. -/
theorem eq_iff (same : SameLetter c c') {other : Char} (noLetter : other.isAlpha = false) :
    c' = other ↔ c = other := by
  constructor
  · rintro rfl
    exact same.symm.eq_of_not_isAlpha noLetter
  · rintro rfl
    exact same.eq_of_not_isAlpha noLetter

/-- A letter has two cases and no more. -/
theorem eq_toLower_or_eq_toUpper (same : SameLetter c c') : c = c'.toLower ∨ c = c'.toUpper := by
  have own : ∀ c : Char, c = c.toLower ∨ c = c.toUpper :=
    forall_case (by decide) fun c lower _ => .inl lower.symm
  exact (own c).imp (·.trans same) (·.trans same.toUpper_eq)

end SameLetter

theorem utf8Size_of_isAlpha (alpha : c.isAlpha = true) : c.utf8Size = 1 := by
  have bound : c.val ≤ 127 := UInt32.le_iff_toNat_le.mpr (Nat.le_of_lt_succ (toNat_lt_of_isAlpha alpha))
  simp [Char.utf8Size, bound]

/-- A test that all letters pass, or none, does not tell their cases apart. -/
theorem SameLetter.test {test : Char → Bool} {value : Bool} (same : SameLetter c c')
    (letters : ∀ c, c.isAlpha = true → test c = value) : test c' = test c := by
  rcases same.eq_or_isAlpha with rfl | ⟨alpha, alpha'⟩
  · rfl
  · rw [letters c alpha, letters c' alpha']

/-- The cases of a letter take the same number of bytes. -/
theorem SameLetter.utf8Size_eq (same : SameLetter c c') : c'.utf8Size = c.utf8Size := by
  rcases same.eq_or_isAlpha with rfl | ⟨alpha, alpha'⟩
  · rfl
  · rw [utf8Size_of_isAlpha alpha, utf8Size_of_isAlpha alpha']

/-- A text takes the same places whatever the case of its letters. -/
theorem Position.afterAll_sameLetters (same : List.Forall₂ SameLetter cs cs') (p : Position) :
    p.afterAll cs' = p.afterAll cs := by
  induction same generalizing p with
  | nil => rfl
  | cons first _ ih =>
    have line := first.eq_iff (show ('\n' : Char).isAlpha = false from rfl)
    rw [Position.afterAll_cons, Position.afterAll_cons, ih, Position.after, Position.after,
      first.utf8Size_eq]
    simp only [line]

theorem dropBytes_sameLetters (same : List.Forall₂ SameLetter cs cs') (n : Nat) :
    Option.Rel (List.Forall₂ SameLetter) (dropBytes cs n) (dropBytes cs' n) := by
  induction same generalizing n with
  | nil =>
    cases n with
    | zero => exact .some .nil
    | succ n => exact .none
  | cons first rest ih =>
    cases n with
    | zero => exact .some (.cons first rest)
    | succ n =>
      rw [dropBytes, dropBytes, first.utf8Size_eq]
      split
      · exact ih _
      · exact .none

theorem takeBytes_sameLetters (same : List.Forall₂ SameLetter cs cs') (n : Nat) :
    Option.Rel (List.Forall₂ SameLetter) (takeBytes cs n) (takeBytes cs' n) := by
  induction same generalizing n with
  | nil =>
    cases n with
    | zero => exact .some .nil
    | succ n => exact .none
  | @cons c _ cs cs' first _ ih =>
    cases n with
    | zero => exact .some .nil
    | succ n =>
      rw [takeBytes, takeBytes, first.utf8Size_eq]
      split
      · have inner := ih (n + 1 - c.utf8Size)
        generalize takeBytes cs _ = taken at inner ⊢
        generalize takeBytes cs' _ = taken' at inner ⊢
        cases inner with
        | none => exact .none
        | some rest => exact .some (.cons first rest)
      · exact .none

/-- What is cut out of two texts that agree up to the case of their letters does so as well. -/
theorem sliceBytes_sameLetters (same : List.Forall₂ SameLetter cs cs') (start stop : Nat) :
    Option.Rel (List.Forall₂ SameLetter) (sliceBytes cs start stop) (sliceBytes cs' start stop) := by
  rw [sliceBytes, sliceBytes]
  split
  · have behind := dropBytes_sameLetters same start
    generalize dropBytes cs start = left at behind ⊢
    generalize dropBytes cs' start = left' at behind ⊢
    cases behind with
    | none => exact .none
    | some rest => exact takeBytes_sameLetters rest _
  · exact .none

/-- Words agree up to the case of their letters if their characters do so one by one. -/
theorem sameWord_iff_sameLetters : sameWord a b = true ↔ List.Forall₂ SameLetter a.toList b.toList := by
  rw [sameWord, beq_iff_eq, ← List.forall₂_eq_eq_eq, List.forall₂_map_left_iff,
    List.forall₂_map_right_iff]
  rfl

theorem sameWord_refl (a : String) : sameWord a a = true := by
  simp [sameWord]

/-- Words that agree up to the case of their letters agree with the same words. -/
theorem sameWord_congr (same : sameWord a a' = true) (b : String) : sameWord a' b = sameWord a b := by
  simp only [sameWord, beq_iff_eq] at same ⊢
  rw [same]

theorem sameWord_append (first : sameWord a a' = true) (second : sameWord b b' = true) :
    sameWord (a ++ b) (a' ++ b') = true := by
  simp only [sameWord, beq_iff_eq, String.toList_append, List.map_append] at first second ⊢
  rw [first, second]

/-- Words that agree up to the case of their letters have the same capitals. -/
theorem upperCase_eq_of_sameWord (same : sameWord a b = true) : upperCase a = upperCase b := by
  rw [upperCase, upperCase, String.ofList_inj, ← List.forall₂_eq_eq_eq, List.forall₂_map_left_iff,
    List.forall₂_map_right_iff]
  exact (sameWord_iff_sameLetters.mp same).imp fun _ _ => SameLetter.toUpper_eq

/-- Words that agree up to the case of their letters spell the same keyword. -/
theorem Keyword.ofWord?_eq_of_sameWord (same : sameWord a b = true) : ofWord? a = ofWord? b := by
  rw [ofWord?, ofWord?, upperCase_eq_of_sameWord same]

/-- Of the words in capital letters only its own spelling is read as a keyword. -/
theorem Keyword.spelling_of_ofWord? {word : String} {k : Keyword} (found : ofWord? word = some k) :
    k.spelling = upperCase word := by
  unfold ofWord? at found
  generalize upperCase word = capitals at found ⊢
  split at found <;> cases found <;> rfl

/-- A word that spells a keyword agrees with it up to the case of the letters. -/
theorem Keyword.sameWord_of_ofWord? {word : String} {k : Keyword} (found : ofWord? word = some k) :
    sameWord word k.spelling = true := by
  have spelled := spelling_of_ofWord? found
  have whole : Char.toLower ∘ Char.toUpper = Char.toLower := funext SameLetter.toUpper
  rw [spelled, sameWord, upperCase, String.toList_ofList, List.map_map, whole, beq_self_eq_true]

end

end SqlTree
