import SqlTree.Lexer
import SqlTree.Proofs.Text.Cursor

namespace SqlTree

/-- What a scan read and what it left make up the characters it was given. -/
def Scan.Splits {α : Type} (s : Scan α) (cs : List Char) : Prop := s.text ++ s.rest = cs

theorem Scan.Splits.behind {α β : Type} {s : Scan α} {cs : List Char} (split : s.Splits cs)
    (text : List Char) (f : α → β) : (s.behind text f).Splits (text ++ cs) := by
  unfold Splits at split ⊢
  simp only [Scan.behind, List.append_assoc, split]

/-- Layout is read up to a place, and the rest is left. -/
theorem scanLayout_splits (hash : Bool) (state : LayoutState) (cs : List Char) :
    (scanLayout hash state cs).Splits cs := by
  fun_induction scanLayout hash state cs with
  | case1 => rfl
  | case2 cs ih => exact ih.behind ['-', '-'] id
  | case3 cs ih => exact ih.behind ['/', '*'] id
  | case4 c cs _ _ _ ih => exact ih.behind [c] id
  | case5 c cs _ _ _ _ ih => exact ih.behind [c] id
  | case6 => rfl
  | case7 => rfl
  | case8 c cs ih => exact ih.behind [c] id
  | case9 => rfl
  | case10 read cs ih => exact ih.behind ['*', '/'] id
  | case11 read c cs _ ih => exact ih.behind [c] id

theorem scanQuotedName_splits (closing : Char) (cs : List Char) :
    (scanQuotedName closing cs).Splits cs := by
  fun_induction scanQuotedName closing cs with
  | case1 => rfl
  | case2 => rfl
  | case3 => rfl
  | case4 _ ih => exact ih.behind [_, _] _
  | case5 => rfl
  | case6 c d cs _ ih => exact ih.behind [c] _

theorem scanStringBody_splits (escapes : Bool) (quote : Char) (cs : List Char) :
    (scanStringBody escapes quote cs).Splits cs := by
  fun_induction scanStringBody escapes quote cs <;>
    first
    | rfl
    | (rename_i ih; exact ih.behind [_] _)
    | (rename_i ih; exact ih.behind [_, _] _)

theorem scanHexDigits_splits (cs : List Char) : (scanHexDigits cs).Splits cs := by
  fun_induction scanHexDigits cs with
  | case1 => rfl
  | case2 => rfl
  | case3 c cs _ digit _ ih => exact ih.behind [c] _
  | case4 c cs _ _ _ ih => exact ih.behind [c] _
  | case5 => rfl

namespace NumberText

theorem scanFraction_append (cs : List Char) : (scanFraction cs).1 ++ (scanFraction cs).2 = cs := by
  unfold scanFraction
  split
  · split
    · simp only [List.cons_append, List.takeWhile_append_dropWhile]
    · rfl
  · rfl

theorem scanMark_append (cs : List Char) : (scanMark cs).1 ++ (scanMark cs).2 = cs := by
  unfold scanMark
  split
  · rfl
  · split
    · split
      · rfl
      · split <;> rfl
    · rfl

/-- A number and what follows it make up the text. -/
theorem scan_append (cs : List Char) : (scan cs).text ++ (scan cs).rest = cs := by
  have whole := List.takeWhile_append_dropWhile (p := Char.isDigit) (l := cs)
  have fractionSplit := scanFraction_append (cs.dropWhile Char.isDigit)
  have markSplit := scanMark_append (scanFraction (cs.dropWhile Char.isDigit)).2
  simp only [scan, text]
  split
  · rename_i noMark
    rw [noMark, List.nil_append] at markSplit
    simp only [List.append_nil, List.append_assoc, markSplit, fractionSplit, whole]
  · simp only [List.append_assoc, List.takeWhile_append_dropWhile, markSplit, fractionSplit, whole]

end NumberText

/-- A mark has characters. -/
theorem symbol?_size_pos {cs : List Char} {kind : TokenKind} {size : Nat}
    (found : symbol? cs = some (kind, size)) : 0 < size ∧ kind ≠ .eof := by
  unfold symbol? at found
  split at found <;> cases found <;> decide

/-- A token is read up to a place, and the rest is left. -/
theorem scanToken_splits (rules : LexicalRules) (cs : List Char) :
    (scanToken rules cs).Splits cs := by
  fun_cases scanToken rules cs with
  | case1 => rfl
  | case2 c cs closing => exact (scanQuotedName_splits closing cs).behind [c] _
  | case3 c cs => exact (scanStringBody_splits _ c cs).behind [c] _
  | case4 => exact List.take_append_drop _ _
  | case5 c cs _ _ _ letter =>
    obtain ⟨tail, rfl⟩ := List.head?_eq_some_iff.mp letter.2
    exact (scanHexDigits_splits tail).behind [c, '\''] _
  | case6 c cs => exact NumberText.scan_append (c :: cs)
  | case7 => exact List.takeWhile_append_dropWhile
  | case8 => rfl

/-- A number is never read as the end of the text. -/
theorem NumberText.value_ne_eof (n : NumberText) : n.value ≠ .ok .eof := by
  unfold value
  split
  · simp
  · split
    · dsimp only
      split <;> simp
    · simp

/-- Only at the end of the text does a scan give the end of the text. -/
theorem scanToken_eof {rules : LexicalRules} {cs : List Char}
    (found : (scanToken rules cs).value = .ok .eof) : cs = [] := by
  revert found
  fun_cases scanToken rules cs with
  | case1 => exact fun _ => rfl
  | case2 => simp only [scanQuotedIdentifier, Scan.behind]; split <;> simp
  | case3 => simp only [scanString, Scan.behind]; split <;> simp
  | case4 c cs _ _ kind size symbol =>
    intro found
    cases found
    exact absurd rfl (symbol?_size_pos symbol).2
  | case5 =>
    simp only [scanBlob, Scan.behind]
    split
    · simp
    · split <;> simp
  | case6 => exact fun found => absurd found (NumberText.value_ne_eof _)
  | case7 => simp only [scanWord]; split <;> simp
  | case8 => simp

/-- Every token but the end of the text takes a character. -/
theorem scanToken_text_ne_nil {rules : LexicalRules} {cs : List Char} {kind : TokenKind}
    (found : (scanToken rules cs).value = .ok kind) (notEnd : kind ≠ .eof) :
    (scanToken rules cs).text ≠ [] := by
  revert found
  fun_cases scanToken rules cs with
  | case1 => exact fun found => absurd (Except.ok.inj found).symm notEnd
  | case2 => simp [scanQuotedIdentifier, Scan.behind]
  | case3 => simp [scanString, Scan.behind]
  | case4 c cs _ _ kind size symbol =>
    have := (symbol?_size_pos symbol).1
    simp only [List.take_eq_nil_iff, ne_eq]
    simp
    omega
  | case5 => simp [scanBlob, Scan.behind]
  | case6 c cs _ _ _ _ digit =>
    simp only [scanNumber, NumberText.scan, NumberText.text]
    split <;> simp [digit]
  | case7 c cs _ _ _ _ _ first =>
    have word : isWordChar c := by
      simp only [isWordChar, isAlphanumeric]
      grind
    simp [scanWord, word]
  | case8 => simp

end SqlTree
