import SqlTree.Proofs.Lexing.Lines

namespace SqlTree

section

variable {more : List Char}

/-- The end of a comment has characters. -/
theorem scanLayout_text_ne_nil {hash : Bool} {state : LayoutState} {cs : List Char} (comment : state ≠ .gap)
    (left : (scanLayout hash state cs).rest ≠ []) : (scanLayout hash state cs).text ≠ [] := by
  revert comment left
  fun_cases scanLayout hash state cs <;> simp [Scan.behind]

/-- Layout that ended in front of something ends there in front of anything else, or goes on with it. -/
theorem scanLayout_resumes {hash : Bool} {state : LayoutState} {cs : List Char}
    (left : (scanLayout hash state cs).rest ≠ []) :
    scanLayout hash state ((scanLayout hash state cs).text ++ more) =
      (scanLayout hash .gap more).behind (scanLayout hash state cs).text id := by
  have behind (gap text : List Char) : ((scanLayout hash .gap more).behind text id).behind gap id =
      (scanLayout hash .gap more).behind (gap ++ text) id := by
    simp [Scan.behind]
  fun_induction scanLayout hash state cs with
  | case1 => exact absurd rfl left
  | case2 cs ih =>
    simp only [Scan.behind, List.cons_append, List.nil_append]
    rw [scanLayout, ih left, behind]
    rfl
  | case3 cs ih =>
    simp only [Scan.behind, List.cons_append, List.nil_append]
    rw [scanLayout, ih left, behind]
    rfl
  | case4 c cs noLine noBlock white ih =>
    obtain ⟨noDash, noSlash⟩ := begins_no_comment white
    simp only [Scan.behind, List.cons_append, List.nil_append]
    rw [scanLayout, if_pos white, ih left, behind]
    · rfl
    · exact fun _ dash => absurd dash noDash
    · exact fun _ slash => absurd slash noSlash
  | case5 c cs noLine noBlock noWhite comment ih =>
    obtain ⟨-, sharp⟩ := Bool.and_eq_true_iff.mp comment
    obtain rfl := beq_iff_eq.mp sharp
    simp only [Scan.behind, List.cons_append, List.nil_append]
    rw [scanLayout, if_neg noWhite, if_pos comment, ih left, behind]
    · rfl
    · rintro _ ⟨⟩
    · rintro _ ⟨⟩
  | case6 => rfl
  | case7 => exact absurd rfl left
  | case8 c cs ih =>
    simp only [Scan.behind, List.cons_append, List.nil_append]
    rw [scanLayout, ih left, behind]
    rfl
  | case9 => exact absurd rfl left
  | case10 read cs ih =>
    simp only [Scan.behind, List.cons_append, List.nil_append]
    rw [scanLayout, ih left, behind]
    rfl
  | case11 read c cs noEnd ih =>
    have splits := scanLayout_splits hash (.block (read + 1)) cs
    obtain ⟨d, text, written⟩ := List.exists_cons_of_ne_nil (scanLayout_text_ne_nil LayoutState.noConfusion left)
    simp only [Scan.behind, List.cons_append, List.nil_append]
    rw [scanLayout, ih left, behind]
    · rfl
    · -- The comment goes on with the character that it went on with.
      rintro tail rfl eq
      rw [written] at eq
      obtain ⟨rfl, -⟩ := List.cons.inj eq
      rw [Scan.Splits, written] at splits
      exact noEnd _ rfl splits.symm

end

section

variable {rules : LexicalRules} {c : Cursor} {t : Token} {before later : List Token}
  {stop : Except LexError Token}

/-- How a token lies in a text. The characters before it and behind it have the tokens there, and those
before it have them also in front of anything else that follows a blank. -/
structure Around (rules : LexicalRules) (c : Cursor) (before : List Token) (t : Token) (later : List Token)
    (stop : Except LexError Token) (lead trail : List Char) : Prop where
  rest : c.rest = lead ++ (t.text.toList ++ trail)
  start : t.span.start = c.position.afterAll lead
  stop_eq : t.span.stop = t.span.start.afterAll t.text.toList
  behind : Lexes rules ⟨t.span.stop, trail⟩ later stop
  replaced : ∀ {more tokens stop'}, Lexes rules ⟨t.span.start.after ' ', more⟩ tokens stop' →
    Lexes rules ⟨c.position, lead ++ ' ' :: more⟩ (before ++ tokens) stop'

/-- Every token of a text lies in it like this. -/
theorem Lexes.around (safe : rules.SafeAt ' ') (lexes : Lexes rules c (before ++ t :: later) stop) :
    ∃ lead trail, Around rules c before t later stop lead trail := by
  induction before generalizing c with
  | nil =>
    cases lexes with
    | token next notEof others =>
      obtain ⟨kind, layout, text, rest, behind, gap, scan, rfl, rfl⟩ := nextToken_scans next
      have outer := scanLayout_splits rules.hashComments .gap c.rest
      have inner := scanToken_splits rules rest
      rw [Scan.Splits, gap] at outer
      rw [Scan.Splits, scan] at inner
      have left : (scanLayout rules.hashComments .gap c.rest).rest ≠ [] := by
        rw [gap]
        exact ne_nil_of_scanToken (by rw [scan]) (by simpa [Token.isEof] using notEof)
      refine ⟨layout, behind, ?_, rfl, ?_, others, fun {more} _ _ later => ?_⟩
      · rw [String.toList_ofList, inner, outer]
      · rw [String.toList_ofList]
      · have resumes : scanLayout rules.hashComments .gap (_ ++ ' ' :: more) = _ := scanLayout_resumes left
        rw [gap] at resumes
        exact later.blank.behind resumes
  | cons u before ih =>
    cases lexes with
    | @token _ after _ _ _ next notEof rest =>
      obtain ⟨layout, text, cut⟩ := nextToken_cut next
      obtain ⟨lead, trail, around⟩ := ih rest
      refine ⟨layout ++ (text ++ lead), trail, ?_, ?_, around.stop_eq, around.behind, fun {more} _ _ later => ?_⟩
      · rw [cut.rest, around.rest]
        simp only [List.append_assoc]
      · rw [around.start, cut.place, ← Position.afterAll_append, List.append_assoc]
      · have again := cut.again layout lead c.position (.inl rfl) ⟨_, around.rest.symm⟩
        have same : (⟨u.kind, u.text, ⟨c.position.afterAll layout, c.position.afterAll (layout ++ text)⟩⟩ : Token) = u := by
          rw [← cut.span]
        rw [same, ← cut.place] at again
        have first : nextToken rules ⟨c.position, (layout ++ (text ++ lead)) ++ ' ' :: more⟩ = _ :=
          nextToken_blank safe again notEof
        exact .token first notEof (around.replaced later)

end

end SqlTree
