import SqlTree.Dialect.Builtin
import SqlTree.Proofs.Lexing.Sequence
import SqlTree.Proofs.Lexing.Pieces

namespace SqlTree

/-- White space and complete comments. A comment that ends with its line leaves the line feed to what
follows it. -/
inductive Layout (hash : Bool) : List Char → Prop
  | nothing : Layout hash []
  | white {c : Char} {more : List Char} :
      isWhiteSpace c = true → Layout hash more → Layout hash (c :: more)
  | line {opening body more : List Char} :
      opening = ['-', '-'] ∨ hash = true ∧ opening = ['#'] → '\n' ∉ body →
      (∀ c ∈ more.head?, c = '\n') → Layout hash more → Layout hash (opening ++ (body ++ more))
  | block {body more : List Char} : ¬ ['*', '/'] <:+: body → Layout hash more →
      Layout hash (['/', '*'] ++ (body ++ (['*', '/'] ++ more)))

/-- What completes layout from where its reader stands. -/
def LayoutState.Completes (hash : Bool) : LayoutState → List Char → Prop
  | .gap, text => Layout hash text
  | .line, text =>
    ∃ body more, text = body ++ more ∧ '\n' ∉ body ∧ (∀ c ∈ more.head?, c = '\n') ∧ Layout hash more
  | .block read, text => 0 < read →
    ∃ body more, text = body ++ (['*', '/'] ++ more) ∧ ¬ ['*', '/'] <:+: body ∧ Layout hash more

/-- What is read as layout up to its end is layout. -/
theorem scanLayout_completes {hash : Bool} {state : LayoutState} {cs : List Char}
    (closed : (scanLayout hash state cs).value = 0) :
    state.Completes hash (scanLayout hash state cs).text := by
  fun_induction scanLayout hash state cs with
  | case1 => exact .nothing
  | case2 cs ih =>
    obtain ⟨body, more, eq, inLine, next, layout⟩ := ih closed
    simp only [Scan.behind, eq]
    exact .line (.inl rfl) inLine next layout
  | case3 cs ih =>
    obtain ⟨body, more, eq, open_, layout⟩ := ih closed (by decide)
    simp only [Scan.behind, eq]
    exact .block open_ layout
  | case4 c cs _ _ white ih => exact .white white (ih closed)
  | case5 c cs _ _ _ comment ih =>
    obtain ⟨hashes, sharp⟩ := Bool.and_eq_true_iff.mp comment
    obtain rfl := beq_iff_eq.mp sharp
    obtain ⟨body, more, eq, inLine, next, layout⟩ := ih closed
    simp only [Scan.behind, eq]
    exact .line (.inr ⟨hashes, rfl⟩) inLine next layout
  | case6 => exact .nothing
  | case7 => exact ⟨[], [], rfl, List.not_mem_nil, by simp, .nothing⟩
  | case8 c cs ih =>
    have inner := ih closed
    by_cases feed : c = '\n'
    · rw [if_pos feed] at inner ⊢
      exact ⟨[], c :: (scanLayout hash .gap cs).text, rfl, List.not_mem_nil, by simpa using feed,
        .white (by rw [feed]; decide) inner⟩
    · rw [if_neg feed] at inner ⊢
      obtain ⟨body, more, eq, inLine, next, layout⟩ := inner
      refine ⟨c :: body, more, ?_, ?_, next, layout⟩
      · simp only [Scan.behind, eq, List.cons_append, List.nil_append]
      · exact List.not_mem_cons_of_ne_of_not_mem (fun same => feed same.symm) inLine
  | case9 read => exact fun positive => absurd closed (Nat.pos_iff_ne_zero.mp positive)
  | case10 read cs ih =>
    exact fun _ => ⟨[], (scanLayout hash .gap cs).text, rfl, by simp, ih closed⟩
  | case11 read c cs noEnd ih =>
    intro _
    obtain ⟨body, more, eq, open_, layout⟩ := ih closed (Nat.succ_pos read)
    refine ⟨c :: body, more, ?_, ?_, layout⟩
    · simp only [Scan.behind, eq, List.cons_append, List.nil_append]
    -- The comment would have ended at a star in front of `body` if a slash began it.
    · intro closes
      rcases List.infix_cons_iff.mp closes with here | later
      · obtain ⟨rfl, slash⟩ := List.cons_prefix_cons.mp here
        obtain ⟨tail, rfl⟩ := slash
        have whole := scanLayout_splits hash (.block (read + 1)) cs
        rw [Scan.Splits, eq] at whole
        exact noEnd _ rfl whole.symm
      · exact open_ later

/-- A gap alone is read as layout without a token. -/
theorem tokenize_gap {rules : LexicalRules} {gap : List Char}
    (layout : scanLayout rules.hashComments .gap gap = ⟨0, gap, []⟩) :
    tokenize rules (String.ofList gap) =
      .ok [⟨.eof, "", ⟨endOfText gap, endOfText gap⟩⟩] := by
  have next : nextToken rules (.ofText gap) =
      (.ok ⟨.eof, "", ⟨endOfText gap, endOfText gap⟩⟩, ⟨endOfText gap, []⟩) := by
    simp only [nextToken, Cursor.ofText, layout]
    rfl
  have lexes : Lexes rules (.ofText (String.ofList gap).toList) [] _ :=
    .eof (by rwa [String.toList_ofList]) rfl
  exact lexes.tokenize

/-- The stretches in front of each of some tokens, the first one from `p` on. -/
def gapsFrom : Position → List Token → List Span
  | _, [] => []
  | p, t :: tokens => ⟨p, t.span.start⟩ :: gapsFrom t.span.stop tokens

section

variable {rules : LexicalRules} {text : List Char}

/-- Behind a token the lexer stands in the text. -/
theorem Cut.on {c after : Cursor} {t : Token} {layout written : List Char}
    (cut : Cut rules c after t layout written) (on : c.On text) : after.On text := by
  have on' := on.afterAll (a := layout ++ written) (by rw [cut.rest, List.append_assoc])
  rwa [← cut.place] at on'

theorem Cut.stop {c after : Cursor} {t : Token} {layout written : List Char}
    (cut : Cut rules c after t layout written) : t.span.stop = after.position := by
  rw [cut.span, cut.place]

/-- A layout in front of a token is what the text holds there. -/
theorem Cut.slice_gap {c after : Cursor} {t : Token} {layout written : List Char}
    (cut : Cut rules c after t layout written) (on : c.On text) :
    sliceBytes text c.position.offset t.span.start.offset = some layout := by
  rw [cut.span]
  exact on.slice cut.rest

theorem Cut.snippet_gap {text : String} {c after : Cursor} {t : Token} {layout written : List Char}
    (cut : Cut rules c after t layout written) (on : c.On text.toList) :
    Span.snippet ⟨c.position, t.span.start⟩ text = String.ofList layout := by
  rw [Span.snippet, Span.snippet?, cut.slice_gap on, Option.map_some, Option.getD_some]

/-- A token is what the text holds between its places. -/
theorem Cut.slice_text {c after : Cursor} {t : Token} {layout written : List Char}
    (cut : Cut rules c after t layout written) (on : c.On text) :
    sliceBytes text t.span.start.offset t.span.stop.offset = some written := by
  rw [cut.span, Position.afterAll_append]
  exact (on.afterAll cut.rest).slice rfl

/-- What holds at the end of a text, and in front of a token if it holds behind it, holds of all tokens
of a text. -/
theorem Lexes.cuts {motive : Cursor → List Token → Prop}
    (last : ∀ {c after : Cursor} {t : Token} {layout : List Char}, Cut rules c after t layout [] →
      t.kind = .eof → after.rest = [] → motive c [t])
    (token : ∀ {c after : Cursor} {t : Token} {layout written : List Char} {tokens : List Token},
      Cut rules c after t layout written → t.kind ≠ .eof → written ≠ [] → motive after tokens →
      motive c (t :: tokens))
    {c : Cursor} {front : List Token} {eof : Token} (lexes : Lexes rules c front (.ok eof)) :
    motive c (front ++ [eof]) := by
  generalize same : Except.ok eof = stop at lexes
  induction lexes with
  | eof next isEof =>
    cases same
    obtain ⟨layout, written, cut⟩ := nextToken_cut next
    obtain ⟨rfl, rest⟩ := cut.ends (by simpa [Token.isEof] using isEof)
    exact last cut (by simpa [Token.isEof] using isEof) rest
  | fault => cases same
  | @token c after t tokens stop next notEof _ ih =>
    obtain ⟨layout, written, cut⟩ := nextToken_cut next
    have kind : t.kind ≠ .eof := by simpa [Token.isEof] using notEof
    exact token cut kind (cut.takes kind) (ih same)

variable {c : Cursor} {front : List Token} {eof : Token}

/-- Every token is what the text holds between its places. -/
theorem Lexes.texts (lexes : Lexes rules c front (.ok eof)) (on : c.On text) :
    ∀ t ∈ front ++ [eof],
      sliceBytes text t.span.start.offset t.span.stop.offset = some t.text.toList := by
  refine lexes.cuts (motive := fun c tokens => c.On text → ∀ t ∈ tokens,
    sliceBytes text t.span.start.offset t.span.stop.offset = some t.text.toList) ?_ ?_ on
  · intro c after t layout cut _ _ on
    simp [cut.slice_text on, cut.written]
  · intro c after t layout written tokens cut _ _ ih on
    refine List.forall_mem_cons.mpr ⟨?_, ih (cut.on on)⟩
    simp [cut.slice_text on, cut.written]

/-- All that is read behind a place stands behind it. -/
theorem Lexes.start_le (lexes : Lexes rules c front (.ok eof)) :
    ∀ t ∈ front ++ [eof], c.position.offset ≤ t.span.start.offset := by
  refine lexes.cuts (motive := fun c tokens => ∀ t ∈ tokens,
    c.position.offset ≤ t.span.start.offset) ?_ ?_
  · intro c after t layout cut _ _
    simp [cut.span]
  · intro c after t layout written tokens cut _ _ ih
    refine List.forall_mem_cons.mpr ⟨by simp [cut.span], fun u mem => ?_⟩
    have behind := ih u mem
    simp only [cut.place, Position.afterAll_offset] at behind
    omega

/-- Tokens stand in the text one behind the other. -/
def Token.Precedes (a b : Token) : Prop :=
  a.span.start.offset < b.span.start.offset ∧ a.span.stop.offset ≤ b.span.start.offset

/-- No token stands before one that was read earlier. -/
theorem Lexes.precede (lexes : Lexes rules c front (.ok eof)) :
    (front ++ [eof]).Pairwise Token.Precedes := by
  induction front generalizing c with
  | nil => exact List.pairwise_singleton ..
  | cons t front ih =>
    cases lexes with
    | @token _ after _ _ _ next notEof rest =>
      obtain ⟨layout, written, cut⟩ := nextToken_cut next
      have size := byteSize_pos (cut.takes (by simpa [Token.isEof] using notEof))
      refine List.pairwise_cons.mpr ⟨fun u mem => ?_, ih rest⟩
      have behind := rest.start_le u mem
      simp only [Token.Precedes, cut.span, cut.place, Position.afterAll_offset,
        byteSize_append] at behind ⊢
      omega

/-- The end of a text stands behind its last character, and every other token takes characters. -/
theorem Lexes.ends (lexes : Lexes rules c front (.ok eof)) (on : c.On text) :
    eof = ⟨.eof, "", ⟨endOfText text, endOfText text⟩⟩ ∧ ∀ t ∈ front, t.kind ≠ .eof ∧ t.text ≠ "" := by
  induction front generalizing c with
  | nil =>
    cases lexes with
    | eof next isEof =>
      obtain ⟨layout, written, cut⟩ := nextToken_cut next
      have kind : eof.kind = .eof := by simpa [Token.isEof] using isEof
      obtain ⟨rfl, rest⟩ := cut.ends kind
      obtain ⟨read, whole, place⟩ := on
      have stop : c.position.afterAll layout = endOfText text := by
        rw [endOfText, ← whole, cut.rest, rest, place, Position.afterAll_append]
        simp
      obtain ⟨_, _, _⟩ := eof
      have span := cut.span
      have written := cut.written
      simp only [List.append_nil, stop] at kind span written
      subst kind span written
      exact ⟨rfl, by simp⟩
  | cons t front ih =>
    cases lexes with
    | token next notEof rest =>
      obtain ⟨layout, written, cut⟩ := nextToken_cut next
      have kind : t.kind ≠ .eof := by simpa [Token.isEof] using notEof
      obtain ⟨same, others⟩ := ih rest (cut.on on)
      exact ⟨same, List.forall_mem_cons.mpr ⟨⟨kind, by simpa [cut.written] using cut.takes kind⟩, others⟩⟩

/-- Between the tokens there is layout and nothing else. -/
theorem Lexes.gaps (lexes : Lexes rules c front (.ok eof)) (on : c.On text) :
    ∀ gap ∈ gapsFrom c.position (front ++ [eof]), ∃ layout,
      sliceBytes text gap.start.offset gap.stop.offset = some layout ∧
      scanLayout rules.hashComments .gap layout = ⟨0, layout, []⟩ := by
  refine lexes.cuts (motive := fun c tokens => c.On text → ∀ gap ∈ gapsFrom c.position tokens,
    ∃ layout, sliceBytes text gap.start.offset gap.stop.offset = some layout ∧
      scanLayout rules.hashComments .gap layout = ⟨0, layout, []⟩) ?_ ?_ on
  · intro c after t layout cut _ _ on
    exact List.forall_mem_singleton.mpr ⟨layout, cut.slice_gap on, cut.gap⟩
  · intro c after t layout written tokens cut _ _ ih on
    have later := ih (cut.on on)
    rw [← cut.stop] at later
    exact List.forall_mem_cons.mpr ⟨⟨layout, cut.slice_gap on, cut.gap⟩, later⟩

/-- The gaps and the tokens, put together again. -/
theorem Lexes.joined {text : String} (lexes : Lexes rules c front (.ok eof)) (on : c.On text.toList) :
    (List.zipWith (fun gap t => gap.snippet text ++ t.text) (gapsFrom c.position (front ++ [eof]))
      (front ++ [eof])).flatMap String.toList = c.rest := by
  refine lexes.cuts (motive := fun c tokens => c.On text.toList →
    (List.zipWith (fun gap t => gap.snippet text ++ t.text) (gapsFrom c.position tokens)
      tokens).flatMap String.toList = c.rest) ?_ ?_ on
  · intro c after t layout cut _ rest on
    simp [gapsFrom, cut.snippet_gap on, cut.written, cut.rest, rest]
  · intro c after t layout written tokens cut _ _ ih on
    have later := ih (cut.on on)
    rw [← cut.stop] at later
    simp [gapsFrom, cut.snippet_gap on, cut.written, later, cut.rest]

end

/-- Some tokens are all that a text holds but layout, and say where in the text they stand. -/
structure Lossless (rules : LexicalRules) (text : String) (tokens : List Token) : Prop where
  ends : ∃ front, tokens = front ++ [⟨.eof, "", ⟨endOfText text.toList, endOfText text.toList⟩⟩] ∧
    ∀ t ∈ front, t.kind ≠ .eof ∧ t.text ≠ ""
  texts : ∀ t ∈ tokens, t.span.snippet? text = some t.text
  ordered : tokens.Pairwise Token.Precedes
  gaps : ∀ gap ∈ gapsFrom .start tokens, ∃ layout, gap.snippet? text = some layout ∧
    Layout rules.hashComments layout.toList ∧
    ∃ eof, eof.kind = .eof ∧ tokenize rules layout = .ok [eof]
  whole : String.join (List.zipWith (fun gap t => gap.snippet text ++ t.text)
    (gapsFrom .start tokens) tokens) = text

/-- The tokens of a text, put together again with the layout between them, are the text. -/
theorem tokenize_lossless {rules : LexicalRules} {text : String} {tokens : List Token}
    (lexed : tokenize rules text = .ok tokens) : Lossless rules text tokens := by
  obtain ⟨front, eof, rfl, lexes⟩ := lexes_of_tokenize lexed
  have on := Cursor.on_ofText text.toList
  obtain ⟨last, others⟩ := lexes.ends on
  refine ⟨⟨front, by rw [last], others⟩, ?_, lexes.precede, ?_, ?_⟩
  · intro t mem
    rw [Span.snippet?, lexes.texts on t mem, Option.map_some, String.ofList_toList]
  · intro gap mem
    obtain ⟨layout, slice, read⟩ := lexes.gaps on gap mem
    have completes := scanLayout_completes (by rw [read] :
      (scanLayout rules.hashComments .gap layout).value = 0)
    rw [read] at completes
    refine ⟨String.ofList layout, by rw [Span.snippet?, slice, Option.map_some], ?_, _, rfl,
      tokenize_gap read⟩
    rwa [String.toList_ofList]
  · exact String.toList_inj.mp (String.toList_join.trans (lexes.joined on))

/-- A name with a quote in it, comments of every kind, and a string of a letter that takes two bytes. -/
theorem tokenize_lossless_comments : ∃ tokens,
    tokenize Dialect.mysql.lexical "`a``b`-- c\n+/* d */'é'#" = .ok tokens ∧
    Lossless Dialect.mysql.lexical "`a``b`-- c\n+/* d */'é'#" tokens := by
  have lexed : tokenize Dialect.mysql.lexical "`a``b`-- c\n+/* d */'é'#" =
    .ok [⟨.identifier "a`b", "`a``b`", ⟨⟨0, 1, 1⟩, ⟨6, 1, 7⟩⟩⟩,
      ⟨.plus, "+", ⟨⟨11, 2, 1⟩, ⟨12, 2, 2⟩⟩⟩, ⟨.string "é", "'é'", ⟨⟨19, 2, 9⟩, ⟨23, 2, 12⟩⟩⟩,
      ⟨.eof, "", ⟨⟨24, 2, 13⟩, ⟨24, 2, 13⟩⟩⟩] := rfl
  exact ⟨_, lexed, tokenize_lossless lexed⟩

end SqlTree
