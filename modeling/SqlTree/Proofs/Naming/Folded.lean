import SqlTree.Proofs.Lexing.Relabels
import SqlTree.Proofs.Naming.Alike
import SqlTree.Proofs.Naming.Statements
import SqlTree.Proofs.Reading.Moves

namespace SqlTree

/-- A text and one that agrees with it from an offset on, but for the case of letters at offsets that are
free. -/
inductive AgreesFrom (free : Nat → Prop) : Nat → List Char → List Char → Prop
  | nil {offset} : AgreesFrom free offset [] []
  | cons {offset c c' cs cs'} : SameLetter c c' → c' = c ∨ free offset →
      AgreesFrom free (offset + c.utf8Size) cs cs' → AgreesFrom free offset (c :: cs) (c' :: cs')

/-- An offset inside a word that stands among some tokens without quotes. -/
def InWord (tokens : List Token) (offset : Nat) : Prop :=
  ∃ t ∈ tokens, t.isUnquotedWord = true ∧ t.span.start.offset ≤ offset ∧ offset < t.span.stop.offset

instance (c c' : Char) : Decidable (SameLetter c c') :=
  inferInstanceAs (Decidable (c.toLower = c'.toLower))

instance (tokens : List Token) : DecidablePred (InWord tokens) := fun offset =>
  inferInstanceAs (Decidable (∃ t ∈ tokens, t.isUnquotedWord = true ∧ t.span.start.offset ≤ offset ∧
    offset < t.span.stop.offset))

instance decidableAgreesFrom (free : Nat → Prop) [DecidablePred free] :
    ∀ offset cs cs', Decidable (AgreesFrom free offset cs cs')
  | _, [], [] => isTrue .nil
  | _, [], _ :: _ => isFalse nofun
  | _, _ :: _, [] => isFalse nofun
  | offset, c :: cs, c' :: cs' =>
    have := decidableAgreesFrom free (offset + c.utf8Size) cs cs'
    decidable_of_iff (SameLetter c c' ∧ (c' = c ∨ free offset) ∧ AgreesFrom free (offset + c.utf8Size) cs cs')
      ⟨fun ⟨same, here, rest⟩ => .cons same here rest, fun | .cons same here rest => ⟨same, here, rest⟩⟩

/-- The second text has letters in other cases than the first, but only inside words of the first that stand
there without quotes. If the first text has a fault, its words are those in front of the fault. -/
def RecasesWords (rules : LexicalRules) (text text' : String) : Prop :=
  ∃ tokens stop, Lexes rules (.ofText text.toList) tokens stop ∧
    AgreesFrom (InWord tokens) 0 text.toList text'.toList

namespace AgreesFrom

variable {free free' : Nat → Prop} {offset : Nat} {cs cs' a b : List Char}

/-- Such texts agree up to the case of their letters. -/
theorem sameLetters (agrees : AgreesFrom free offset cs cs') : List.Forall₂ SameLetter cs cs' := by
  induction agrees with
  | nil => exact .nil
  | cons same _ _ ih => exact .cons same ih

theorem mono (agrees : AgreesFrom free offset cs cs')
    (less : ∀ o, offset ≤ o → free o → free' o) : AgreesFrom free' offset cs cs' := by
  induction agrees with
  | nil => exact .nil
  | cons same here _ ih =>
    refine .cons same (here.imp_right (less _ (Nat.le_refl _))) (ih fun o le => less o ?_)
    omega

/-- A text that agrees with another one is cut where that one is. -/
theorem split (agrees : AgreesFrom free offset (a ++ b) cs') :
    ∃ a' b', cs' = a' ++ b' ∧ AgreesFrom free offset a a' ∧
      AgreesFrom free (offset + byteSize a) b b' := by
  induction a generalizing offset cs' with
  | nil => exact ⟨[], cs', rfl, .nil, agrees⟩
  | cons c a ih =>
    cases agrees with
    | cons same here rest =>
      obtain ⟨a', b', rfl, front, back⟩ := ih rest
      refine ⟨_ :: a', b', rfl, .cons same here front, ?_⟩
      rwa [byteSize_cons, ← Nat.add_assoc]

/-- Nothing differs where nothing is free. -/
theorem eq (agrees : AgreesFrom free offset cs cs')
    (fixed : ∀ o, offset ≤ o → o < offset + byteSize cs → ¬ free o) : cs' = cs := by
  induction agrees with
  | nil => rfl
  | @cons offset c c' cs cs' same here _ ih =>
    have size := c.utf8Size_pos
    simp only [byteSize_cons] at fixed
    obtain rfl := here.resolve_right (fixed offset (Nat.le_refl _) (by omega))
    rw [ih fun o le lt => fixed o (by omega) (by omega)]

end AgreesFrom

/-- Letters in other cases may stand in the place of what follows. -/
theorem Replaces.of_sameLetters {kept rest : List Char} (same : List.Forall₂ SameLetter rest kept) :
    Replaces SameLetter kept rest := by
  induction same with
  | nil => exact .nil
  | cons first _ ih => exact .cons first ih

theorem recasing_sameLetter : Recasing SameLetter := ⟨.refl, id⟩

/-- No letter is a quote. -/
theorem Dialect.keeps_of_builtin {d : Dialect} (builtin : d ∈ Dialect.builtin) :
    d.lexical.Keeps SameLetter := by
  have each : ∀ d ∈ Dialect.builtin, (∀ q ∈ d.lexical.identifierQuotes, q.2.isAlpha = false) ∧
      d.lexical.stringQuotes.all (!·.isAlpha) = true := by decide
  obtain ⟨names, strings⟩ := each d builtin
  refine ⟨recasing_sameLetter, fun {opening closing c c'} found same => ?_, fun {quote c c'} found same => ?_⟩
  · obtain ⟨before, behind, split, -⟩ := List.lookup_eq_some_iff.mp found
    exact (same.eq_iff (names (opening, closing) (by rw [split]; simp))).mp
  · have noLetter := List.all_eq_true.mp strings quote (List.contains_iff_mem.mp found)
    exact (same.eq_iff (Bool.not_eq_true' _ |>.mp noLetter)).mp

section

variable {rules : LexicalRules} {c after : Cursor} {t : Token} {tokens : List Token} {w w' : String}

/-- A word in other cases can be read without quotes if the word can. -/
theorem isBareWord_of_sameWord (same : sameWord w w' = true) : isBareWord w' = isBareWord w := by
  have letters := sameWord_iff_sameLetters.mp same
  rw [isBareWord, isBareWord]
  generalize w.toList = cs at letters
  generalize w'.toList = cs' at letters
  cases letters with
  | nil => rfl
  | @cons c c' _ _ first others =>
    have alphabetic : isAlphabetic c' = isAlphabetic c := first.test fun _ => isAlphabetic_of_isAlpha
    have underscore : (c' == '_') = (c == '_') := Bool.eq_iff_iff.mpr (by simpa using first.eq_iff rfl)
    dsimp only
    rw [alphabetic, underscore]
    congr 1
    induction others with
    | nil => rfl
    | cons next _ ih => rw [List.all_cons, List.all_cons, ih, recasing_sameLetter.isWordChar next]

/-- A word in other cases is the same keyword, or a name in other cases. -/
theorem KeywordTable.recased_label (table : KeywordTable) (same : sameWord w w' = true) (span : Span) :
    Token.Recased ⟨table.label w, w, span⟩ ⟨table.label w', w', span⟩ := by
  unfold KeywordTable.label
  rw [← Keyword.ofWord?_eq_of_sameWord same]
  cases Keyword.ofWord? w with
  | none => exact .name same
  | some k =>
    dsimp only
    split
    · exact .keyword same
    · exact .name same

/-- A word is read as the same word in other cases, if what follows it may stand for what followed it. -/
theorem scanToken_recased (standard : rules.Standard) {text text' behind kept : List Char}
    (word : isBareWord (String.ofList text) = true)
    (scan : scanToken rules (text ++ behind) =
      ⟨.ok (Sign.bare rules (String.ofList text)).kind, text, behind⟩)
    (same : List.Forall₂ SameLetter text text') (replaces : Replaces SameLetter kept behind) :
    scanToken rules (text' ++ kept) =
      ⟨.ok (Sign.bare rules (String.ofList text')).kind, text', kept⟩ := by
  have words : sameWord (String.ofList text) (String.ofList text') = true := by
    rwa [sameWord_iff_sameLetters, String.toList_ofList, String.toList_ofList]
  obtain ⟨stops, noBlob⟩ := (scanToken_bare_iff standard word).mp
    (by rwa [String.toList_ofList] : scanToken rules (_ ++ behind) = _)
  suffices reads : scanToken rules ((String.ofList text').toList ++ kept) =
      ⟨.ok (Sign.bare rules (String.ofList text')).kind, (String.ofList text').toList, kept⟩ by
    rwa [String.toList_ofList] at reads
  refine (scanToken_bare_iff standard ((isBareWord_of_sameWord words).trans word)).mpr
    ⟨fun c first => ?_, fun ⟨letter, quote⟩ => noBlob ⟨?_, ?_⟩⟩
  · cases replaces with
    | nil => cases first
    | cons related =>
      obtain rfl := Option.some.inj first
      rw [recasing_sameLetter.isWordChar related]
      exact stops _ rfl
  · rwa [← sameWord_congr words]
  · exact replaces.head? recasing_sameLetter rfl quote

theorem Token.Recased.isEof {t' : Token} (recased : t.Recased t') : t'.isEof = t.isEof := by
  cases recased <;> rfl

/-- Which offsets are inside words, in front of a token, in it and behind it. -/
theorem inWord_cons {offset : Nat} (ordered : Ordered offset (t :: tokens)) :
    (∀ o, o < t.span.start.offset → ¬ InWord (t :: tokens) o) ∧
      (t.isUnquotedWord = false → ∀ o, o < t.span.stop.offset → ¬ InWord (t :: tokens) o) ∧
      ∀ o, t.span.stop.offset ≤ o → InWord (t :: tokens) o → InWord tokens o := by
  obtain ⟨-, size, behind⟩ := ordered
  have later {u : Token} (mem : u ∈ tokens) : t.span.stop.offset ≤ u.span.start.offset :=
    (behind.bounds mem).1
  refine ⟨fun o before => ?_, fun noWord o before => ?_, fun o le => ?_⟩
  · rintro ⟨u, mem, word, start, -⟩
    rcases List.mem_cons.mp mem with rfl | mem
    · omega
    · have := later mem
      omega
  · rintro ⟨u, mem, word, start, -⟩
    rcases List.mem_cons.mp mem with rfl | mem
    · rw [noWord] at word
      cases word
    · have := later mem
      omega
  · rintro ⟨u, mem, word, start, stop⟩
    rcases List.mem_cons.mp mem with rfl | mem
    · omega
    · exact ⟨u, mem, word, start, stop⟩

/-- One token is read as the same token, or as the same word in other cases, and what follows agrees with
what followed it. -/
theorem nextToken_recased (standard : rules.Standard) (keeps : rules.Keeps SameLetter)
    (next : nextToken rules c = (.ok t, after)) (ordered : Ordered c.position.offset (t :: tokens))
    {cs' : List Char} (agrees : AgreesFrom (InWord (t :: tokens)) c.position.offset c.rest cs') :
    ∃ t' rest', nextToken rules ⟨c.position, cs'⟩ = (.ok t', ⟨after.position, rest'⟩) ∧ t.Recased t' ∧
      AgreesFrom (InWord tokens) after.position.offset after.rest rest' := by
  have found := next
  obtain ⟨kind, layout, text, rest, behind, layoutScan, tokenScan, rfl, rfl⟩ := nextToken_scans next
  have outer := scanLayout_splits rules.hashComments .gap c.rest
  have inner := scanToken_splits rules rest
  simp only [Scan.Splits, layoutScan, tokenScan] at outer inner
  subst inner
  rw [← outer] at agrees
  obtain ⟨layout', _, rfl, gap, agrees⟩ := agrees.split
  obtain ⟨text', rest', rfl, written, agrees⟩ := agrees.split
  obtain ⟨inFront, inside, behindIt⟩ := inWord_cons ordered
  simp only [Position.afterAll_offset] at inFront inside behindIt
  obtain rfl := gap.eq fun o _ before => inFront o before
  have replaces := Replaces.of_sameLetters agrees.sameLetters
  have agrees' := agrees.mono behindIt
  cases word : Token.isUnquotedWord ⟨kind, String.ofList text, _⟩ with
  | false =>
    obtain rfl := written.eq fun o _ before => inside word o before
    have next' := nextToken_followed keeps layoutScan tokenScan (.inl rfl) replaces c.position
    rw [Position.afterAll_append] at next'
    exact ⟨_, rest', next', .same _, by simpa using agrees'⟩
  | true =>
    obtain ⟨letters, label⟩ := nextToken_label found word
    dsimp only at letters label
    have scan' := scanToken_recased standard letters
      (by rw [Sign.bare_kind_eq_label, ← label, tokenScan]) written.sameLetters replaces
    have layoutScan' := scanLayout_followed recasing_sameLetter layoutScan (.inl rfl)
      (.of_sameLetters (List.rel_append written.sameLetters agrees.sameLetters))
    have words : sameWord (String.ofList text) (String.ofList text') = true := by
      rw [sameWord_iff_sameLetters, String.toList_ofList, String.toList_ofList]
      exact written.sameLetters
    have recased := rules.keywords.recased_label words
      ⟨c.position.afterAll layout', (c.position.afterAll layout').afterAll text⟩
    rw [← label] at recased
    refine ⟨_, rest', ?_, recased, by simpa using agrees'⟩
    simp only [nextToken, layoutScan', scan', if_true, Sign.bare_kind_eq_label,
      Position.afterAll_sameLetters written.sameLetters]

/-- The tokens of a text with words in other cases. -/
theorem Lexes.recased (standard : rules.Standard) (keeps : rules.Keeps SameLetter)
    {stop : Except LexError Token} (lexes : Lexes rules c tokens stop) {cs' : List Char}
    (agrees : AgreesFrom (InWord tokens) c.position.offset c.rest cs') :
    ∃ tokens', Lexes rules ⟨c.position, cs'⟩ tokens' stop ∧ List.Forall₂ Token.Recased tokens tokens' := by
  induction lexes generalizing cs' with
  | eof next isEof =>
    obtain rfl := agrees.eq fun _ _ _ ⟨_, mem, _⟩ => by cases mem
    exact ⟨[], .eof next isEof, .nil⟩
  | fault next =>
    obtain rfl := agrees.eq fun _ _ _ ⟨_, mem, _⟩ => by cases mem
    exact ⟨[], .fault next, .nil⟩
  | token next notEof rest ih =>
    obtain ⟨t', rest', next', recased, agrees'⟩ := nextToken_recased standard keeps next
      (Lexes.token next notEof rest).ordered agrees
    obtain ⟨tokens', lexes', others⟩ := ih agrees'
    exact ⟨t' :: tokens', .token next' (recased.isEof.trans notEof) lexes', .cons recased others⟩

end

/-- The same name at the same place, perhaps with letters in other cases if no quotes stand around it. -/
structure Ident.Folds (i i' : Ident) : Prop where
  quoted : i'.quoted = i.quoted
  span : i'.span = i.span
  value : sameWord i.value i'.value = true
  kept : i.quoted = true → i'.value = i.value

/-- Tokens that are the same but for the case of a word, and names that are. -/
def Naming.folding : Naming where
  token := Token.Recased
  name := Ident.Folds
  function := Ident.Folds
  word := Ident.Folds
  recased := id
  name_of := by
    rintro _ _ value value' (⟨t⟩ | _ | same) kind kind'
    · obtain rfl := TokenKind.identifier.inj (kind.symm.trans kind')
      exact ⟨rfl, rfl, sameWord_refl value, fun _ => rfl⟩
    · cases kind
    · cases kind
      cases kind'
      exact ⟨by simp [Token.isQuoted], rfl, same, fun quoted => by simp [Token.isQuoted] at quoted⟩
  sameWord_of_name := Ident.Folds.value
  function_of_name := id
  function_of_word recased _ _ := ⟨rfl, recased.span, recased.text, nofun⟩
  word_of recased _ := ⟨rfl, recased.span, recased.text, nofun⟩

/-- Words are told apart up to the case of their letters only. Two texts that differ in it at most are both
parsed, as models that are the same but for the case of names without quotes, of named parameters and of
types as they are written; or neither is, and the errors are of one kind at one place and expect the same. -/
theorem Dialect.parse_recased {d : Dialect} (builtin : d ∈ Dialect.builtin) (kind : ModelKind)
    {text text' : String} (recases : RecasesWords d.lexical text text') :
    AnalysisOutcome.Alike .folding (d.parse kind text) (d.parse kind text') := by
  obtain ⟨tokens, stop, lexes, agrees⟩ := recases
  obtain ⟨tokens', lexes', recased⟩ :=
    lexes.recased (Dialect.standard_of_builtin builtin) (Dialect.keeps_of_builtin builtin) agrees
  exact d.parse_alike kind lexes lexes' agrees.sameLetters recased fun eof _ => .same eof

/-- A word in other cases, but not what stands between quotes. -/
theorem recasesWords_or : RecasesWords Dialect.sqlite.lexical "a or \"b\"" "A oR \"b\"" := by
  have lexed : tokenize Dialect.sqlite.lexical "a or \"b\"" =
      .ok ([⟨.identifier "a", "a", ⟨⟨0, 1, 1⟩, ⟨1, 1, 2⟩⟩⟩, ⟨.keyword .OR, "or", ⟨⟨2, 1, 3⟩, ⟨4, 1, 5⟩⟩⟩,
        ⟨.identifier "b", "\"b\"", ⟨⟨5, 1, 6⟩, ⟨8, 1, 9⟩⟩⟩] ++ [⟨.eof, "", ⟨⟨8, 1, 9⟩, ⟨8, 1, 9⟩⟩⟩]) := by
    rfl
  obtain ⟨front, eof, split, lexes⟩ := lexes_of_tokenize lexed
  obtain ⟨rfl, -⟩ := List.append_inj' split.symm rfl
  exact ⟨_, _, lexes, by decide⟩

theorem Dialect.sqlite_or_recased : Dialect.sqlite ∈ Dialect.builtin ∧
    RecasesWords Dialect.sqlite.lexical "a or \"b\"" "A oR \"b\"" ∧
    AnalysisOutcome.Alike .folding (Dialect.sqlite.parse .expression "a or \"b\"")
      (Dialect.sqlite.parse .expression "A oR \"b\"") :=
  ⟨by decide, recasesWords_or, Dialect.parse_recased (by decide) .expression recasesWords_or⟩

end SqlTree
