import SqlTree.Dialect.Builtin
import SqlTree.Proofs.Writing.Solid

namespace SqlTree

def isHexDigit (c : Char) : Bool := (hexValue? c).isSome

/-- What stands between the quotes of a blob that can be read up to its end. -/
def IsHexBody (body : List Char) : Prop := ∀ c ∈ body, isHexDigit c = true ∨ isWhiteSpace c = true

/-- The bytes stand in a body one after the other, with two digits each in whatever case, and with white
space in whatever places. -/
def WritesBytes (bytes : List UInt8) (body : List Char) : Prop :=
  (body.filter (!isWhiteSpace ·)).map Char.toLower = (digitsOfBytes bytes).map Nat.digitChar

/-- The bytes of digits taken two by two, where pairs that make no byte and a digit without another would
be left out. -/
def bytesOfHex : List Char → List UInt8
  | high :: low :: digits =>
    match hexValue? high, hexValue? low with
    | some high, some low => (16 * high + low).toUInt8 :: bytesOfHex digits
    | _, _ => bytesOfHex digits
  | _ => []

theorem hexValue?_ascii {c : Char} {n : Nat} (value : hexValue? c = some n) : c.toNat < 128 := by
  by_contra high
  have none : hexValue? c = none := by
    simp only [hexValue?, Char.isDigit, Char.le_def, UInt32.le_iff_toNat_le, Char.toNat_val] at high ⊢
    grind
  rw [none] at value
  cases value

/-- A digit is known by its small letter. -/
theorem hexValue?_eq_some {c : Char} {n : Nat} :
    hexValue? c = some n ↔ n < 16 ∧ c.toLower = n.digitChar := by
  have table : ∀ m < 128, (hexValue? (Char.ofNat m)).all (fun n =>
      n < 16 && (Char.ofNat m).toLower == n.digitChar) = true := by
    decide +kernel
  have back : ∀ n < 16, hexValue? n.digitChar = some n ∧ hexValue? n.digitChar.toUpper = some n := by
    decide
  constructor
  · intro value
    have known := table c.toNat (hexValue?_ascii value)
    simpa [value] using known
  · rintro ⟨small, lower⟩
    rcases (SameLetter.refl c).eq_toLower_or_eq_toUpper with self | capital
    · rw [self, lower]
      exact (back n small).1
    · rw [capital, ← (SameLetter.toLower c).toUpper_eq, lower]
      exact (back n small).2

/-- White space is no digit. -/
theorem hexValue?_of_isWhiteSpace {c : Char} (white : isWhiteSpace c = true) : hexValue? c = none := by
  have none : isHexDigit c = false := eq_false_of_isWhiteSpace (by decide +kernel) white
  simpa [isHexDigit] using none

/-- A digit of a blob is one of sixteen, in either case. -/
theorem isHexDigit_iff {c : Char} : isHexDigit c = true ↔ ∃ n < 16, c.toLower = n.digitChar := by
  simp only [isHexDigit, Option.isSome_iff_exists, hexValue?_eq_some]

theorem isHexDigit_quote : isHexDigit '\'' = false := by decide

theorem isWhiteSpace_quote : isWhiteSpace '\'' = false := by decide

section

variable {rules : LexicalRules} {body rest : List Char} {bytes : List UInt8} {x c : Char}

theorem IsHexBody.tail (hex : IsHexBody (c :: body)) : IsHexBody body :=
  fun d mem => hex d (List.mem_cons_of_mem _ mem)

/-- A body is read through, whatever comes behind it. -/
theorem IsHexBody.scan (hex : IsHexBody body) (rest : List Char) :
    scanHexDigits (body ++ rest) =
      (scanHexDigits rest).behind body (·.map (body.filterMap hexValue? ++ ·)) := by
  induction body with
  | nil =>
    rw [List.nil_append]
    rcases scanHexDigits rest with ⟨value, text, rest⟩
    cases value <;> rfl
  | cons c body ih =>
    have noQuote : c ≠ '\'' := by
      rintro rfl
      have known := hex _ List.mem_cons_self
      rw [isHexDigit_quote, isWhiteSpace_quote] at known
      simp at known
    rw [List.cons_append, scanHexDigits, if_neg noQuote, ih hex.tail]
    rcases hex c List.mem_cons_self with digit | white
    · obtain ⟨n, value⟩ := Option.isSome_iff_exists.mp digit
      cases inner : (scanHexDigits rest).value <;> simp [Scan.behind, value, inner, Except.map]
    · simp [Scan.behind, white, hexValue?_of_isWhiteSpace white]

/-- Of an odd number of digits no bytes are made. -/
theorem bytesOfDigits?_eq_none {digits : List Nat} (odd : digits.length % 2 = 1) :
    bytesOfDigits? digits = none := by
  fun_induction bytesOfDigits? digits with
  | case1 => cases odd
  | case2 => rfl
  | case3 high low digits ih =>
    simp only [List.length_cons] at odd
    rw [ih (by omega), Option.map_none]

theorem length_filterMap_hexValue? (body : List Char) :
    (body.filterMap hexValue?).length = (body.filter isHexDigit).length := by
  induction body with
  | nil => rfl
  | cons c body ih => cases value : hexValue? c <;> simp [isHexDigit, value] <;> exact ih

/-- Without its white space, a body is what its digits write, up to the case of the letters. -/
theorem IsHexBody.lower (hex : IsHexBody body) :
    (body.filter (!isWhiteSpace ·)).map Char.toLower = (body.filterMap hexValue?).map Nat.digitChar := by
  induction body with
  | nil => rfl
  | cons c body ih =>
    by_cases white : isWhiteSpace c = true
    · simpa [white, hexValue?_of_isWhiteSpace white] using ih hex.tail
    · obtain ⟨n, value⟩ := Option.isSome_iff_exists.mp ((hex c List.mem_cons_self).resolve_right white)
      simpa [white, value, (hexValue?_eq_some.mp value).2] using ih hex.tail

/-- What writes digits among white space is a body with the values of these digits. -/
theorem isHexBody_of_lower {digits : List Nat} (small : ∀ n ∈ digits, n < 16)
    (writes : (body.filter (!isWhiteSpace ·)).map Char.toLower = digits.map Nat.digitChar) :
    IsHexBody body ∧ body.filterMap hexValue? = digits := by
  induction body generalizing digits with
  | nil =>
    obtain rfl := List.map_eq_nil_iff.mp writes.symm
    exact ⟨fun _ mem => absurd mem List.not_mem_nil, rfl⟩
  | cons c body ih =>
    by_cases white : isWhiteSpace c = true
    · obtain ⟨hex, values⟩ := ih small (by simpa [white] using writes)
      exact ⟨List.forall_mem_cons.mpr ⟨.inr white, hex⟩, by simpa [hexValue?_of_isWhiteSpace white]⟩
    · simp only [List.filter_cons, white, Bool.not_false, if_true, List.map_cons] at writes
      obtain ⟨n, rest, rfl, lower, later⟩ := List.map_eq_cons_iff.mp writes.symm
      obtain ⟨first, others⟩ := List.forall_mem_cons.mp small
      have value := hexValue?_eq_some.mpr ⟨first, lower.symm⟩
      obtain ⟨hex, values⟩ := ih others later.symm
      have digit : isHexDigit c = true := isHexDigit_iff.mpr ⟨n, first, lower.symm⟩
      exact ⟨List.forall_mem_cons.mpr ⟨.inl digit, hex⟩, by simp [value, values]⟩

/-- Bytes stand in a body if their digits do, among nothing but white space. -/
theorem writesBytes_iff :
    WritesBytes bytes body ↔ IsHexBody body ∧ body.filterMap hexValue? = digitsOfBytes bytes := by
  constructor
  · exact isHexBody_of_lower (lt_of_mem_digitsOfBytes bytes)
  · rintro ⟨hex, values⟩
    rw [WritesBytes, hex.lower, values]

theorem digitsOfBytes_cons (b : UInt8) (bytes : List UInt8) :
    digitsOfBytes (b :: bytes) = b.toNat / 16 :: b.toNat % 16 :: digitsOfBytes bytes := rfl

/-- Digits of which none is left over are the digits of some bytes. -/
theorem exists_bytesOfDigits? {digits : List Nat} (small : ∀ n ∈ digits, n < 16)
    (even : digits.length % 2 = 0) : ∃ bytes, digitsOfBytes bytes = digits := by
  fun_induction bytesOfDigits? digits with
  | case1 => exact ⟨[], rfl⟩
  | case2 => cases even
  | case3 high low digits ih =>
    simp only [List.forall_mem_cons] at small
    obtain ⟨highSmall, lowSmall, others⟩ := small
    obtain ⟨bytes, rfl⟩ := ih others (by simp only [List.length_cons] at even; omega)
    refine ⟨(16 * high + low).toUInt8 :: bytes, ?_⟩
    have whole : (16 * high + low).toUInt8.toNat = 16 * high + low := by
      rw [Nat.toUInt8_eq, UInt8.toNat_ofNat']
      omega
    rw [digitsOfBytes_cons, whole]
    congr 2 <;> omega

/-- Each byte has two digits. -/
theorem length_digitsOfBytes (bytes : List UInt8) : (digitsOfBytes bytes).length = 2 * bytes.length := by
  induction bytes with
  | nil => rfl
  | cons b bytes ih =>
    rw [digitsOfBytes_cons, List.length_cons, List.length_cons, List.length_cons, ih]
    omega

/-- Taken two by two, the digits of bytes give the bytes, and nothing is left out. -/
theorem bytesOfHex_eq {digits : List Char} (values : digits.map hexValue? = (digitsOfBytes bytes).map some) :
    bytesOfHex digits = bytes := by
  induction bytes generalizing digits with
  | nil =>
    obtain rfl := List.map_eq_nil_iff.mp values
    rfl
  | cons b bytes ih =>
    rw [digitsOfBytes_cons, List.map_cons, List.map_cons] at values
    obtain ⟨high, _, rfl, first, values⟩ := List.map_eq_cons_iff.mp values
    obtain ⟨low, rest, rfl, second, values⟩ := List.map_eq_cons_iff.mp values
    have whole : (16 * (b.toNat / 16) + b.toNat % 16).toUInt8 = b := by
      rw [Nat.div_add_mod]
      exact UInt8.ofNat_toNat
    simp only [bytesOfHex, first, second, whole, ih values]

theorem map_filter_isHexDigit (body : List Char) :
    (body.filter isHexDigit).map hexValue? = (body.filterMap hexValue?).map some := by
  induction body with
  | nil => rfl
  | cons c body ih => cases value : hexValue? c <;> simpa [isHexDigit, value] using ih

/-- Every body of which no digit is left over writes bytes: those of its digits taken two by two. -/
theorem IsHexBody.writes (hex : IsHexBody body) (even : (body.filter isHexDigit).length % 2 = 0) :
    WritesBytes (bytesOfHex (body.filter isHexDigit)) body ∧
      2 * (bytesOfHex (body.filter isHexDigit)).length = (body.filter isHexDigit).length := by
  have small : ∀ n ∈ body.filterMap hexValue?, n < 16 := by
    intro n mem
    obtain ⟨c, -, value⟩ := List.mem_filterMap.mp mem
    exact (hexValue?_eq_some.mp value).1
  rw [← length_filterMap_hexValue?] at even ⊢
  obtain ⟨bytes, digits⟩ := exists_bytesOfDigits? small even
  have same : bytesOfHex (body.filter isHexDigit) = bytes := by
    refine bytesOfHex_eq ?_
    rw [map_filter_isHexDigit, digits]
  rw [same, ← digits, length_digitsOfBytes]
  exact ⟨writesBytes_iff.mpr ⟨hex, digits.symm⟩, rfl⟩

/-- What the lexer makes of a text that begins with the letter and the opening quote of a blob. -/
theorem nextToken_blobOpening (standard : rules.Standard) (letter : x = 'X' ∨ x = 'x') (cs : List Char)
    (p : Position) : nextToken rules ⟨p, x :: '\'' :: cs⟩ =
      let scan := scanBlob [x, '\''] cs
      (match scan.value with
        | .ok kind => .ok ⟨kind, String.ofList scan.text, ⟨p, p.afterAll scan.text⟩⟩
        | .error fault => .error ⟨fault.kind, p.afterAll (scan.text.take fault.before)⟩,
      ⟨p.afterAll scan.text, scan.rest⟩) := by
  have plain : isWhiteSpace x = false ∧ x ∉ signChars := by
    rcases letter with rfl | rfl <;> decide
  have token : scanToken rules (x :: '\'' :: cs) = scanBlob [x, '\''] cs := by
    rw [scanToken_plain standard plain.2, if_pos ⟨letter, rfl⟩]
    rfl
  unfold nextToken
  rw [scanLayout_plain plain.1 plain.2]
  dsimp only [Position.afterAll_nil]
  rewrite [if_pos rfl, token]
  cases (scanBlob [x, '\''] cs).value
  · rfl
  · rfl

end

/-- In the built-in dialects the bytes that stand in hexadecimal digits between the quotes of a blob are
read from it, whatever follows; no digit is left out. A body with an odd number of digits, one that is
broken by another character, and one that never ends are errors where the blob begins. -/
theorem Dialect.blob_read {d : Dialect} (builtin : d ∈ Dialect.builtin) {x : Char}
    (letter : x = 'X' ∨ x = 'x') (body following : List Char) (p : Position) :
    (∀ bytes, WritesBytes bytes body →
      nextToken d.lexical ⟨p, x :: '\'' :: (body ++ '\'' :: following)⟩ =
        (.ok ⟨.blob bytes, String.ofList (x :: '\'' :: (body ++ ['\''])),
            ⟨p, p.afterAll (x :: '\'' :: (body ++ ['\'']))⟩⟩,
          ⟨p.afterAll (x :: '\'' :: (body ++ ['\''])), following⟩)) ∧
    (IsHexBody body →
      ((body.filter isHexDigit).length % 2 = 0 → WritesBytes (bytesOfHex (body.filter isHexDigit)) body ∧
        2 * (bytesOfHex (body.filter isHexDigit)).length = (body.filter isHexDigit).length) ∧
      ((body.filter isHexDigit).length % 2 = 1 →
        (nextToken d.lexical ⟨p, x :: '\'' :: (body ++ '\'' :: following)⟩).1 =
          .error ⟨.invalidBlob .oddDigits, p⟩) ∧
      (∀ c, isHexDigit c = false → isWhiteSpace c = false → c ≠ '\'' →
        (nextToken d.lexical ⟨p, x :: '\'' :: (body ++ c :: following)⟩).1 =
          .error ⟨.invalidBlob .notHex, p⟩) ∧
      (nextToken d.lexical ⟨p, x :: '\'' :: body⟩).1 = .error ⟨.unterminatedBlob, p⟩) := by
  have standard := Dialect.standard_of_builtin builtin
  have closed (hex : IsHexBody body) : scanHexDigits (body ++ '\'' :: following) =
      ⟨.ok (body.filterMap hexValue?), body ++ ['\''], following⟩ := by
    rw [hex.scan, scanHexDigits, if_pos rfl]
    simp [Scan.behind, Except.map]
  refine ⟨fun bytes writes => ?_, fun hex => ⟨hex.writes, fun odd => ?_, ?_, ?_⟩⟩
  · obtain ⟨hex, digits⟩ := writesBytes_iff.mp writes
    rw [nextToken_blobOpening standard letter, scanBlob, closed hex, digits]
    simp only [Scan.behind, bytesOfDigits?_digitsOfBytes, List.cons_append, List.nil_append]
  · rw [← length_filterMap_hexValue?] at odd
    rw [nextToken_blobOpening standard letter, scanBlob, closed hex]
    simp only [Scan.behind, bytesOfDigits?_eq_none odd, List.take_zero, Position.afterAll_nil]
  · intro c noDigit noWhite noQuote
    have broken : hexValue? c = none := by simpa [isHexDigit] using noDigit
    rw [nextToken_blobOpening standard letter, scanBlob, hex.scan, scanHexDigits, if_neg noQuote, broken]
    simp only [noWhite, Scan.behind, Except.map]
    rfl
  · have open' := hex.scan []
    rw [List.append_nil] at open'
    rw [nextToken_blobOpening standard letter, scanBlob, open', scanHexDigits]
    rfl

/-- Two bytes in digits of both cases among white space, in front of a name; and a digit too many. -/
theorem Dialect.blob_read_mixed :
    (Dialect.sqlite ∈ Dialect.builtin ∧ ('x' = 'X' ∨ 'x' = 'x')) ∧
    (WritesBytes [0x0A, 0xFF] "0A f\tF ".toList ∧
      (nextToken Dialect.sqlite.lexical ⟨.start, "x'0A f\tF 'y".toList⟩).1 =
        .ok ⟨.blob [0x0A, 0xFF], "x'0A f\tF '", ⟨⟨0, 1, 1⟩, ⟨10, 1, 11⟩⟩⟩) ∧
    IsHexBody "0A f".toList ∧ ("0A f".toList.filter isHexDigit).length % 2 = 1 ∧
      (nextToken Dialect.sqlite.lexical ⟨.start, "X'0A f'y".toList⟩).1 =
        .error ⟨.invalidBlob .oddDigits, .start⟩ := by
  have builtin : Dialect.sqlite ∈ Dialect.builtin := by simp [Dialect.builtin]
  have writes : WritesBytes [0x0A, 0xFF] "0A f\tF ".toList := by
    unfold WritesBytes
    rfl
  have hex : IsHexBody "0A f".toList := by
    have each : "0A f".toList.all (fun c => isHexDigit c || isWhiteSpace c) = true := rfl
    exact fun c mem => Bool.or_eq_true_iff.mp (List.all_eq_true.mp each c mem)
  have odd : ("0A f".toList.filter isHexDigit).length % 2 = 1 := by decide
  refine ⟨⟨builtin, .inr rfl⟩, ⟨writes, ?_⟩, hex, odd, ?_⟩
  · have read := (Dialect.blob_read builtin (.inr rfl) _ "y".toList .start).1 _ writes
    exact (congrArg Prod.fst read).trans rfl
  · exact ((Dialect.blob_read builtin (.inl rfl) _ "y".toList .start).2 hex).2.1 odd

end SqlTree
