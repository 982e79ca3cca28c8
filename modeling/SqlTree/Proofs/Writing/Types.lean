import SqlTree.Proofs.Writing.Names

namespace SqlTree

open Rule SqlRule

section

variable {rules : LexicalRules} {tokens : List Token} {signs more : List Sign} {s : Tape}
  {levels : List (TapeLevel Symbol)} {w : String} {limit n : Nat}

/-- The word of a type is read as it was written. -/
theorem Offers.typeWord (known : isTypeWord w = true) (offers : Offers tokens (.bare rules w :: signs) s)
    {post : Option String → Tape → Prop} (next : post (some w) s) :
    (typeWord? true).Succeeds levels s post := by
  rw [typeWord?, succeeds_bind]
  refine offers.peekNext fun t fits => ?_
  have text : t.text = w := fits.text
  rcases Sign.bare_kind rules w with kind | ⟨k, named, kind⟩
  · have plain : t.isQuoted = false := by
      rw [Token.isQuoted, fits.kind, kind, text]
      exact bne_self_eq_false' w
    simp only [fits.kind, kind, plain, known, Bool.false_eq_true, if_false, if_true]
    exact (succeeds_pure _).mpr next
  · have allowed : typeKeywords.contains k = true := by
      rwa [isTypeWord, (classify?_eq_some.mp named).1] at known
    simp only [fits.kind, kind, allowed, if_true, text]
    exact (succeeds_pure _).mpr next

/-- A name of a type is one word, if what follows is not its second one. -/
theorem Offers.typeName (other : sameWord w "CHARACTER" = false) (offers : Offers tokens signs s)
    (alone : (front signs).spells .PRECISION = false) {post : String → Tape → Prop}
    (next : post w s) : (SqlRule.typeName w).Succeeds levels s post := by
  rw [SqlRule.typeName, succeeds_ite, other]
  split
  · rw [succeeds_bind]
    exact offers.eatKeywordNot alone ((succeeds_pure _).mpr next)
  · exact (succeeds_pure _).mpr next

/-- A number in a type is read if it is in range. -/
theorem Offers.integerUpTo (le : n ≤ limit) (what : String)
    (offers : Offers tokens (.integer n :: signs) s) {post : Nat → Tape → Prop}
    (next : ∀ after, Offers tokens signs after → post n after) :
    (SqlRule.integerUpTo limit what).Succeeds levels s post := by
  rw [SqlRule.integerUpTo, succeeds_bind]
  refine offers.peekNext fun t fits => ?_
  simp only [fits.kind, Sign.integer, le, if_true, succeeds_bind]
  exact offers.bump rfl fun _ after _ offers => (succeeds_pure _).mpr (next after offers)

/-- The length of a type is read, or left out. -/
theorem Offers.lengthArgument {length : Option Nat} (le : ∀ n ∈ length, n ≤ 0xFFFFFFFF)
    (noParen : (front more).kind.sameKind .leftParen = false)
    (offers : Offers tokens (Sign.arguments length.toList ++ more) s) {post : Option Nat → Tape → Prop}
    (next : ∀ after, Offers tokens more after → post length after) :
    SqlRule.lengthArgument.Succeeds levels s post := by
  rw [SqlRule.lengthArgument, succeeds_bind]
  cases length with
  | none => exact offers.eatNot noParen ((succeeds_pure _).mpr (next s offers))
  | some n =>
    refine offers.eat rfl rfl fun s offers => succeeds_bind.mpr ?_
    refine offers.integerUpTo (le n rfl) _ fun s offers => succeeds_bind.mpr ?_
    exact offers.expect rfl rfl fun _ s offers => (succeeds_pure _).mpr (next s offers)

theorem Offers.scaleArguments {precision scale : Option Nat} (le : ∀ n ∈ precision, n ≤ 0xFFFF)
    (le' : ∀ n ∈ scale, n ≤ 0xFFFF) (behind : scale.isSome = true → precision.isSome = true)
    (noParen : (front more).kind.sameKind .leftParen = false)
    (offers : Offers tokens (Sign.arguments (precision.toList ++ scale.toList) ++ more) s)
    {post : Option Nat × Option Nat → Tape → Prop}
    (next : ∀ after, Offers tokens more after → post (precision, scale) after) :
    SqlRule.scaleArguments.Succeeds levels s post := by
  rw [SqlRule.scaleArguments, succeeds_bind]
  cases precision with
  | none =>
    cases scale with
    | none => exact offers.eatNot noParen ((succeeds_pure _).mpr (next s offers))
    | some n => cases behind rfl
  | some n =>
    refine offers.eat rfl rfl fun s offers => succeeds_bind.mpr ?_
    refine offers.integerUpTo (le n rfl) _ fun s offers => succeeds_bind.mpr (succeeds_bind.mpr ?_)
    cases scale with
    | none =>
      refine offers.eatNot rfl ((succeeds_pure _).mpr (succeeds_bind.mpr ?_))
      exact offers.expect rfl rfl fun _ s offers => (succeeds_pure _).mpr (next s offers)
    | some m =>
      refine offers.eat rfl rfl fun s offers => succeeds_bind.mpr ?_
      refine offers.integerUpTo (le' m rfl) _ fun s offers => ?_
      refine (succeeds_pure _).mpr (succeeds_bind.mpr ?_)
      exact offers.expect rfl rfl fun _ s offers => (succeeds_pure _).mpr (next s offers)

theorem front_arguments (more : List Sign) (ns : List Nat) :
    front (Sign.arguments ns ++ more) = front more ∨
      front (Sign.arguments ns ++ more) = .leftParen := by
  cases ns with
  | nil => exact .inl rfl
  | cons => exact .inr rfl

/-- The word of a type is read up to where its arguments begin. -/
theorem Offers.typeStart {rest : String → SqlRule DataType} {missing : SqlRule DataType}
    (known : isTypeWord w = true) (other : sameWord w "CHARACTER" = false)
    (alone : (front more).spells .PRECISION = false) {numbers : List Nat}
    (offers : Offers tokens (.bare rules w :: (Sign.arguments numbers ++ more)) s)
    {post : DataType → Tape → Prop}
    (next : ∀ s, Offers tokens (Sign.arguments numbers ++ more) s → (rest w).Succeeds levels s post) :
    (do
      match ← typeWord? true with
      | none => missing
      | some first =>
        let _ ← Rule.bump
        let name ← SqlRule.typeName first
        rest name).Succeeds levels s post := by
  rw [succeeds_bind]
  refine offers.typeWord known (succeeds_bind.mpr ?_)
  refine offers.bump rfl fun _ s _ offers => succeeds_bind.mpr ?_
  refine offers.typeName other ?_ (next s offers)
  rcases front_arguments more numbers with same | same <;> rw [same]
  · exact alone
  · rfl

/-- The names of the types that all dialects share. -/
def typeNames : List String :=
  ["SMALLINT", "INTEGER", "BIGINT", "REAL", "DOUBLE", "DECIMAL", "NUMERIC", "CHAR", "VARCHAR", "TEXT",
    "BLOB", "BINARY", "VARBINARY", "DATE", "TIME", "TIMESTAMP", "DATETIME", "BOOLEAN"]

theorem DataType.Legible.mem_typeNames {type : DataType} (legible : type.Legible) :
    type.parts.1 ∈ typeNames := by
  cases type with
  | custom => exact legible.elim
  | _ => simp [DataType.parts, typeNames]

/-- A type without arguments is read. -/
theorem Offers.plainType {type : DataType} (known : isTypeWord w = true)
    (other : sameWord w "CHARACTER" = false)
    (means : TypeWord.ofUpper? (upperCase w) = some (.plain type))
    (alone : (front more).spells .PRECISION = false)
    (offers : Offers tokens (.bare rules w :: (Sign.arguments [] ++ more)) s)
    {post : DataType → Tape → Prop} (next : ∀ after, Offers tokens more after → post type after) :
    SqlRule.dataType.Succeeds levels s post := by
  refine offers.typeStart known other alone fun s offers => ?_
  simp only [DataType.argumentsOf, DataType.ofParts, means]
  exact (succeeds_pure _).mpr (next s offers)

theorem Offers.sizedType {of : Option Nat → DataType} (known : isTypeWord w = true)
    (other : sameWord w "CHARACTER" = false)
    (means : TypeWord.ofUpper? (upperCase w) = some (.sized of)) {length : Option Nat}
    (le : ∀ n ∈ length, n ≤ 0xFFFFFFFF) (noParen : (front more).kind.sameKind .leftParen = false)
    (alone : (front more).spells .PRECISION = false)
    (offers : Offers tokens (.bare rules w :: (Sign.arguments length.toList ++ more)) s)
    {post : DataType → Tape → Prop}
    (next : ∀ after, Offers tokens more after → post (of length) after) :
    SqlRule.dataType.Succeeds levels s post := by
  refine offers.typeStart known other alone fun s offers => ?_
  simp only [DataType.argumentsOf, DataType.ofParts, means, succeeds_bind]
  exact offers.lengthArgument le noParen fun s offers => (succeeds_pure _).mpr (next s offers)

theorem Offers.scaledType {of : Option Nat → Option Nat → DataType} (known : isTypeWord w = true)
    (other : sameWord w "CHARACTER" = false)
    (means : TypeWord.ofUpper? (upperCase w) = some (.scaled of)) {precision scale : Option Nat}
    (le : ∀ n ∈ precision, n ≤ 0xFFFF) (le' : ∀ n ∈ scale, n ≤ 0xFFFF)
    (behind : scale.isSome = true → precision.isSome = true)
    (noParen : (front more).kind.sameKind .leftParen = false)
    (alone : (front more).spells .PRECISION = false)
    (offers : Offers tokens
      (.bare rules w :: (Sign.arguments (precision.toList ++ scale.toList) ++ more)) s)
    {post : DataType → Tape → Prop}
    (next : ∀ after, Offers tokens more after → post (of precision scale) after) :
    SqlRule.dataType.Succeeds levels s post := by
  refine offers.typeStart known other alone fun s offers => ?_
  simp only [DataType.argumentsOf, DataType.ofParts, means, succeeds_bind]
  exact offers.scaleArguments le le' behind noParen fun s offers =>
    (succeeds_pure _).mpr (next s offers)

/-- A type is read if neither another argument nor another word of it follows. -/
theorem Offers.dataType {type : DataType} (legible : type.Legible)
    (noParen : (front more).kind.sameKind .leftParen = false)
    (alone : (front more).spells .PRECISION = false)
    (offers : Offers tokens (type.signs rules ++ more) s) {post : DataType → Tape → Prop}
    (next : ∀ after, Offers tokens more after → post type after) :
    SqlRule.dataType.Succeeds levels s post := by
  have words : ∀ w ∈ typeNames, isTypeWord w = true ∧ sameWord w "CHARACTER" = false := by decide
  obtain ⟨known, other⟩ := words _ legible.mem_typeNames
  cases type with
  | decimal | numeric =>
    obtain ⟨precision, scale, behind⟩ := legible
    refine Offers.scaledType known other ?_ precision scale behind noParen alone offers next
    dsimp only [DataType.parts]
    rfl
  | char | varchar | binary | varbinary =>
    refine Offers.sizedType known other ?_ legible noParen alone offers next
    dsimp only [DataType.parts]
    rfl
  | custom => exact legible.elim
  | _ => exact Offers.plainType known other rfl alone offers next

end

end SqlTree
