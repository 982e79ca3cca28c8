import SqlTree.Proofs.Diverging.Types
import SqlTree.Proofs.Tree.Entries

namespace SqlTree

open Rule SqlRule

/-- The predicate that a token begins. -/
def Token.predicate? (f : Features) (negated : Bool) (t : Token) : Option InfixOp :=
  if (!negated && t.spells .IS) = true then some .isNull
  else if t.spells .IN = true then some (.inList negated)
  else if t.spells .BETWEEN = true then some (.between negated)
  else if t.spells .LIKE = true then some (.like false negated)
  else if (f.ilike && t.spells .ILIKE) = true then some (.like true negated)
  else none

/-- The operator that two tokens begin. -/
def infixAt (f : Features) (t u : Token) : Option InfixOp :=
  match t.kind.binaryOp? with
  | some op => some (.binary op)
  | none =>
    if t.kind = .doubleColon then if f.postfixCast then some .cast else none
    else if t.spells .NOT = true then u.predicate? f true
    else t.predicate? f false

/-- Where the words stand that a query may go on with: of a join, and of a limit. -/
def joinWords : List Keyword := [.NATURAL, .INNER, .LEFT, .RIGHT, .FULL, .CROSS, .JOIN]

def queryWords : List Keyword := joinWords ++ [.LIMIT, .OFFSET]

/-- Predicates are no operators of the table. -/
theorem Token.predicate?_word {f : Features} {negated : Bool} {t : Token} {op : InfixOp}
    (found : t.predicate? f negated = some op) (o : BinaryOp) : op ≠ .binary o := by
  unfold Token.predicate? at found
  repeat' split at found
  all_goals cases found
  all_goals exact nofun

/-- An operator of the table is a sign by itself. -/
theorem Token.binaryOp?_of_infixAt {f : Features} {t u : Token} {o : BinaryOp}
    (found : infixAt f t u = some (.binary o)) : t.kind.binaryOp? = some o := by
  unfold infixAt at found
  split at found
  · rename_i op binary
    cases found
    exact binary
  · split at found
    · split at found <;> cases found
    · split at found
      · exact absurd rfl (Token.predicate?_word found o)
      · exact absurd rfl (Token.predicate?_word found o)

theorem TokenKind.doubleColon_of_sameKind {kind : TokenKind} (same : kind.sameKind .doubleColon = true) :
    kind = .doubleColon := by
  cases kind <;> first | rfl | cases same

namespace Rule

section

variable {f : Features} {levels : List (TapeLevel Symbol)} {sheet : Sheet} {i : Nat}

/-- What an expression goes on with is seen from its next tokens alone. -/
theorem comes_predicate? (negated : Bool) :
    (predicate? f negated).Comes levels sheet i ((sheet.tokenAt i).predicate? f negated) i := by
  have isNull : (if negated then return false else checkKeyword .IS : SqlRule Bool).Comes levels sheet i
      (!negated && (sheet.tokenAt i).spells .IS) i := by
    cases negated
    · exact comes_checkKeyword .IS
    · exact comes_pure false
  have ilike : (if f.ilike then checkKeyword .ILIKE else return false : SqlRule Bool).Comes levels sheet i
      (f.ilike && (sheet.tokenAt i).spells .ILIKE) i := by
    cases f.ilike
    · exact comes_pure false
    · exact comes_checkKeyword .ILIKE
  unfold predicate? Token.predicate?
  refine isNull.ite ?_
  split
  · exact comes_pure _
  refine (comes_checkKeyword .IN).ite ?_
  split
  · exact comes_pure _
  refine (comes_checkKeyword .BETWEEN).ite ?_
  split
  · exact comes_pure _
  refine (comes_checkKeyword .LIKE).ite ?_
  split
  · exact comes_pure _
  refine ilike.ite ?_
  split <;> exact comes_pure _

theorem comes_infixOp? (isEof : sheet.closing.isEof = true) (within : i ≤ sheet.length) :
    (infixOp? f).Comes levels sheet i (infixAt f (sheet.tokenAt i) (sheet.tokenAt (i + 1))) i := by
  refine comes_peek.bind ?_
  unfold infixAt
  dsimp only
  cases (sheet.tokenAt i).kind.binaryOp? with
  | some op => exact comes_pure _
  | none =>
    dsimp only
    split
    · exact comes_pure _
    refine (comes_checkKeyword .NOT).ite ?_
    split
    · rename_i spells
      have lt : i < sheet.length := by
        refine Nat.lt_of_le_of_ne within ?_
        rintro rfl
        rw [← sheet.tokenAt_length, Token.isEof_of_spells spells] at isEof
        cases isEof
      exact ((comes_bump lt).bind (comes_predicate? true)).lookahead
    · exact comes_predicate? false

end

end Rule

namespace Diverging

variable {f : Features} {q : Diverging f} {limit i : Nat} {known : Prop}

/-- No operator begins with the token at which the texts part. -/
theorem not_spells_ends {k : Keyword} (mem : k ∈ operatorWords f) :
    (q.right.tokenAt q.spot).spells k = false := q.ends.words k mem

/-- No predicate begins where the texts part. -/
theorem predicate?_spot (negated : Bool) : (q.right.tokenAt q.spot).predicate? f negated = none := by
  have ilike : (f.ilike && (q.right.tokenAt q.spot).spells .ILIKE) = false := by
    cases has : f.ilike
    · rfl
    · exact q.not_spells_ends (by simp [operatorWords, has])
  simp [Token.predicate?, ilike, q.not_spells_ends (show Keyword.IS ∈ operatorWords f by simp [operatorWords]),
    q.not_spells_ends (show Keyword.IN ∈ operatorWords f by simp [operatorWords]),
    q.not_spells_ends (show Keyword.BETWEEN ∈ operatorWords f by simp [operatorWords]),
    q.not_spells_ends (show Keyword.LIKE ∈ operatorWords f by simp [operatorWords])]

/-- No operator stands there. -/
theorem infixAt_spot (next : Token) : infixAt f (q.right.tokenAt q.spot) next = none := by
  have not := q.not_spells_ends (show Keyword.NOT ∈ operatorWords f by simp [operatorWords])
  have other : (q.right.tokenAt q.spot).kind ≠ .doubleColon := by
    intro colons
    have none := q.ends.isMark
    rw [colons] at none
    cases none
  simp [infixAt, q.ends.binary, other, not, predicate?_spot]

/-- Elsewhere both texts have the same predicates. -/
theorem predicate?_right (negated : Bool) (clean : q.Clean i) :
    (q.right.tokenAt i).predicate? f negated = (q.left.tokenAt i).predicate? f negated := by
  simp only [Token.predicate?, clean.spells]

/-- A predicate behind NOT that only the first text has does not fit in the second text. -/
theorem infixed_never_behind {op : InfixOp} (found : (q.left.tokenAt q.spot).predicate? f true = some op)
    (spells : (q.right.tokenAt i).spells .NOT = true) (lt : i < q.right.length) (next : i + 1 = q.spot)
    (e : Expr) : (infixed op e).Never (sqlLevels f limit) q.right i := by
  have negated {k : Keyword} (mem : k ∈ operatorWords f) {α : Type} (rest : SqlRule α) : (do
      negation true
      let _ ← expectKeyword k
      rest).Never (sqlLevels f limit) q.right i := by
    have not : (negation true).Comes (sqlLevels f limit) q.right i () (i + 1) :=
      (comes_expectKeyword lt spells).bind (comes_pure ())
    refine not.never (Never.bind (never_of_refuses fun s here => ?_) _)
    exact expectKeyword_refuses here.peek (next ▸ q.not_spells_ends mem)
  unfold Token.predicate? at found
  split at found
  · simp_all
  split at found
  · cases found
    exact negated (by simp [operatorWords]) _
  split at found
  · cases found
    exact negated (by simp [operatorWords]) _
  split at found
  · cases found
    exact negated (by simp [operatorWords]) _
  split at found
  · rename_i ilike
    cases found
    exact negated (by simp [operatorWords, (Bool.and_eq_true_iff.mp ilike).1]) _
  · cases found

/-- Both texts go on with the same operator. If they do not, the second text goes on with none, and the
one of the first text begins where the texts part or does not fit in the second text. -/
theorem infixAt_right (limit : Nat) (within : i ≤ q.left.length) (reads : q.Reads i) :
    infixAt f (q.right.tokenAt i) (q.right.tokenAt (i + 1)) =
        infixAt f (q.left.tokenAt i) (q.left.tokenAt (i + 1)) ∨
      infixAt f (q.right.tokenAt i) (q.right.tokenAt (i + 1)) = none ∧
        ∀ op, infixAt f (q.left.tokenAt i) (q.left.tokenAt (i + 1)) = some op →
          i = q.spot ∨ ∀ e, (infixed op e).Never (sqlLevels f limit) q.right i := by
  by_cases here : i = q.spot
  · rw [here]
    exact .inr ⟨q.infixAt_spot _, fun _ _ => .inl rfl⟩
  have clean := q.clean_of_ne reads here
  have kind := (q.like i clean).kind
  by_cases next : i + 1 = q.spot
  · by_cases not : (q.left.tokenAt i).spells .NOT = true
    · have not' : (q.right.tokenAt i).spells .NOT = true := (clean.spells _).trans not
      cases binary : (q.left.tokenAt i).kind.binaryOp? with
      | some op =>
        left
        simp only [infixAt, kind, binary]
      | none =>
        by_cases colons : (q.left.tokenAt i).kind = .doubleColon
        · left
          simp only [infixAt, kind, colons, if_true]
        · right
          simp only [infixAt, kind, binary, colons, not, not', if_false, if_true, next]
          refine ⟨predicate?_spot true, fun op found => .inr fun e => ?_⟩
          have lt := q.lt_of_notEof within (Token.isEof_of_spells not)
          exact infixed_never_behind found not' (clean.lt lt) next e
    · left
      simp only [infixAt, kind, clean.spells, not, predicate?_right false clean]
      simp
  · left
    have after : q.Clean (i + 1) := by
      rcases clean with lt | ⟨rejoins, lt⟩
      · exact .inl (by omega)
      · exact .inr ⟨rejoins, by omega⟩
    simp only [infixAt, kind, clean.spells, predicate?_right _ clean, predicate?_right _ after]

/-- What the rules that may be called again from inside themselves do one level of nesting deeper. -/
structure CallsKeep (q : Diverging f) (limit : Nat) : Prop where
  expression : ∀ power, q.Holds limit (call (.expression power))
  query : ∀ known i, q.Follows limit known i selectStatement selectStatement q.Clean
    fun _ => q.Clear [.comma] queryWords
  joinGroup : ∀ known i, q.Follows limit known i joinGroup joinGroup q.Clean fun _ _ => True

/-- An expression with operators of any power, one level of nesting deeper. -/
theorem CallsKeep.any (calls : q.CallsKeep limit) : q.Holds limit SqlRule.expression :=
  calls.expression 0

/-- Expressions with commas between them. -/
theorem CallsKeep.expressions (calls : q.CallsKeep limit) (words : List Keyword) (known : Prop)
    (i : Nat) : q.Follows limit known i (commaSeparated SqlRule.expression)
      (commaSeparated SqlRule.expression) q.Inside fun _ => q.Clear [.comma] words :=
  follows_commaSeparated expression_blames.plain calls.any (fun _ _ _ => trivial) (fun _ _ => trivial)
    fun _ clear => clear.kinds _ (List.mem_singleton_self _)

/-- What a parenthesis closes ends there in both texts. -/
theorem clear_closing {words : List Keyword} (closing : (q.left.tokenAt i).kind.sameKind .rightParen = true)
    (clean : q.Clean i) : q.Clear [.comma] words i :=
  clear_of_sameKind closing clean rfl (by simp [TokenKind.sameKind, TokenKind.ctorIdx])

/-- A query or something else between parentheses. -/
theorem select_ite {α : Type} [Visible α] {g : SelectStatement → α} {other : SqlRule α}
    (calls : q.CallsKeep limit)
    (commutes : ∀ lens query, Visible.through lens (g query) = g (Visible.through lens query))
    (missing : q.Follows limit known i other other q.Inside fun _ => q.Clear [.comma] queryWords) :
    q.Follows limit known i
      (do if ← checkKeyword .SELECT then return g (← selectStatement) else other)
      (do if ← checkKeyword .SELECT then return g (← selectStatement) else other) q.Inside
      fun _ => q.Clear [.comma] queryWords := by
  refine checkKeyword_ite (by decide) Inside.calm (fun _ => ?_) fun _ => missing
  exact ((calls.query known i).map commutes).mono id (fun clean => ⟨clean, clean.inside⟩) fun _ _ => id

/-- What an operator is followed by is the same in both texts. -/
theorem infixed_follows (calls : q.CallsKeep limit) (op : InfixOp) {left left' : Expr}
    (lacks : known → q.Lacks left) (quoted : q.Quoted left left')
    (notEof : (∃ o, op = .binary o) → (q.left.tokenAt i).isEof = false) :
    q.Follows limit known i (infixed op left) (infixed op left') q.Clean fun _ _ => True := by
  cases op with
  | binary o =>
    refine bump_bind (notEof ⟨o, rfl⟩) id ?_
    refine (calls.expression _ known _).freely.bind fun k right right' alike => follows_pure ?_ ?_ id
    · rintro ⟨holds, _⟩
      have := lacks holds
      simp_all [Lacks]
    · simp_all [Quoted]
  | isNull =>
    refine expectKeyword_bind (fun _ => id) fun _ _ _ => ?_
    refine (keeps_eatKeyword (by decide) known _).freely.bind fun k negated _ same => ?_
    obtain rfl : negated = _ := same
    refine expectKeyword_bind (fun _ => Clean.calm) fun _ _ _ => follows_pure ?_ ?_ fun _ => trivial
    · rintro ⟨holds, _⟩
      have := lacks holds
      simp_all [Lacks]
    · simp_all [Quoted]
  | inList negated =>
    refine (negation_follows negated).bind fun k _ _ _ => ?_
    refine expectKeyword_bind (fun _ => id) fun _ _ _ => ?_
    refine expect_bind rfl (fun _ _ => trivial) fun _ _ _ => ?_
    have values (known : Prop) (i : Nat) : q.Follows limit known i
        (do return InList.values (← commaSeparated SqlRule.expression))
        (do return InList.values (← commaSeparated SqlRule.expression)) q.Inside
        fun _ => q.Clear [.comma] queryWords :=
      (calls.expressions _ known i).map (by simp)
    refine (select_ite calls (fun _ _ => rfl)
      (values _ _)).freely.bind fun k list list' alike => ?_
    refine expect_bind rfl clear_closing fun _ _ _ => follows_pure ?_ ?_ fun _ => trivial
    · rintro ⟨⟨holds, _⟩, _⟩
      have := lacks holds
      simp_all [Lacks]
    · simp_all [Quoted]
  | between negated =>
    refine (negation_follows negated).bind fun k _ _ _ => ?_
    refine expectKeyword_bind (fun _ => id) fun _ _ _ => ?_
    refine (calls.expression _ _ _).freely.bind fun k low low' alike => ?_
    refine expectKeyword_bind (fun _ _ => trivial) fun _ _ _ => ?_
    refine (calls.expression _ _ _).freely.bind fun k high high' alike' => follows_pure ?_ ?_ id
    · rintro ⟨⟨⟨holds, _⟩, _⟩, _⟩
      have := lacks holds
      simp_all [Lacks]
    · simp_all [Quoted]
  | like caseInsensitive negated =>
    refine (negation_follows negated).bind fun k _ _ _ => ?_
    refine expectKeyword_bind (fun _ => id) fun _ _ _ => ?_
    refine (calls.expression _ _ _).freely.bind fun k pattern pattern' alike => follows_pure ?_ ?_ id
    · rintro ⟨⟨holds, _⟩, _⟩
      have := lacks holds
      simp_all [Lacks]
    · simp_all [Quoted]
  | cast =>
    refine expect_bind rfl (fun _ => id) fun colons _ _ => ?_
    have settled (j : Nat) : q.Settled (i + 1) j :=
      settled_of_doubleColon (TokenKind.doubleColon_of_sameKind colons) j
    refine dataType_follows.freely.bind fun k type _ same => follows_pure ?_ ?_ fun _ => settled k
    · rintro ⟨holds, _⟩
      have := lacks holds
      simp_all [Lacks]
    · obtain rfl : type = _ := same
      simp_all [Quoted]

end Diverging

end SqlTree
