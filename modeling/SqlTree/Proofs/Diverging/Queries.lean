import SqlTree.Proofs.Dialects.Extensions
import SqlTree.Proofs.Diverging.Expressions

namespace SqlTree

open Rule SqlRule

instance : Visible LimitParts where
  through lens parts :=
    ⟨parts.limitSeen, Visible.through lens parts.count, Visible.through lens parts.offset⟩
  through_through first second parts := by
    simp only [Visible.through_through]

@[simp] theorem through_limitParts (lens : Lens) (seen : Bool) (count offset : Option Expr) :
    Visible.through lens (⟨seen, count, offset⟩ : LimitParts) =
      ⟨seen, Visible.through lens count, Visible.through lens offset⟩ := rfl

namespace SqlRule

/-- One more part of a limit in any order. -/
def limitStep (parts : LimitParts) : SqlRule (Option LimitParts) := do
  if ← (if parts.limitSeen then return false else eatKeyword .LIMIT) then
    return some { parts with limitSeen := true, count := ← limitCount? }
  else if ← (if parts.offset.isSome then return false else eatKeyword .OFFSET) then
    return some { parts with offset := some (← limitOffset) }
  else return none

/-- A limit in any order by its steps. -/
theorem limitAnyOrder_eq : limitAnyOrder = (do
    let start ← start
    let parts ← loop limitStep ⟨false, none, none⟩
    if parts.limitSeen || parts.offset.isSome then
      return ⟨parts.count, parts.offset, ← spanFrom start⟩
    else failAny ["LIMIT", "OFFSET"]) := rfl

end SqlRule

/-- A table and its joins, seen through a lens that puts all places elsewhere. -/
theorem through_joins {lens : Lens} {place : Position → Position} (spans : lens.span = Span.placed place)
    (p : Position) (first : TableRef) (joins : List JoinClause) :
    Visible.through lens
        (joins.foldl (fun left join => .join left join ⟨p, join.span.stop⟩) first) =
      (Visible.through lens joins).foldl (fun left join => .join left join ⟨place p, join.span.stop⟩)
        (Visible.through lens first) := by
  induction joins generalizing first with
  | nil => rfl
  | cons join joins ih => cases join; simp [ih, spans, Span.placed]

namespace Diverging

variable {f : Features} {q : Diverging f} {limit i : Nat} {known : Prop}

/-- Tokens that are clear for some words are clear for fewer of them. -/
theorem Clear.mono {kinds kinds' : List TokenKind} {words words' : List Keyword}
    (clear : q.Clear kinds words i) (fewer : ∀ kind ∈ kinds', kind ∈ kinds)
    (silent : ∀ k ∈ words', k ∈ words) : q.Clear kinds' words' i :=
  ⟨clear.calm, clear.unnamed, fun kind mem => clear.kinds kind (fewer kind mem),
    fun k mem => clear.words k (silent k mem)⟩

theorem Clear.bare {kinds : List TokenKind} {words : List Keyword} (clear : q.Clear kinds words i) :
    q.Clear [] [] i :=
  clear.mono nofun nofun

theorem Clean.bare (clean : q.Clean i) : q.Clear [] [] i := clean.clear nofun nofun

/-- A list does not go on. -/
theorem Clear.noComma {words : List Keyword} (clear : q.Clear [.comma] words i) :
    (q.right.tokenAt i).kind.sameKind .comma = false :=
  clear.kinds _ (List.mem_singleton_self _)

/-- A column of a result may have a name behind it, and so does not end at the spot. -/
theorem selectColumn_follows (calls : q.CallsKeep limit) :
    q.Follows limit known i (selectColumn f) (selectColumn f) q.Inside fun _ => q.Clear [] [] := by
  refine start_bind id fun p p' opens => ?_
  refine (calls.any known i).bind fun k e e' alike => ?_
  refine alias?_follows.freely.bind fun k name name' alike' => spanFrom_bind opens fun _ _ _ => ?_
  exact follows_pure (by simp +contextual [Lacks]) (by simp_all [Quoted]) id

/-- A list of columns does not go on in the second text if it does not in the first one. -/
theorem selectColumns_follows (calls : q.CallsKeep limit) (words : List Keyword) :
    q.Follows limit known i (commaSeparated (selectColumn f)) (commaSeparated (selectColumn f)) q.Inside
      fun _ => q.Clear [.comma] words :=
  follows_commaSeparated (selectColumn_blames f).plain (fun _ _ => selectColumn_follows calls)
    (fun _ _ => Clean.bare) (fun _ => Clear.bare) fun _ => Clear.noComma

/-- A table by its name is the same in both texts. -/
theorem namedTable_follows :
    q.Follows limit known i (namedTable f) (namedTable f) q.Inside fun _ => q.Clear [] [] := by
  refine start_bind id fun p p' opens => ?_
  refine (objectName_holds known i).bind fun k name name' alike => ?_
  refine alias?_follows.freely.bind fun k alias? alias' alike' => spanFrom_bind opens fun _ _ _ => ?_
  exact follows_pure (by simp +contextual [Lacks]) (by simp_all [Quoted]) id

/-- A query or joins in parentheses are the same table in both texts. -/
theorem derivedTable_follows (calls : q.CallsKeep limit) :
    q.Follows limit known i (derivedTable f) (derivedTable f) q.Clean fun _ => q.Clear [] [] := by
  refine start_bind Clean.inside fun p p' opens => ?_
  refine expect_bind rfl (fun _ => id) fun _ _ _ => ?_
  refine (calls.query known _).freely.bind fun k query query' alike => ?_
  refine expect_bind rfl clear_closing fun _ _ _ => ?_
  refine alias?_follows.freely.bind fun k alias? alias' alike' => spanFrom_bind opens fun _ _ _ => ?_
  exact follows_pure (by simp +contextual [Lacks]) (by simp_all [Quoted]) id

/-- What begins with a parenthesis in the first text begins with no name in the second one. -/
theorem namedTable_stops (clean : q.Clean i)
    (paren : (q.left.tokenAt i).kind.sameKind .leftParen = true) :
    (namedTable f).Stops (sqlLevels f limit) q.right i := by
  refine comes_start.stops (Stops.bind (comes_start.stops (Stops.bind ?_ _)) _)
  refine stops_of_refuses fun s here => identifier_refuses here.peek fun name kind => ?_
  rw [(q.like i clean).kind] at kind
  rw [kind] at paren
  cases paren

/-- Where joins stand between parentheses in the first text, no query does in the second one. -/
theorem derivedTable_stops (clean : q.Clean i)
    (paren : (q.left.tokenAt i).kind.sameKind .leftParen = true)
    (noQuery : (q.left.tokenAt (i + 1)).spells .SELECT = false) (within : i ≤ q.left.length) :
    (derivedTable f).Stops (sqlLevels f (limit + 1)) q.right i := by
  have lt := q.lt_of_notEof within (TokenKind.sameKind_eof paren rfl)
  have paren' : (q.right.tokenAt i).kind.sameKind .leftParen = true := by rwa [(q.like i clean).kind]
  refine comes_start.stops ((comes_expect (clean.lt lt) paren').stops (Stops.bind ?_ _))
  refine selectStatement_awaits.stops fun k mem => ?_
  rw [List.mem_singleton.mp mem]
  by_cases here : i + 1 = q.spot
  · rw [here]
    exact q.ends.select
  · have reads : q.Reads (i + 1) := clean.imp id And.left
    exact ((q.clean_of_ne reads here).spells _).trans noQuery

/-- Only a parenthesis begins a table that is no name. -/
theorem paren_of_derivedTable {v : TableRef} {j : Nat}
    (gets : (derivedTable f).Gets (sqlLevels f limit) q.left i v j) :
    (q.left.tokenAt i).kind.sameKind .leftParen = true := by
  obtain ⟨s, after, here, read, -⟩ := gets
  have opens : (derivedTable f).Opens (sqlLevels f limit) fun t => t.kind.sameKind .leftParen = true :=
    .start fun _ => (opens_expect _).bind _
  obtain ⟨t, shown, paren⟩ := opens s v after read
  obtain rfl : q.left.tokenAt i = t := Except.ok.inj (here.peek.symm.trans shown)
  exact paren

/-- What joins between parentheses in the first text say about it. -/
theorem of_joinGroup {v : TableRef} {j : Nat} (gets : joinGroup.Gets (sqlLevels f limit) q.left i v j) :
    (∃ n, limit = n + 1) ∧ i ≤ q.left.length ∧
      (q.left.tokenAt i).kind.sameKind .leftParen = true ∧
      (q.left.tokenAt (i + 1)).spells .SELECT = false := by
  obtain ⟨s, after, here, read, -⟩ := gets
  cases limit with
  | zero =>
    have never : (call Symbol.joinGroup).Yields (sqlLevels f 0) s fun _ _ => False := yields_tooDeep
    exact absurd (never v after read) id
  | succ limit =>
    have opens : joinGroup.Opens (sqlLevels f (limit + 1)) fun t => t.kind.sameKind .leftParen = true :=
      fun s => yields_call fun _ => (opens_expect _).bind _ s
    obtain ⟨t, shown, paren⟩ := opens s v after read
    obtain rfl : q.left.tokenAt i = t := Except.ok.inj (here.peek.symm.trans shown)
    have lt := q.lt_of_notEof here.within (TokenKind.sameKind_eof paren rfl)
    obtain ⟨-, moved, -⟩ := here.bump lt
    obtain ⟨-, noQuery⟩ := joinGroup_leads s v after read
    refine ⟨⟨limit, rfl⟩, here.within, paren, Bool.eq_false_iff.mpr fun spells => ?_⟩
    exact noQuery _ moved.peek (Token.kind_of_spells (q.telling _) (by decide) spells)

theorem tableFactor_follows (calls : q.CallsKeep limit) :
    q.Follows limit known i (tableFactor f) (tableFactor f) q.Inside fun _ => q.Clear [] [] := by
  have clean (inside : q.Inside i) (paren : (q.left.tokenAt i).kind.sameKind .leftParen = true) :
      q.Clean i := by
    refine inside.clean fun ⟨rejoins, here⟩ => ?_
    rw [here, TokenKind.sameKind_of_isWord (q.isWord_spot rejoins) rfl] at paren
    cases paren
  refine follows_choice ?_ ?_ ?_
  · simp only [List.forall_mem_cons, List.not_mem_nil, false_implies, implies_true, and_true]
    exact ⟨Blames.plain (by simp [namedTable]), Blames.plain (by simp [derivedTable]), joinGroup_blames.plain⟩
  · simp only [List.forall_mem_cons, List.not_mem_nil, false_implies, implies_true, and_true]
    exact ⟨namedTable_follows, (derivedTable_follows calls).mono id Clean.inside fun _ _ => id,
      (calls.joinGroup known i).mono id Clean.inside fun _ _ _ => trivial⟩
  · simp only [List.pairwise_cons, List.mem_cons, List.not_mem_nil, or_false, forall_eq_or_imp, forall_eq,
      false_implies, implies_true, List.Pairwise.nil, and_true]
    refine ⟨⟨fun v j _ gets _ inside _ => ?_, fun v j _ gets _ inside _ => ?_⟩,
      fun v j _ gets _ inside _ => ?_⟩
    · have paren := paren_of_derivedTable gets
      exact namedTable_stops (clean inside paren) paren
    · obtain ⟨-, -, paren, -⟩ := of_joinGroup gets
      exact namedTable_stops (clean inside paren) paren
    · obtain ⟨⟨n, rfl⟩, within, paren, noQuery⟩ := of_joinGroup gets
      exact derivedTable_stops (clean inside paren) paren noQuery within

theorem joinCondition_follows (calls : q.CallsKeep limit) :
    q.Follows limit known i joinCondition joinCondition q.Clean fun _ _ => True := by
  refine eatKeyword_ite (by decide) Clean.calm (fun _ => id) (fun _ => ?_) fun _ => ?_
  · exact (calls.any.map fun _ _ => rfl).follows fun _ => trivial
  refine eatKeyword_ite (by decide) Clean.calm (fun _ => id) (fun _ => ?_) fun _ => follows_failAny _
  exact identifierList_follows.freely.map fun _ _ => rfl

theorem joinClause_follows (calls : q.CallsKeep limit) :
    q.Follows limit known i (joinClause f) (joinClause f) q.Clean fun _ => q.Clear [] [] := by
  refine start_bind Clean.inside fun p p' opens => ?_
  have rest (natural : Bool) {known : Prop} {i : Nat} : q.Follows limit known i (do
      let type ← joinType
      let table ← tableFactor f
      let on ← (if natural || type == .cross then return (none, []) else joinCondition)
      return (⟨type, natural, table, on.1, on.2, ← spanFrom p⟩ : JoinClause)) (do
      let type ← joinType
      let table ← tableFactor f
      let on ← (if natural || type == .cross then return (none, []) else joinCondition)
      return ⟨type, natural, table, on.1, on.2, ← spanFrom p'⟩) q.Clean
      fun _ => q.Clear [] [] := by
    refine joinType_follows.bind fun k type _ same => ?_
    obtain rfl : type = _ := same
    refine (tableFactor_follows calls).freely.bind fun k table table' alike => ?_
    refine Follows.bind (?_ : q.Follows limit _ k _ _ (q.Clear [] []) fun _ => q.Clear [] [])
      fun k on on' alike' => ?_
    · split
      · exact follows_value (fun _ _ => rfl) id
      · exact (joinCondition_follows calls).mono id Clean.bare fun _ _ _ => trivial
    · obtain ⟨condition, columns⟩ := on
      obtain ⟨condition', columns'⟩ := on'
      refine spanFrom_bind opens fun _ _ _ => follows_pure ?_ ?_ id
      · simp +contextual [Lacks]
      · simp_all [Quoted]
  exact eatKeyword_bind (by decide) Clean.calm (fun _ => id) (fun _ => (rest true).freely)
    fun _ => rest false

/-- No join begins where none of its words stand. -/
theorem joinClause_stops (clear : q.Clear [] joinWords i) :
    (joinClause f).Stops (sqlLevels f limit) q.right i := by
  have no {k : Keyword} (mem : k ∈ joinWords) :
      (eatKeyword k : SqlRule Bool).Comes (sqlLevels f limit) q.right i false i :=
    comes_eatKeyword_not (clear.words k mem)
  have join : (checkKeyword .JOIN : SqlRule Bool).Comes (sqlLevels f limit) q.right i false i := by
    have comes : (checkKeyword .JOIN : SqlRule Bool).Comes (sqlLevels f limit) q.right i _ i :=
      comes_checkKeyword .JOIN
    rwa [clear.words .JOIN (by decide)] at comes
  refine comes_start.stops ((no (by decide)).stops (Stops.bind (Stops.bind ?_ _) _))
  refine (no (by decide)).stops ((no (by decide)).stops ((no (by decide)).stops ((no (by decide)).stops
    ((no (by decide)).stops (join.stops ?_)))))
  exact stops_of_refuses fun s here => refuses_failAny here.peek _

theorem joinClause_plain : (joinClause f).Plain := by
  have factor : (tableFactor f).Blames Grounds.all := blames_choice (by simp [namedTable, derivedTable])
  exact Blames.plain (by simp [joinClause, joinType, joinCondition, factor])

/-- A table with all of its joins is the same if no join follows it in the second text only. -/
theorem tableRef_follows (calls : q.CallsKeep limit) (kinds : List TokenKind) :
    q.Follows limit known i (tableRef f) (tableRef f) q.Inside fun _ => q.Clear kinds joinWords := by
  refine start_bind id fun p p' opens => ?_
  refine (tableFactor_follows calls).bind fun k first first' alike => ?_
  have joins : q.Follows limit (known ∧ q.Lacks first) k (many (joinClause f)) (many (joinClause f))
      (q.Clear [] []) fun _ => q.Clear kinds joinWords :=
    follows_many joinClause_plain
      (fun _ _ => (joinClause_follows calls).mono id Clean.bare fun _ _ => id) (fun _ => Clear.bare)
      fun _ clear _ => joinClause_stops (clear.mono nofun fun _ mem => mem)
  refine joins.bind fun k joins joins' alike' => follows_pure ?_ ?_ id
  · rintro ⟨⟨_, lacks⟩, lacks'⟩ name shows
    rw [through_joins rfl, through_joins rfl, lacks name shows, lacks' name shows]
  · rw [Quoted, through_joins rfl, through_joins rfl, alike, alike']
    exact congrArg (fun p => List.foldl (fun left join => TableRef.join left join ⟨p, join.span.stop⟩) _ _)
      opens.place

theorem joinGroupBody_follows (calls : q.CallsKeep limit) :
    q.Follows limit known i (joinGroupBody f) (joinGroupBody f) q.Clean fun _ _ => True := by
  refine expect_bind rfl (fun _ => id) fun _ _ _ => ?_
  refine (tableRef_follows calls []).freely.bind fun k inner inner' alike => ?_
  refine expect_bind rfl (fun closing clean => clear_of_sameKind closing clean rfl nofun) fun _ _ _ => ?_
  exact follows_pure (fun holds => holds.2) alike fun _ => trivial

/-- A clause that may be left out in front of what ends a query. -/
theorem clause?_follows (calls : q.CallsKeep limit) {k : Keyword} (low : k ∉ limitWords)
    (apart : Apart [k] joinWords) : q.Follows limit known i (clause? k) (clause? k)
      (q.Clear [.comma] joinWords) fun _ => q.Clear [.comma] joinWords :=
  eatKeyword_ite low Clear.calm (fun spells clean => clear_of_spells spells clean apart (by simp; rfl))
    (fun _ => (someExpression_holds calls).follows fun _ => trivial)
    fun _ => follows_value (fun _ _ => rfl) id

/-- A list behind GROUP BY or ORDER BY, or neither. -/
theorem byClause_follows {α : Type} [Visible α] {item : SqlRule α} {k : Keyword} {last : Nat → Prop}
    (low : k ∉ limitWords) (apart : Apart [k] joinWords) (plain : item.Plain)
    (each : ∀ known i, q.Follows limit known i item item q.Inside fun _ => last)
    (comma : ∀ k, (q.left.tokenAt k).kind.sameKind .comma = true → q.Clean k → last k)
    (ends : ∀ k, q.Clear [.comma] joinWords k → last k) :
    q.Follows limit known i (byClause k item) (byClause k item) (q.Clear [.comma] joinWords)
      fun _ => q.Clear [.comma] joinWords := by
  refine eatKeyword_ite low Clear.calm
    (fun spells clean => clear_of_spells spells clean apart (by simp; rfl)) (fun _ => ?_)
    fun _ => follows_value (fun _ _ => rfl) id
  refine expectKeyword_bind (fun _ _ => trivial) fun _ _ _ => ?_
  exact (follows_commaSeparated plain each comma ends fun _ => Clear.noComma).freely

theorem orderByItem_follows (calls : q.CallsKeep limit) :
    q.Follows limit known i (orderByItem f) (orderByItem f) q.Inside fun _ => q.Calm := by
  refine start_bind id fun p p' opens => ?_
  refine (calls.any known i).bind fun k e e' alike => ?_
  refine (orderDirection_keeps _ k).freely.bind fun k direction _ same => ?_
  obtain rfl : direction = _ := same
  refine (nullOrdering?_keeps _ k).bind fun k nulls nulls' same => spanFrom_bind opens fun _ _ _ => ?_
  obtain rfl : nulls = nulls' := by simpa [Quoted] using same
  exact follows_pure (by simp +contextual [Lacks]) (by simp_all [Quoted]) id

/-- Neither a comma nor a word of a limit is next in the second text, unless it is in the first one. -/
structure Quiet (q : Diverging f) (i : Nat) : Prop where
  calm : q.Calm i
  comma : (q.left.tokenAt i).kind.sameKind .comma = false →
    (q.right.tokenAt i).kind.sameKind .comma = false
  words : ∀ k ∈ limitWords, (q.left.tokenAt i).spells k = false → (q.right.tokenAt i).spells k = false

theorem Clean.quietly (clean : q.Clean i) : q.Quiet i where
  calm := clean.calm
  comma other := by rwa [(q.like i clean).kind]
  words k _ other := by rwa [clean.spells]

theorem Clear.quietly (clear : q.Clear [.comma] queryWords i) : q.Quiet i where
  calm := clear.calm
  comma _ := clear.noComma
  words k mem _ := clear.words k (List.mem_append_right _ mem)

section

variable {α : Type} [Visible α] {need : Nat → Prop} {free : α → Nat → Prop} {k : Keyword}

/-- A word of a limit that may be left out. -/
theorem limitWord_bind {next next' : Bool → SqlRule α}
    (quiet : need i → (q.left.tokenAt i).spells k = false → (q.right.tokenAt i).spells k = false)
    (enter : q.Clean i → need i)
    (found : (q.left.tokenAt i).spells k = true →
      q.Follows limit known (i + 1) (next true) (next' true) (fun _ => True) free)
    (missing : (q.left.tokenAt i).spells k = false →
      q.Follows limit known i (next false) (next' false) need free) :
    q.Follows limit known i (eatKeyword k >>= next) (eatKeyword k >>= next') need free :=
  .eating (·.spells k) (fun _ => comes_eatKeyword_not) (fun _ => comes_eatKeyword)
    (fun _ _ like => like.spells k) Token.isEof_of_spells (fun needs _ => quiet needs)
    (fun _ => enter) found missing

/-- A word of a limit that was not read before. -/
theorem limitWord_ite (seen : Bool) {a a' b b' : SqlRule α}
    (quiet : need i → (q.left.tokenAt i).spells k = false → (q.right.tokenAt i).spells k = false)
    (enter : q.Clean i → need i)
    (found : q.Follows limit known (i + 1) a a' (fun _ => True) free)
    (missing : (seen = false → (q.left.tokenAt i).spells k = false) →
      q.Follows limit known i b b' need free) :
    q.Follows limit known i (do if ← (if seen then return false else eatKeyword k) then a else b)
      (do if ← (if seen then return false else eatKeyword k) then a' else b') need free := by
  cases seen
  · exact limitWord_bind quiet enter (fun _ => found) fun other => missing fun _ => other
  · exact pure_bind (missing nofun)

end

theorem limitCountFirst_follows (calls : q.CallsKeep limit) :
    q.Follows limit known i limitCountFirst limitCountFirst q.Clean
      fun _ => q.Clear [.comma] queryWords := by
  refine start_bind Clean.inside fun p p' opens => ?_
  refine expectKeyword_bind (fun _ => id) fun _ _ _ => ?_
  refine (calls.any known _).freely.bind fun k first first' alike => ?_
  refine Follows.freely (?_ : q.Follows limit _ k _ _ q.Quiet fun _ => q.Clear [.comma] queryWords)
  refine limitWord_bind (fun quiet => quiet.words _ (by decide)) Clean.quietly (fun _ => ?_) fun _ => ?_
  · refine (calls.any _ _).freely.bind fun k offset offset' alike' => spanFrom_bind opens fun _ _ _ => ?_
    exact follows_pure (by simp +contextual [Lacks]) (by simp_all [Quoted]) fun _ => trivial
  refine .eating (fun t => t.kind.sameKind .comma) (fun _ => comes_eat_not) (fun _ => comes_eat)
    (fun _ _ like => by rw [like.kind]) (fun same => TokenKind.sameKind_eof same rfl)
    (fun quiet _ => quiet.comma) (fun _ => Clean.quietly) (fun _ => ?_) fun _ => ?_
  · refine (calls.any _ _).freely.bind fun k count count' alike' => spanFrom_bind opens fun _ _ _ => ?_
    exact follows_pure (by simp +contextual [Lacks]) (by simp_all [Quoted]) fun _ => trivial
  · refine spanFrom_bind opens fun _ _ _ => follows_pure ?_ ?_ Clear.quietly
    · simp +contextual [Lacks]
    · simp_all [Quoted]

theorem limitCount?_follows (calls : q.CallsKeep limit) :
    q.Follows limit known i limitCount? limitCount? q.Inside fun _ _ => True :=
  eatKeyword_ite (by decide) Inside.calm (fun _ => Clean.inside)
    (fun _ => follows_value (fun _ _ => rfl) id) fun _ => someExpression_holds calls known i

theorem limitOffset_follows (calls : q.CallsKeep limit) :
    q.Follows limit known i limitOffset limitOffset q.Inside fun _ => q.Calm := by
  refine (calls.any known i).bind fun k offset offset' alike => ?_
  have value {k : Nat} : q.Follows limit (known ∧ q.Lacks offset) k (Pure.pure offset : SqlRule Expr)
      (Pure.pure offset') q.Calm fun _ => q.Calm := follows_pure (·.2) alike id
  refine Follows.freely (?_ : q.Follows limit _ k _ _ q.Calm fun _ => q.Calm)
  refine eatKeyword_ite (by decide) id (fun _ => Clean.calm) (fun _ => value.freely) fun _ => ?_
  exact eatKeyword_bind (by decide) id (fun _ => Clean.calm) (fun _ => value.freely) fun _ => value

/-- Quoting a name leaves out nothing. -/
theorem isSome_of_quoted {α : Type} [Visible α] {x x' : Option α} (alike : q.Quoted x x') :
    x'.isSome = x.isSome := by
  cases x <;> cases x' <;> first | rfl | cases alike

/-- A step of a limit whose parts are read in any order. -/
theorem limitStep_follows (calls : q.CallsKeep limit) {parts parts' : LimitParts} {need : Nat → Prop}
    (lacks : known → q.Lacks parts) (alike : q.Quoted parts parts')
    (quiet : ∀ k ∈ limitWords, need i → (q.left.tokenAt i).spells k = false →
      (q.right.tokenAt i).spells k = false)
    (enter : q.Clean i → need i)
    (stop : (parts.limitSeen = false → (q.left.tokenAt i).spells .LIMIT = false) →
      (parts.offset.isSome = false → (q.left.tokenAt i).spells .OFFSET = false) →
      q.Clear [.comma] queryWords i → need i) :
    q.Follows limit known i (limitStep parts) (limitStep parts') need fun next k =>
      next.elim (q.Clear [.comma] queryWords k) fun _ => q.Quiet k := by
  obtain ⟨seen, count, offset⟩ := parts
  obtain ⟨seen', count', offset'⟩ := parts'
  simp only [Quoted, through_limitParts, LimitParts.mk.injEq] at alike
  obtain ⟨rfl, alike, alike'⟩ := alike
  unfold limitStep
  dsimp only at stop ⊢
  rw [isSome_of_quoted alike']
  refine limitWord_ite seen (quiet _ (by decide)) enter ?_ fun noLimit =>
    limitWord_ite _ (quiet _ (by decide)) enter ?_ fun noOffset => ?_
  · refine (limitCount?_follows calls).freely.bind fun k counted counted' same => ?_
    refine follows_pure ?_ ?_ fun _ => trivial
    · rintro ⟨holds, _⟩
      have := lacks holds
      simp_all [Lacks]
    · simp_all [Quoted]
  · refine (limitOffset_follows calls).freely.bind fun k skipped skipped' same => ?_
    refine follows_pure ?_ ?_ Quiet.calm
    · rintro ⟨holds, _⟩
      have := lacks holds
      simp_all [Lacks]
    · simp_all [Quoted]
  · exact follows_value (fun _ _ => rfl) (stop noLimit noOffset)

/-- Parts of a limit in any order, of which the first text has one. -/
theorem limitAnyOrder_follows (calls : q.CallsKeep limit)
    (word : ∃ k ∈ limitWords, (q.left.tokenAt i).spells k = true) :
    q.Follows limit known i limitAnyOrder limitAnyOrder q.Clean
      fun _ => q.Clear [.comma] queryWords := by
  refine start_bind Clean.inside fun p p' opens => ?_
  have steps : q.Follows limit known i (loop limitStep ⟨false, none, none⟩)
      (loop limitStep ⟨false, none, none⟩) q.Clean fun _ => q.Clear [.comma] queryWords := by
    refine follows_loop_first (fun _ _ _ => rfl) rfl
      (limitStep_follows calls (fun _ _ _ => rfl) rfl (fun k _ clean other => ?_) id
        fun noLimit noOffset _ => ?_)
      (fun known k parts parts' lacks alike => limitStep_follows calls lacks alike
        (fun k mem quiet => quiet.words k mem) Clean.quietly fun _ _ => Clear.quietly)
      fun _ _ => Clear.quietly
    · rw [clean.spells, other]
    · obtain ⟨k, mem, spells⟩ := word
      simp only [limitWords, List.mem_cons, List.not_mem_nil, or_false] at mem
      rcases mem with rfl | rfl
      · rw [noLimit rfl] at spells
        cases spells
      · rw [noOffset rfl] at spells
        cases spells
  refine steps.bind fun k parts parts' alike => ?_
  obtain ⟨seen, count, offset⟩ := parts
  obtain ⟨seen', count', offset'⟩ := parts'
  simp only [Quoted, through_limitParts, LimitParts.mk.injEq] at alike
  obtain ⟨rfl, alike, alike'⟩ := alike
  dsimp only
  rw [isSome_of_quoted alike']
  split
  · refine spanFrom_bind opens fun _ _ _ => follows_pure ?_ ?_ id
    · simp +contextual [Lacks]
    · simp_all [Quoted]
  · exact follows_failAny _

/-- No limit begins where none of its words stand. -/
theorem limitClause_stops (form : LimitForm) {sheet : Sheet} {levels : List (TapeLevel Symbol)}
    (other : ∀ k ∈ limitWords, (sheet.tokenAt i).spells k = false) :
    (limitClause form).Stops levels sheet i :=
  stops_of_refuses fun _ here =>
    limitClause_refuses form here.peek (other .LIMIT (by decide)) (other .OFFSET (by decide))

theorem limitClause_never (form : LimitForm)
    (other : ¬ ∃ k ∈ limitWords, (q.left.tokenAt i).spells k = true) :
    (limitClause form).Never (sqlLevels f limit) q.left i := by
  intro s here v after read
  obtain ⟨m, after', fails⟩ := @limitClause_stops _ form q.left _
    (fun k mem => Bool.eq_false_iff.mpr fun spells => other ⟨k, mem, spells⟩) s here
  cases fails.symm.trans read

/-- A limit in any form. -/
theorem limitClause_follows (calls : q.CallsKeep limit) (form : LimitForm) :
    q.Follows limit known i (limitClause form) (limitClause form) q.Clean
      fun _ => q.Clear [.comma] queryWords := by
  by_cases word : ∃ k ∈ limitWords, (q.left.tokenAt i).spells k = true
  · cases form with
    | countFirst => exact limitCountFirst_follows calls
    | anyOrder => exact limitAnyOrder_follows calls word
  · exact follows_of_never (limitClause_never form word)

theorem limit?_follows (calls : q.CallsKeep limit) :
    q.Follows limit known i (limit? f) (limit? f) (q.Clear [.comma] joinWords)
      fun _ => q.Clear [.comma] queryWords := by
  have less : q.Clear [.comma] queryWords i → q.Clear [.comma] joinWords i :=
    fun clear => clear.mono (fun _ => id) fun _ mem => List.mem_append_left _ mem
  unfold limit?
  split
  · rename_i form _
    have plain : (limitClause form).Plain := by
      cases form <;> exact Blames.plain
        (by simp [limitClause, limitCountFirst, limitAnyOrder, limitCount?, limitOffset])
    refine follows_optional plain ?_ less fun clear _ =>
      limitClause_stops form fun k mem => clear.words k (List.mem_append_right _ mem)
    by_cases word : ∃ k ∈ limitWords, (q.left.tokenAt i).spells k = true
    · obtain ⟨k, mem, spells⟩ := word
      have apart : ∀ k ∈ limitWords, Apart [k] joinWords := by decide
      exact (limitClause_follows calls form).mono id
        (fun clean => clear_of_spells spells clean (apart k mem) (by simp; rfl)) fun _ _ => id
    · exact follows_of_never (limitClause_never form word)
  · exact follows_value (fun _ _ => rfl) less

end Diverging

/-- A query up to its limit. -/
def queryHead (f : Features) : SqlRule SelectStatement := do
  let start ← start
  let _ ← expectKeyword .SELECT
  let distinct ← distinct
  let columns ← commaSeparated (selectColumn f)
  let tables ← (do
    if ← eatKeyword .FROM then commaSeparated (tableRef f) else return [])
  let condition ← whereClause?
  let groupBy ← byClause .GROUP expression
  let having ← clause? .HAVING
  let orderBy ← byClause .ORDER (orderByItem f)
  return ⟨distinct, columns, tables, condition, groupBy, having, orderBy, none, ← spanFrom start⟩

/-- A query with the limit that follows it. -/
def limitedQuery (f : Features) : SqlRule SelectStatement := do
  let start ← start
  let head ← queryHead f
  let limit ← limit? f
  return { head with limit := limit, span := ← spanFrom start }

theorem succeeds_limitedQuery {f : Features} {levels : List (TapeLevel Symbol)} {s : Tape} {t : Token}
    (shown : s.peek = .ok t) {post : SelectStatement → Tape → Prop} :
    (limitedQuery f).Succeeds levels s post ↔ (queryBody f).Succeeds levels s post := by
  simp only [limitedQuery, queryHead, queryBody, succeeds_bind, succeeds_pure, succeeds_spanFrom,
    succeeds_start shown]

namespace Diverging

variable {f : Features} {q : Diverging f} {limit i : Nat} {known : Prop}

/-- A query up to its limit is the same if nothing of its rest follows in the second text only. -/
theorem queryHead_follows (calls : q.CallsKeep limit) :
    q.Follows limit known i (queryHead f) (queryHead f) q.Clean
      fun _ => q.Clear [.comma] joinWords := by
  have tables (known : Prop) (i : Nat) : q.Follows limit known i
      (do if ← eatKeyword .FROM then commaSeparated (tableRef f) else return [])
      (do if ← eatKeyword .FROM then commaSeparated (tableRef f) else return [])
      (q.Clear [.comma] joinWords) fun _ => q.Clear [.comma] joinWords := by
    refine eatKeyword_ite (by decide) Clear.calm
      (fun spells clean => clear_of_spells spells clean (by decide) (by simp; rfl)) (fun _ => ?_)
      fun _ => follows_value (fun _ _ => rfl) id
    refine (follows_commaSeparated (tableRef_blames f).plain (fun _ _ => tableRef_follows calls [])
      (fun k comma clean => ?_) (fun _ clear => clear.mono nofun fun _ => id)
      fun _ => Clear.noComma).freely
    exact clear_of_sameKind comma clean rfl nofun
  refine start_bind Clean.inside fun p p' opens => ?_
  refine expectKeyword_bind (fun _ => id) fun _ _ _ => ?_
  refine (distinct_keeps.follows (fun _ => trivial) fun _ _ => Inside.calm : q.Follows limit known (i + 1)
    _ _ (fun _ => True) fun (_ : Bool) => q.Inside).bind fun k distinct _ same => ?_
  obtain rfl : distinct = _ := same
  refine (selectColumns_follows calls joinWords).bind fun k columns columns' alike => ?_
  refine (tables _ _).bind fun k tables tables' alike₂ => ?_
  refine (clause?_follows calls (by decide) (by decide)).bind fun k condition condition' alike₃ => ?_
  refine (byClause_follows (by decide) (by decide) expression_blames.plain calls.any
    (fun _ _ _ => trivial) fun _ _ => trivial).bind fun k groupBy groupBy' alike₄ => ?_
  refine (clause?_follows calls (by decide) (by decide)).bind fun k having having' alike₅ => ?_
  refine (byClause_follows (by decide) (by decide)
    (Blames.plain (by simp [orderByItem, orderDirection, nullOrdering?]))
    (fun _ _ => orderByItem_follows calls) (fun _ _ => Clean.calm) fun _ => Clear.calm).bind
    fun k orderBy orderBy' alike₆ => ?_
  refine spanFrom_bind opens fun _ _ _ => follows_pure ?_ ?_ id
  · simp +contextual [Lacks]
  · simp_all [Quoted]

/-- A whole query is the same if nothing goes on with it in the second text only. -/
theorem queryBody_follows (calls : q.CallsKeep limit) :
    q.Follows limit known i (queryBody f) (queryBody f) q.Clean
      fun _ => q.Clear [.comma] queryWords := by
  have split : q.Follows limit known i (limitedQuery f) (limitedQuery f) q.Clean
      fun _ => q.Clear [.comma] queryWords := by
    refine start_bind Clean.inside fun p p' opens => ?_
    refine (queryHead_follows calls).bind fun k head head' alike => ?_
    refine (limit?_follows calls).bind fun k limit limit' alike' => ?_
    obtain ⟨distinct, columns, tables, condition, groupBy, having, orderBy, _, span⟩ := head
    obtain ⟨distinct', columns', tables', condition', groupBy', having', orderBy', _, span'⟩ := head'
    refine spanFrom_bind opens fun _ _ _ => follows_pure ?_ ?_ id
    · simp +contextual [Lacks]
    · simp_all [Quoted]
  exact (split.swap fun s here _ => (succeeds_limitedQuery here.peek).mpr).congr
    fun s here _ => (succeeds_limitedQuery here.peek).mp

theorem follows_call {α : Type} [Visible α] {name : Symbol α} {need : Nat → Prop} {free : α → Nat → Prop}
    (follows : q.Follows limit known i (Symbol.body f α name) (Symbol.body f α name) need free) :
    q.Follows (limit + 1) known i (call name) (call name) need free := by
  intro s here v after read
  obtain ⟨j, step⟩ := follows s here v after read
  exact ⟨j, step.le, step.place, step.lacks, step.need, step.right⟩

/-- At every level of nesting what may be called from inside itself gives the same in both texts. -/
theorem callsKeep (q : Diverging f) (limit : Nat) : q.CallsKeep limit := by
  induction limit with
  | zero =>
    have never {α : Type} [Visible α] {name : Symbol α} {need : Nat → Prop} {free : α → Nat → Prop}
        (known : Prop) (i : Nat) : q.Follows 0 known i (call name) (call name) need free :=
      follows_of_never fun _ _ => yields_tooDeep
    exact ⟨fun _ known i => never known i, never, never⟩
  | succ limit ih =>
    exact ⟨fun power known i => follows_call (expressionBody_holds ih power known i),
      fun _ _ => follows_call (queryBody_follows ih), fun _ _ => follows_call (joinGroupBody_follows ih)⟩

end Diverging

end SqlTree
