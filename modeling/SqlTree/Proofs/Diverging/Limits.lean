import SqlTree.Proofs.Diverging.Boundaries

namespace SqlTree

open Rule SqlRule

/-- What may follow an offset where a limit is written in any order. -/
def rowWords : List (List Part) := [[], [.word .ROW], [.word .ROWS]]

/-- The ways to write a limit with a count and an offset. -/
def LimitForm.spellings (count offset : String) : LimitForm → List (List Part)
  | .countFirst => [[.word .LIMIT, .text count, .word .OFFSET, .text offset],
      [.word .LIMIT, .text offset, .comma, .text count]]
  | .anyOrder => rowWords.flatMap fun rows =>
      [[.word .LIMIT, .text count] ++ (.word .OFFSET :: .text offset :: rows),
        (.word .OFFSET :: .text offset :: rows) ++ [.word .LIMIT, .text count]]

/-- The ways to begin a limit in any order and then to repeat the word of a part of it. Whatever comes
behind the word is left open. -/
def LimitForm.repeats (count offset : String) : LimitForm → List (List Part)
  | .countFirst => []
  | .anyOrder => [[.word .LIMIT, .text count], [.word .LIMIT, .word .ALL]].flatMap fun counts =>
      rowWords.flatMap fun rows =>
        let offsets : List Part := .word .OFFSET :: .text offset :: rows
        [counts ++ [.word .LIMIT, .anything], offsets ++ [.word .OFFSET, .anything]] ++
          [Keyword.LIMIT, .OFFSET].flatMap fun k =>
            [counts ++ (offsets ++ [.word k, .anything]), offsets ++ (counts ++ [.word k, .anything])]

/-- Whether an expression ends in front of a part. -/
def Part.closes : Part → Bool
  | .word k => boundaryWords.contains k
  | .comma => true
  | _ => false

section

variable {d : Dialect} {sheet : Sheet} {n m limit : Nat} {parts : List Part} {part : String} {e : Expr}

/-- Whether an expression ends in front of some parts, with which the text ends. -/
theorem Sheet.Holds.closes (holds : sheet.Holds d.lexical n parts m)
    (ended : parts = [] → (sheet.tokenAt m).isEof = true) (first : ∀ part ∈ parts.head?, part.closes = true) :
    (sheet.tokenAt n).Closes d.features := by
  cases holds with
  | nil => exact Token.closes_of_kind (.inr (by simpa [Token.isEof] using ended rfl))
  | word _ spells => exact Token.closes_of_spells (List.contains_iff_mem.mp (first _ rfl)) spells
  | comma _ kind => exact Token.closes_of_kind (.inl kind)
  | text => cases first _ rfl
  | anything => cases first _ rfl

/-- An expression among the parts of a text is found there. -/
theorem Sheet.Holds.expression (holds : sheet.Holds d.lexical n (.text part :: parts) m)
    (takes : d.Takes limit expression part e) (builtin : d ∈ Dialect.builtin)
    (isEof : sheet.closing.isEof = true)
    (ended : parts = [] → (sheet.tokenAt m).isEof = true)
    (first : ∀ part ∈ parts.head?, part.closes = true) :
    ∃ k, n ≤ k ∧ sheet.Holds d.lexical k parts m ∧
      SqlRule.expression.Lands (sqlLevels d.features limit) sheet n
        (fun e' => e'.through .unnumbered = e.through .unnumbered) k := by
  cases holds with
  | text alone stands rest =>
    have closes := rest.closes ended first
    exact ⟨_, Nat.le_add_right .., rest,
      takes.lands builtin alone stands isEof closes⟩

end

namespace SqlRule

section

variable {levels : List (TapeLevel Symbol)} {sheet : Sheet} {n m k : Nat} {good good' : Expr → Prop}
  {parts : LimitParts}

/-- A limit that begins with its count. -/
theorem limitCountFirst_lands (lt : n < sheet.length) (limit : (sheet.tokenAt n).spells .LIMIT = true)
    (first : expression.Lands levels sheet (n + 1) good m) (lt' : m < sheet.length)
    (second : expression.Lands levels sheet (m + 1) good' k) :
    ((sheet.tokenAt m).spells .OFFSET = true → limitCountFirst.Lands levels sheet n
      (fun l => ∃ count offset span, l = ⟨some count, some offset, span⟩ ∧ good count ∧ good' offset) k) ∧
    ((sheet.tokenAt m).kind = .comma → limitCountFirst.Lands levels sheet n
      (fun l => ∃ count offset span, l = ⟨some count, some offset, span⟩ ∧ good' count ∧ good offset) k) := by
  have lands {good'' : Limit → Prop} {next : Position → Expr → SqlRule Limit}
      (rest : ∀ p e, good e → (next p e).Lands levels sheet m good'' k) :
      (do
        let p ← start
        let _ ← expectKeyword .LIMIT
        let first ← expression
        next p first : SqlRule Limit).Lands levels sheet n good'' k :=
    comes_start.lands ((comes_expectKeyword lt limit).lands (first.bind fun e holds => rest _ e holds))
  refine ⟨fun offset => lands fun p e holds => ?_, fun comma => lands fun p e holds => ?_⟩
  · refine (comes_eatKeyword lt' offset).lands ?_
    exact second.bind fun o holds' => (comes_spanFrom p).lands (lands_pure ⟨e, o, _, rfl, holds, holds'⟩)
  · have word : (sheet.tokenAt m).spells .OFFSET = false := by rw [Token.spells, comma]
    have same : (sheet.tokenAt m).kind.sameKind .comma = true := by rw [comma]; rfl
    refine (comes_eatKeyword_not word).lands ((comes_eat lt' same).lands ?_)
    exact second.bind fun c holds' => (comes_spanFrom p).lands (lands_pure ⟨c, e, _, rfl, holds', holds⟩)

/-- A count in any order: an expression, or ALL, which stands for none. -/
theorem limitStep_count (unseen : parts.limitSeen = false) (lt : n < sheet.length)
    (limit : (sheet.tokenAt n).spells .LIMIT = true) {counted : Option Expr → Prop}
    (count : limitCount?.Lands levels sheet (n + 1) counted m) :
    (limitStep parts).Lands levels sheet n
      (fun next => ∃ c, next = some { parts with limitSeen := true, count := c } ∧ counted c) m := by
  unfold limitStep
  rw [unseen]
  exact (comes_eatKeyword lt limit).lands (count.bind fun c holds => lands_pure ⟨c, rfl, holds⟩)

/-- A step of a limit in any order reads an offset behind its word. -/
theorem limitStep_offset (unseen : parts.offset = none) (lt : n < sheet.length)
    (word : (sheet.tokenAt n).spells .OFFSET = true)
    (offset : limitOffset.Lands levels sheet (n + 1) good m) :
    (limitStep parts).Lands levels sheet n
      (fun next => ∃ o, next = some { parts with offset := some o } ∧ good o) m := by
  have other : (sheet.tokenAt n).spells .LIMIT = false :=
    Token.not_spells_of_spells word (by decide)
  have silent : (if parts.limitSeen then return false else eatKeyword .LIMIT : SqlRule Bool).Comes levels
      sheet n false n := by
    split
    · exact comes_pure false
    · exact comes_eatKeyword_not other
  unfold limitStep
  rw [unseen]
  exact silent.lands ((comes_eatKeyword lt word).lands (offset.bind fun o holds => lands_pure ⟨o, rfl, holds⟩))

/-- A limit in any order ends where neither part may follow. -/
theorem limitStep_none (limit : parts.limitSeen = true ∨ (sheet.tokenAt n).spells .LIMIT = false)
    (offset : parts.offset.isSome = true ∨ (sheet.tokenAt n).spells .OFFSET = false) :
    (limitStep parts).Lands levels sheet n (· = none) n := by
  have silent {seen : Bool} {k : Keyword} (other : seen = true ∨ (sheet.tokenAt n).spells k = false) :
      (if seen then return false else eatKeyword k : SqlRule Bool).Comes levels sheet n false n := by
    rcases other with rfl | other
    · exact comes_pure false
    · split
      · exact comes_pure false
      · exact comes_eatKeyword_not other
  exact (silent limit).lands ((silent offset).lands (lands_pure rfl))

/-- ALL stands for no count. -/
theorem limitCount?_all (lt : n < sheet.length) (all : (sheet.tokenAt n).spells .ALL = true) :
    limitCount?.Lands levels sheet n (fun c => c = none) (n + 1) :=
  (comes_eatKeyword lt all).lands (lands_pure rfl)

/-- Any other count. -/
theorem limitCount?_lands {f : Features} {limit : Nat}
    (count : expression.Lands (sqlLevels f limit) sheet n good m)
    (reserved : (sheet.tokenAt n).spells .ALL = true → (sheet.tokenAt n).kind = .keyword .ALL) :
    limitCount?.Lands (sqlLevels f limit) sheet n (fun c => ∃ e, c = some e ∧ good e) m := by
  intro s here
  obtain ⟨e, after, read, -⟩ := count s here
  obtain ⟨t, shown, other⟩ := expression_opens s e after read
  obtain rfl : sheet.tokenAt n = t := Except.ok.inj (here.peek.symm.trans shown)
  have silent : (sheet.tokenAt n).spells .ALL = false :=
    Bool.eq_false_iff.mpr fun all => absurd (other .ALL (reserved all)) (by decide)
  refine (?_ : limitCount?.Lands (sqlLevels f limit) sheet n _ m) s here
  exact (comes_eatKeyword_not silent).lands (count.bind fun e holds => lands_pure ⟨e, rfl, holds⟩)

/-- An offset may be followed by ROW or ROWS. -/
theorem limitOffset_lands (offset : expression.Lands levels sheet n good m) :
    ((sheet.tokenAt m).spells .ROW = false → (sheet.tokenAt m).spells .ROWS = false →
      limitOffset.Lands levels sheet n good m) ∧
    (m < sheet.length → (sheet.tokenAt m).spells .ROW = true ∨ (sheet.tokenAt m).spells .ROWS = true →
      limitOffset.Lands levels sheet n good (m + 1)) := by
  refine ⟨fun row rows => offset.bind fun o holds => ?_, fun lt rows => offset.bind fun o holds => ?_⟩
  · exact (comes_eatKeyword_not row).lands ((comes_eatKeyword_not rows).lands (lands_pure holds))
  · cases row : (sheet.tokenAt m).spells .ROW with
    | true => exact (comes_eatKeyword lt row).lands (lands_pure holds)
    | false =>
      have rows := rows.resolve_left (by simp [row])
      exact (comes_eatKeyword_not row).lands ((comes_eatKeyword lt rows).lands (lands_pure holds))

end

end SqlRule

/-- A count leads from parts without one to parts with it. -/
def GivesCount (counted : Option Expr → Prop) (x y : LimitParts) : Prop :=
  ∃ c, y = { x with limitSeen := true, count := c } ∧ counted c

def GivesOffset (skipped : Expr → Prop) (x y : LimitParts) : Prop :=
  ∃ o, y = { x with offset := some o } ∧ skipped o

/-- Whether a limit goes on neither with ROW nor with an expression in front of some parts. -/
def Part.pauses (part : Part) : Prop := part = .word .LIMIT ∨ part = .word .OFFSET

section

variable {d : Dialect} {sheet : Sheet} {n m limit : Nat} {parts : List Part} {e : Expr}

/-- An expression ends where a limit pauses. -/
theorem Part.pauses.closes {part : Part} (pauses : part.pauses) : part.closes = true := by
  rcases pauses with rfl | rfl <;> rfl

/-- No word for rows is next in front of such parts. -/
theorem Sheet.Holds.noRow (holds : sheet.Holds d.lexical n parts m)
    (ended : parts = [] → (sheet.tokenAt m).isEof = true) (first : ∀ part ∈ parts.head?, part.pauses) :
    (sheet.tokenAt n).spells .ROW = false ∧ (sheet.tokenAt n).spells .ROWS = false := by
  have silent {k : Keyword} (word : k = .LIMIT ∨ k = .OFFSET) (spells : (sheet.tokenAt n).spells k = true) :
      (sheet.tokenAt n).spells .ROW = false ∧ (sheet.tokenAt n).spells .ROWS = false := by
    rcases word with rfl | rfl <;>
      exact ⟨Token.not_spells_of_spells spells (by decide), Token.not_spells_of_spells spells (by decide)⟩
  cases holds with
  | nil =>
    have kind : (sheet.tokenAt n).kind = .eof := by simpa [Token.isEof] using ended rfl
    simp only [Token.spells, kind, and_self]
  | word _ spells => exact silent (by simpa [Part.pauses] using first _ rfl) spells
  | comma => simp [Part.pauses] at first
  | text => simp [Part.pauses] at first
  | anything => simp [Part.pauses] at first

/-- Parts of a limit that are read in one step, from where the parts that were read before are ready for
it, and lead from them to others. -/
def Sheet.Takes (sheet : Sheet) (d : Dialect) (limit m : Nat) (item : List Part)
    (ready : LimitParts → Prop) (gives : LimitParts → LimitParts → Prop) : Prop :=
  ∀ n more, sheet.Holds d.lexical n (item ++ more) m → (more = [] → (sheet.tokenAt m).isEof = true) →
    (∀ part ∈ more.head?, part.pauses) → ∃ k, n < k ∧ sheet.Holds d.lexical k more m ∧
      ∀ parts, ready parts → (limitStep parts).Lands (sqlLevels d.features limit) sheet n
        (fun next => ∃ y, next = some y ∧ gives parts y) k

/-- A step of a limit that reads ALL gives no count. -/
theorem Sheet.takes_all : sheet.Takes d limit m [.word .LIMIT, .word .ALL] (·.limitSeen = false)
    (GivesCount (· = none)) := by
  intro n more holds _ _
  cases holds with
  | word lt word holds =>
    cases holds with
    | word lt' all rest =>
      refine ⟨_, by omega, rest, fun parts unseen => ?_⟩
      refine (limitStep_count unseen lt word (limitCount?_all lt' all)).mono ?_
      rintro _ ⟨c, rfl, none⟩
      exact ⟨_, rfl, c, rfl, none⟩

theorem Sheet.takes_count {c : String} (takes : d.Takes limit expression c e) (builtin : d ∈ Dialect.builtin)
    (isEof : sheet.closing.isEof = true)
    (reserved : ∀ i, (sheet.tokenAt i).spells .ALL = true → (sheet.tokenAt i).kind = .keyword .ALL) :
    sheet.Takes d limit m [.word .LIMIT, .text c] (·.limitSeen = false)
      (GivesCount fun c => ∃ e', c = some e' ∧ e'.through .unnumbered = e.through .unnumbered) := by
  intro n more holds ended pauses
  cases holds with
  | word lt word holds =>
    obtain ⟨k, le, rest, lands⟩ := holds.expression takes builtin isEof ended fun part mem => (pauses part mem).closes
    refine ⟨k, by omega, rest, fun parts unseen => ?_⟩
    refine (limitStep_count unseen lt word (limitCount?_lands lands (reserved _))).mono ?_
    rintro _ ⟨c, rfl, same⟩
    exact ⟨_, rfl, c, rfl, same⟩

theorem Sheet.takes_offset {o : String} (takes : d.Takes limit expression o e) (builtin : d ∈ Dialect.builtin)
    (isEof : sheet.closing.isEof = true) {rows : List Part} (mem : rows ∈ rowWords) :
    sheet.Takes d limit m (.word .OFFSET :: .text o :: rows) (·.offset = none)
      (GivesOffset fun e' => e'.through .unnumbered = e.through .unnumbered) := by
  intro n more holds ended pauses
  have found {n k : Nat} (lt : n < sheet.length) (word : (sheet.tokenAt n).spells .OFFSET = true)
      (le : n + 1 ≤ k) (rest : sheet.Holds d.lexical k more m)
      (lands : limitOffset.Lands (sqlLevels d.features limit) sheet (n + 1)
        (fun e' => e'.through .unnumbered = e.through .unnumbered) k) :
      ∃ k, n < k ∧ sheet.Holds d.lexical k more m ∧ ∀ parts : LimitParts, parts.offset = none →
        (limitStep parts).Lands (sqlLevels d.features limit) sheet n (fun next => ∃ y, next = some y ∧
          GivesOffset (fun e' => e'.through .unnumbered = e.through .unnumbered) parts y) k := by
    refine ⟨k, le, rest, fun parts unseen => (limitStep_offset unseen lt word lands).mono ?_⟩
    rintro _ ⟨o, rfl, same⟩
    exact ⟨_, rfl, o, rfl, same⟩
  cases holds with
  | word lt word holds =>
    simp only [rowWords, List.mem_cons, List.not_mem_nil, or_false] at mem
    rcases mem with rfl | rfl | rfl
    · obtain ⟨k, le, rest, lands⟩ := holds.expression takes builtin isEof ended fun part mem => (pauses part mem).closes
      obtain ⟨row, rows⟩ := rest.noRow ended pauses
      exact found lt word le rest ((limitOffset_lands lands).1 row rows)
    all_goals
      obtain ⟨k, le, rest, lands⟩ := holds.expression takes builtin isEof nofun (by simp [Part.closes, boundaryWords])
      cases rest with
      | word lt' row rest =>
        exact found lt word (by omega) rest ((limitOffset_lands lands).2 lt' (by simp [row]))

/-- From some parts of a limit on, a limit in any order comes to others, in front of the rest of the
text. -/
def Sheet.Loops (sheet : Sheet) (d : Dialect) (limit m n : Nat) (x : LimitParts) (rest : List Part)
    (good : LimitParts → Prop) : Prop :=
  ∀ s : Tape, s.At sheet n → (loop limitStep x).Succeeds (sqlLevels d.features limit) s fun y after =>
    good y ∧ ∃ k, sheet.Holds d.lexical k rest m ∧ after.At sheet k

variable {x : LimitParts} {item more rest : List Part} {good : LimitParts → Prop}

/-- One step of a limit, and what is read behind it. -/
theorem Sheet.Takes.loops {ready : LimitParts → Prop} {gives : LimitParts → LimitParts → Prop}
    (takes : sheet.Takes d limit m item ready gives) (holds : sheet.Holds d.lexical n (item ++ more) m)
    (ended : more = [] → (sheet.tokenAt m).isEof = true) (pauses : ∀ part ∈ more.head?, part.pauses)
    (isReady : ready x)
    (goes : ∀ k, sheet.Holds d.lexical k more m → ∀ y, gives x y → sheet.Loops d limit m k y rest good) :
    sheet.Loops d limit m n x rest good := by
  obtain ⟨k, lt, more, lands⟩ := takes n more holds ended pauses
  intro s here
  refine succeeds_loop_of_step (sqlLevels_forward d.features limit) ((lands x isReady s here).mono ?_)
  rintro _ between ⟨⟨y, rfl, gives⟩, there⟩
  have further : s.lastEnd.offset < between.lastEnd.offset := by
    rw [here.lastEnd, there.lastEnd]
    exact sheet.stopAt_lt lt there.within
  dsimp only
  rw [if_pos further]
  exact goes k more y gives between there

/-- What ends a limit: the end of the text, or a part that was there before. -/
def SqlRule.LimitParts.endsWith (parts : LimitParts) (rest : List Part) : Prop :=
  rest = [] ∨ ∃ k others, rest = .word k :: others ∧
    (k = .LIMIT ∧ parts.limitSeen = true ∨ k = .OFFSET ∧ parts.offset.isSome = true)

/-- A limit ends with the text, or in front of a part that was there before. -/
theorem Sheet.Holds.loops (holds : sheet.Holds d.lexical n rest m)
    (ended : rest = [] → (sheet.tokenAt m).isEof = true) (ends : x.endsWith rest) (isGood : good x) :
    sheet.Loops d limit m n x rest good := by
  have last : (limitStep x).Lands (sqlLevels d.features limit) sheet n (· = none) n := by
    rcases ends with rfl | ⟨k, others, rfl, word⟩
    · cases holds with
      | nil =>
        have kind : (sheet.tokenAt n).kind = .eof := by simpa [Token.isEof] using ended rfl
        exact limitStep_none (.inr (by rw [Token.spells, kind])) (.inr (by rw [Token.spells, kind]))
    · cases holds with
      | word _ spells =>
        rcases word with ⟨rfl, seen⟩ | ⟨rfl, seen⟩
        · exact limitStep_none (.inl seen) (.inr (Token.not_spells_of_spells spells (by decide)))
        · exact limitStep_none (.inr (Token.not_spells_of_spells spells (by decide))) (.inl seen)
  intro s here
  refine succeeds_loop_of_step (sqlLevels_forward d.features limit) ((last s here).mono ?_)
  rintro _ after ⟨rfl, there⟩
  exact ⟨isGood, n, holds, there⟩

variable {counts offsets : List Part} {counted : Option Expr → Prop} {skipped : Expr → Prop}

/-- A count and an offset, in either order. -/
theorem Sheet.Takes.loops_both
    (takes : sheet.Takes d limit m (.word .LIMIT :: counts) (·.limitSeen = false) (GivesCount counted))
    (takes' : sheet.Takes d limit m (.word .OFFSET :: offsets) (·.offset = none) (GivesOffset skipped))
    (holds : sheet.Holds d.lexical n ((.word .LIMIT :: counts) ++ ((.word .OFFSET :: offsets) ++ rest)) m ∨
      sheet.Holds d.lexical n ((.word .OFFSET :: offsets) ++ ((.word .LIMIT :: counts) ++ rest)) m)
    (ended : rest = [] → (sheet.tokenAt m).isEof = true) (pauses : ∀ part ∈ rest.head?, part.pauses)
    (ends : ∀ c o, (⟨true, c, some o⟩ : LimitParts).endsWith rest) :
    sheet.Loops d limit m n ⟨false, none, none⟩ rest
      fun y => ∃ c o, y = ⟨true, c, some o⟩ ∧ counted c ∧ skipped o := by
  rcases holds with holds | holds
  · refine takes.loops holds nofun (by simp [Part.pauses]) rfl ?_
    rintro k holds _ ⟨c, rfl, isCounted⟩
    refine takes'.loops holds ended pauses rfl ?_
    rintro k holds _ ⟨o, rfl, isSkipped⟩
    exact holds.loops ended (ends c o) ⟨c, o, rfl, isCounted, isSkipped⟩
  · refine takes'.loops holds nofun (by simp [Part.pauses]) rfl ?_
    rintro k holds _ ⟨o, rfl, isSkipped⟩
    refine takes.loops holds ended pauses rfl ?_
    rintro k holds _ ⟨c, rfl, isCounted⟩
    exact holds.loops ended (ends c o) ⟨c, o, rfl, isCounted, isSkipped⟩

/-- A limit in some form is read from one place on, in front of the rest of the text. -/
def Sheet.Limits (sheet : Sheet) (d : Dialect) (form : LimitForm) (limit m n : Nat) (rest : List Part)
    (good : Limit → Prop) : Prop :=
  ∀ s : Tape, s.At sheet n → (limitClause form).Succeeds (sqlLevels d.features limit) s fun l after =>
    good l ∧ ∃ k, sheet.Holds d.lexical k rest m ∧ after.At sheet k

/-- A limit in any order has at least one part. -/
theorem Sheet.Loops.limits (loops : sheet.Loops d limit m n ⟨false, none, none⟩ rest good)
    (seen : ∀ y, good y → (y.limitSeen || y.offset.isSome) = true) :
    sheet.Limits d .anyOrder limit m n rest fun l => ∃ y span, good y ∧ l = ⟨y.count, y.offset, span⟩ := by
  intro s here
  change limitAnyOrder.Succeeds _ s _
  rw [limitAnyOrder_eq, succeeds_bind, succeeds_start here.peek, succeeds_bind]
  refine (loops s here).mono fun y between ⟨holds, place⟩ => ?_
  rw [if_pos (seen y holds), succeeds_bind, succeeds_spanFrom, succeeds_pure]
  exact ⟨⟨y, _, holds, rfl⟩, place⟩

/-- Every spelling of a limit is read as the same count and the same offset. -/
theorem Sheet.limits_of_spelling {form : LimitForm} {c o : String} {count offset : Expr}
    (counts : d.Takes limit expression c count) (offsets : d.Takes limit expression o offset)
    (builtin : d ∈ Dialect.builtin) (isEof : sheet.closing.isEof = true)
    (ended : (sheet.tokenAt m).isEof = true)
    (reserved : ∀ i, (sheet.tokenAt i).spells .ALL = true → (sheet.tokenAt i).kind = .keyword .ALL)
    {spelling : List Part} (mem : spelling ∈ form.spellings c o) (holds : sheet.Holds d.lexical n spelling m) :
    sheet.Limits d form limit m n [] fun l =>
      l.sketch .unnumbered = (⟨some count, some offset, .nothing⟩ : Limit).sketch .unnumbered := by
  cases form with
  | countFirst =>
    simp only [LimitForm.spellings, List.mem_cons, List.not_mem_nil, or_false] at mem
    rcases mem with rfl | rfl
    · cases holds with
      | word lt word holds =>
        obtain ⟨k, le, holds, first⟩ := holds.expression counts builtin isEof nofun (by rintro _ ⟨⟩; rfl)
        cases holds with
        | word lt' word' holds =>
          obtain ⟨j, le', holds, second⟩ := holds.expression offsets builtin isEof (fun _ => ended) nofun
          intro s here
          refine ((limitCountFirst_lands lt word first lt' second).1 word' s here).mono ?_
          rintro _ after ⟨⟨c, o, span, rfl, same, same'⟩, there⟩
          exact ⟨by simp [Limit.sketch, Limit.through, same, same'], j, holds, there⟩
    · cases holds with
      | word lt word holds =>
        obtain ⟨k, le, holds, first⟩ := holds.expression offsets builtin isEof nofun (by rintro _ ⟨⟩; rfl)
        cases holds with
        | comma lt' comma holds =>
          obtain ⟨j, le', holds, second⟩ := holds.expression counts builtin isEof (fun _ => ended) nofun
          intro s here
          refine ((limitCountFirst_lands lt word first lt' second).2 comma s here).mono ?_
          rintro _ after ⟨⟨c, o, span, rfl, same, same'⟩, there⟩
          exact ⟨by simp [Limit.sketch, Limit.through, same, same'], j, holds, there⟩
  | anyOrder =>
    obtain ⟨rows, isRow, spelled⟩ := List.mem_flatMap.mp mem
    have both : sheet.Loops d limit m n ⟨false, none, none⟩ [] _ :=
      Takes.loops_both (takes_count counts builtin isEof reserved) (takes_offset offsets builtin isEof isRow)
        ?_ (fun _ => ended) nofun fun _ _ => .inl rfl
    · intro s here
      refine (both.limits (by rintro _ ⟨c, o, rfl, -⟩; rfl) s here).mono ?_
      rintro _ after ⟨⟨_, span, ⟨_, o, rfl, ⟨c, rfl, same⟩, same'⟩, rfl⟩, place⟩
      exact ⟨by simp [Limit.sketch, Limit.through, same, same'], place⟩
    · simp only [List.mem_cons, List.not_mem_nil, or_false] at spelled
      simp only [List.append_nil]
      rcases spelled with rfl | rfl
      · exact .inl holds
      · exact .inr holds

/-- Behind the part of a limit whose word is repeated, the limit ends. -/
theorem Sheet.limits_of_repeat {form : LimitForm} {c o : String} {count offset : Expr}
    (counts : d.Takes limit expression c count) (offsets : d.Takes limit expression o offset)
    (builtin : d ∈ Dialect.builtin) (isEof : sheet.closing.isEof = true)
    (reserved : ∀ i, (sheet.tokenAt i).spells .ALL = true → (sheet.tokenAt i).kind = .keyword .ALL)
    {clause : List Part} (mem : clause ∈ form.repeats c o) :
    ∃ k ∈ limitWords, ∀ n, sheet.Holds d.lexical n clause m →
      sheet.Limits d form limit m n [.word k, .anything] fun _ => True := by
  cases form with
  | countFirst => cases mem
  | anyOrder =>
    obtain ⟨counted, isCount, mem⟩ := List.mem_flatMap.mp mem
    obtain ⟨rows, isRow, mem⟩ := List.mem_flatMap.mp mem
    have takes' : sheet.Takes d limit m (.word .OFFSET :: .text o :: rows) (·.offset = none) _ :=
      takes_offset offsets builtin isEof isRow
    obtain ⟨more, counting, rfl, takes⟩ : ∃ more counting, counted = .word .LIMIT :: more ∧
        sheet.Takes d limit m (.word .LIMIT :: more) (·.limitSeen = false) (GivesCount counting) := by
      simp only [List.mem_cons, List.not_mem_nil, or_false] at isCount
      rcases isCount with rfl | rfl
      · exact ⟨_, _, rfl, takes_count counts builtin isEof reserved⟩
      · exact ⟨_, _, rfl, takes_all⟩
    have pauses {k : Keyword} (word : k ∈ limitWords) :
        ∀ part ∈ [Part.word k, .anything].head?, part.pauses := by
      rintro _ ⟨⟩
      simpa [limitWords, Part.pauses] using word
    have never {k : Keyword} {p : Prop} (none : [Part.word k, .anything] = []) : p := by
      cases none
    have done {n : Nat} {k : Keyword} {good : LimitParts → Prop}
        (loops : sheet.Loops d limit m n ⟨false, none, none⟩ [.word k, .anything] good)
        (seen : ∀ y, good y → (y.limitSeen || y.offset.isSome) = true) :
        sheet.Limits d .anyOrder limit m n [.word k, .anything] fun _ => True :=
      fun s here => (loops.limits seen s here).mono fun _ _ holds => ⟨trivial, holds.2⟩
    have both {n : Nat} {k : Keyword} (word : k ∈ limitWords) (holds :
        sheet.Holds d.lexical n ((.word .LIMIT :: more) ++ ((.word .OFFSET :: .text o :: rows) ++ [.word k, .anything])) m ∨
        sheet.Holds d.lexical n ((.word .OFFSET :: .text o :: rows) ++ ((.word .LIMIT :: more) ++ [.word k, .anything])) m) :
        sheet.Limits d .anyOrder limit m n [.word k, .anything] fun _ => True := by
      refine done (takes.loops_both takes' holds never (pauses word) fun c o => ?_) ?_
      · exact .inr ⟨k, _, rfl, by simpa [limitWords] using word⟩
      · rintro _ ⟨c, o, rfl, -⟩
        rfl
    simp only [List.mem_append, List.mem_flatMap, List.mem_cons, List.not_mem_nil, or_false] at mem
    rcases mem with (rfl | rfl) | ⟨k, word, rfl | rfl⟩
    · refine ⟨.LIMIT, by decide, fun n holds => ?_⟩
      refine done (takes.loops holds never (pauses (by decide)) rfl ?_) fun y seen => seen
      rintro k holds _ ⟨c, rfl, -⟩
      exact holds.loops never (.inr ⟨_, _, rfl, .inl ⟨rfl, rfl⟩⟩) rfl
    · refine ⟨.OFFSET, by decide, fun n holds => ?_⟩
      refine done (takes'.loops holds never (pauses (by decide)) rfl ?_) fun y seen => seen
      rintro k holds _ ⟨c, rfl, -⟩
      exact holds.loops never (.inr ⟨_, _, rfl, .inr ⟨rfl, rfl⟩⟩) rfl
    · have word : k ∈ limitWords := by simpa [limitWords] using word
      exact ⟨k, word, fun n holds => both word (.inl holds)⟩
    · have word : k ∈ limitWords := by simpa [limitWords] using word
      exact ⟨k, word, fun n holds => both word (.inr holds)⟩

end

namespace Dialect

section

variable {d : Dialect} {form : LimitForm} {limit m : Nat} {h : String} {head : SelectStatement}
  {sheet : Sheet} {tokens : List Token} {eof : Token}

/-- A query without a limit is a head that its text ends with. -/
theorem Takes.readHead (takes : d.Takes (limit + 1) selectStatement h head) (has : d.features.limit = some form)
    (unlimited : head.limit = none) (alone : Lexes d.lexical (.ofText h.toList) tokens (.ok eof)) :
    ∃ body after, (queryHead d.features).read (sqlLevels d.features limit)
        (.ofText h.toList tokens (.ok eof)) = (.ok body, after) ∧ after.tokens = [] ∧
      ({ body with limit := none } : SelectStatement).sketch .bare = head.sketch .bare := by
  obtain ⟨tokens', eof', after, alone', empty, read⟩ := takes.read
  obtain ⟨rfl, rfl⟩ := alone.unique alone'
  have whole : (queryBody d.features).Succeeds (sqlLevels d.features limit)
      (.ofText h.toList tokens' (.ok eof')) fun v after => v = head ∧ after.tokens = [] :=
    ⟨head, after, read, rfl, empty⟩
  rw [← succeeds_limitedQuery alone'.at_start.peek, limitedQuery, succeeds_bind,
    succeeds_start alone'.at_start.peek, succeeds_bind] at whole
  obtain ⟨body, mid, readHead, rest⟩ := whole
  simp only [succeeds_bind, succeeds_spanFrom, succeeds_pure] at rest
  obtain ⟨limit, after, readLimit, rfl, empty⟩ := rest
  obtain rfl : limit = none := unlimited
  have back : mid.Returns after := by
    rw [limit?, has] at readLimit
    exact read_optional_missing (sqlLevels_forward d.features _) readLimit (by simp)
  refine ⟨body, mid, readHead, back.tokens.symm.trans empty, ?_⟩
  simp only [SelectStatement.sketch, SelectStatement.through, View.lens_bare, Lens.span_bare]

/-- Apart from its limit a query is seen through a lens as it is without it. -/
theorem through_unlimited {lens : Lens} (s : SelectStatement) :
    ({ s with limit := none } : SelectStatement).through lens = { s.through lens with limit := none } := by
  cases s
  simp [SelectStatement.through]

/-- A token behind which a query has its limit. -/
theorem mild_of_limitWord {f : Features} {q : Diverging f} {k : Keyword} (mem : k ∈ limitWords)
    (kind : (q.right.tokenAt q.spot).kind = .keyword k) : q.Mild where
  words other low _ := by
    rw [Token.spells, kind]
    exact beq_false_of_ne fun same => low (same ▸ mem)
  bareAlias _ := by rw [isBareAlias, kind]
  type _ := by
    have other : ∀ k ∈ limitWords, k ∉ typeKeywords := by decide
    simp [Token.typeWord?, kind, other k mem]
  plainWord _ _ := by rw [Token.isPlainWord, kind]

/-- A head is read wherever it stands in front of a limit. -/
theorem Takes.head_stands (takes : d.Takes (limit + 1) selectStatement h head) (builtin : d ∈ Dialect.builtin)
    (has : d.features.limit = some form) (unlimited : head.limit = none)
    (alone : Lexes d.lexical (.ofText h.toList) tokens (.ok eof)) (stands : alone.sheet.Stands sheet 0)
    (isEof : sheet.closing.isEof = true) {k : Keyword} (mem : k ∈ limitWords)
    (kind : (sheet.tokenAt alone.sheet.length).kind = .keyword k) {s : Tape} (here : s.At sheet 0)
    (first : s.params = 0) :
    (queryHead d.features).Succeeds (sqlLevels d.features limit) s fun body after =>
      ({ body with limit := none } : SelectStatement).sketch .bare = head.sketch .bare ∧
        after.At sheet alone.sheet.length := by
  obtain ⟨body, after, read, empty, same⟩ := takes.readHead has unlimited alone
  have spells : (sheet.tokenAt (0 + alone.sheet.length)).spells k = true := by
    rw [Nat.zero_add, Token.spells, kind]
    exact beq_self_eq_true k
  have closes : (sheet.tokenAt (0 + alone.sheet.length)).Closes d.features :=
    Token.closes_of_spells (List.mem_append_left _ mem : k ∈ limitWords ++ [.ROW, .ROWS, .AS]) spells
  let q := Diverging.ofStands stands alone.eof_of_ok isEof closes.ends (fun _ _ _ => closes.type _)
    (alone.telling builtin) 0
  have kind' : (q.right.tokenAt q.spot).kind = .keyword k := by
    change ((sheet.drop 0).tokenAt alone.sheet.length).kind = _
    rwa [Sheet.drop_tokenAt, Nat.zero_add]
  have clear : q.Clear [.comma] joinWords q.spot := by
    refine ⟨.inr (mild_of_limitWord mem kind'), False.elim, ?_, fun word isJoin => ?_⟩
    · rw [kind']
      simp [TokenKind.sameKind, TokenKind.ctorIdx]
    · have apart : ∀ k ∈ limitWords, ∀ word ∈ joinWords, k ≠ word := by decide
      rw [Token.spells, kind']
      exact beq_false_of_ne (apart k mem word isJoin)
  have follows : q.Follows limit True 0 (queryHead d.features) (queryHead d.features) q.Clean
      fun _ => q.Clear [.comma] joinWords := Diverging.queryHead_follows (q.callsKeep limit)
  obtain ⟨body', after', read', there, -, same'⟩ := follows.whole id rfl alone.at_start read empty clear
    ((sheet.at_drop (Nat.zero_le _)).mpr here) (by rw [Diverging.Counts, first]; rfl)
  have plain : q.plain = Lens.bare := rfl
  rw [plain] at same'
  refine ⟨body', after', read', ?_, ?_⟩
  · have unlimited := congrArg (fun s : SelectStatement => { s with limit := none }) same'
    exact (through_unlimited body').trans (unlimited.symm.trans ((through_unlimited body).symm.trans same))
  · have there := (sheet.at_drop (Nat.zero_le _)).mp there
    rwa [Nat.zero_add] at there

/-- A head with a limit behind it. -/
theorem Takes.limited (takes : d.Takes (limit + 1) selectStatement h head) (builtin : d ∈ Dialect.builtin)
    (has : d.features.limit = some form) (unlimited : head.limit = none) (isEof : sheet.closing.isEof = true)
    {k : Keyword} {others rest : List Part} (mem : k ∈ limitWords)
    (reserved : ∀ i, (sheet.tokenAt i).spells k = true → (sheet.tokenAt i).kind = .keyword k)
    (holds : sheet.Holds d.lexical 0 (.text h :: .word k :: others) m) {good : Limit → Prop}
    (limits : ∀ n, sheet.Holds d.lexical n (.word k :: others) m → sheet.Limits d form limit m n rest good)
    {s : Tape} (here : s.At sheet 0) (first : s.params = 0) :
    selectStatement.Succeeds (sqlLevels d.features (limit + 1)) s fun query after =>
      ({ query with limit := none } : SelectStatement).sketch .bare = head.sketch .bare ∧
        (∃ l, query.limit = some l ∧ good l) ∧ ∃ j, sheet.Holds d.lexical j rest m ∧ after.At sheet j := by
  change (queryBody d.features).Succeeds (sqlLevels d.features limit) s _
  cases holds with
  | text alone stands holds =>
    have kind : (sheet.tokenAt alone.sheet.length).kind = .keyword k := by
      cases holds with
      | word _ spells => rw [Nat.zero_add] at spells; exact reserved _ spells
    rw [← succeeds_limitedQuery here.peek, limitedQuery, succeeds_bind, succeeds_start here.peek, succeeds_bind]
    refine (takes.head_stands builtin has unlimited alone stands isEof mem kind here first).mono ?_
    rintro body between ⟨same, there⟩
    rw [Nat.zero_add] at holds
    have limited : (limit? d.features).Succeeds (sqlLevels d.features limit) between fun l after =>
        (∃ l', l = some l' ∧ good l') ∧ ∃ j, sheet.Holds d.lexical j rest m ∧ after.At sheet j := by
      rw [limit?, has]
      refine Succeeds.optional ((limits _ holds between there).mono ?_) there.cancelAfter
      rintro l _ ⟨holds, place⟩
      exact ⟨⟨l, rfl, holds⟩, place⟩
    refine succeeds_bind.mpr (limited.mono ?_)
    rintro _ after ⟨⟨l, rfl, holds⟩, place⟩
    simp only [succeeds_bind, succeeds_spanFrom, succeeds_pure]
    refine ⟨?_, ⟨l, rfl, holds⟩, place⟩
    simpa only [SelectStatement.sketch, SelectStatement.through, View.lens_bare, Lens.span_bare] using same

/-- The words of a limit are reserved where they may follow a head. -/
theorem limit_reserved (builtin : d ∈ Dialect.builtin) (has : d.features.limit = some form) :
    d.reserves .ALL = true ∧ d.reserves .LIMIT = true ∧ (form = .anyOrder → d.reserves .OFFSET = true) := by
  simp only [Dialect.builtin, List.mem_cons, List.not_mem_nil, or_false] at builtin
  rcases builtin with rfl | rfl | rfl | rfl <;> cases has <;> decide

end

end Dialect

/-- Every spelling of a limit begins with a word of it. -/
theorem LimitForm.starts {form : LimitForm} {c o : String} {clause : List Part}
    (mem : clause ∈ form.spellings c o ∨ clause ∈ form.repeats c o) :
    ∃ k others, clause = .word k :: others ∧ (k = .LIMIT ∨ k = .OFFSET ∧ form = .anyOrder) := by
  cases form with
  | countFirst =>
    simp only [spellings, repeats, List.mem_cons, List.not_mem_nil, or_false] at mem
    rcases mem with rfl | rfl <;> exact ⟨_, _, rfl, .inl rfl⟩
  | anyOrder =>
    simp only [spellings, repeats, List.mem_flatMap, List.mem_append, List.mem_cons, List.not_mem_nil,
      or_false] at mem
    rcases mem with ⟨rows, -, rfl | rfl⟩ |
      ⟨counts, rfl | rfl, rows, -, (rfl | rfl) | ⟨k, -, rfl | rfl⟩⟩ <;>
      first | exact ⟨_, _, rfl, .inl rfl⟩ | exact ⟨_, _, rfl, .inr ⟨rfl, rfl⟩⟩

/-- All spellings of a limit mean the same behind any head that has none, whatever its count and its
offset are; and where its parts stand in any order, none of them is repeated. -/
theorem Dialect.limit_spellings {d : Dialect} (builtin : d ∈ Dialect.builtin) {form : LimitForm}
    (has : d.features.limit = some form) {h c o : String} {head : SelectStatement} {count offset : Expr}
    (heads : d.Takes maxNesting selectStatement h head) (unlimited : head.limit = none)
    (counts : d.Takes 127 expression c count) (offsets : d.Takes 127 expression o offset) :
    (∀ spelling ∈ form.spellings c o, ∀ text, Composed d.lexical text (.text h :: spelling) →
      ∃ m, d.parse .select text = .ok (.select m) ∧
        ({ m with limit := none } : SelectStatement).sketch .bare = head.sketch .bare ∧
        m.limit.map (Limit.sketch .unnumbered) =
          some (Limit.sketch .unnumbered ⟨some count, some offset, .nothing⟩)) ∧
    ∀ clause ∈ form.repeats c o, ∀ text, Composed d.lexical text (.text h :: clause) →
      ∃ e, d.parse .select text = .error e := by
  obtain ⟨all, limit, offset⟩ := limit_reserved builtin has
  have supported : d.supports .select := by
    obtain ⟨-, -, single⟩ := Dialect.builtin_supports builtin
    exact (single .select (by decide)).mpr nofun
  -- Any clause is read in the text up to where its limit ends.
  have query {clause rest : List Part} {good : Limit → Prop} {text : String} {tokens : List Token} {eof : Token}
      (mem : clause ∈ form.spellings c o ∨ clause ∈ form.repeats c o)
      (lexes : Lexes d.lexical (.ofText text.toList) tokens (.ok eof))
      (holds : lexes.sheet.Holds d.lexical 0 (.text h :: clause) lexes.sheet.length)
      (limits : ∀ n, lexes.sheet.Holds d.lexical n clause lexes.sheet.length →
        lexes.sheet.Limits d form 127 lexes.sheet.length n rest good) :
      selectStatement.Succeeds (sqlLevels d.features (127 + 1)) (.ofText text.toList tokens (.ok eof))
        fun m after => ({ m with limit := none } : SelectStatement).sketch .bare = head.sketch .bare ∧
          (∃ l, m.limit = some l ∧ good l) ∧
          ∃ j, lexes.sheet.Holds d.lexical j rest lexes.sheet.length ∧ after.At lexes.sheet j := by
    obtain ⟨k, others, rfl, word⟩ := LimitForm.starts mem
    have reserved : d.reserves k = true := by
      rcases word with rfl | ⟨rfl, any⟩
      · exact limit
      · exact offset any
    have isEof : lexes.sheet.closing.isEof = true := lexes.eof_of_ok
    have mem : k ∈ limitWords := by rcases word with rfl | ⟨rfl, -⟩ <;> decide
    exact heads.limited builtin has unlimited isEof mem (lexes.kind_of_spells builtin reserved) holds limits
      lexes.at_start rfl
  have ended {text : String} {tokens : List Token} {eof : Token}
      (lexes : Lexes d.lexical (.ofText text.toList) tokens (.ok eof)) :
      (lexes.sheet.tokenAt lexes.sheet.length).isEof = true := by
    rw [lexes.sheet.tokenAt_length]
    exact lexes.eof_of_ok
  refine ⟨fun spelling mem text composed => ?_, fun clause mem text composed => ?_⟩
  · obtain ⟨tokens, eof, lexes, holds⟩ := composed.holds
    obtain ⟨m, after, read, same, ⟨l, isLimit, same'⟩, j, rest, there⟩ := query (.inl mem) lexes holds
      fun n holds => lexes.sheet.limits_of_spelling counts offsets builtin lexes.eof_of_ok (ended lexes)
        (lexes.kind_of_spells builtin all) mem holds
    refine ⟨m, (Dialect.parse_iff supported lexes).mpr ⟨after, read_map_iff.mpr ⟨m, read, rfl⟩, ?_⟩, same, ?_⟩
    · cases rest with
      | nil =>
        refine ⟨⟨_, there.stop⟩, .inl ?_⟩
        rw [there.tokens, List.drop_length]
        rfl
    · rw [isLimit, Option.map_some, same']
  · obtain ⟨tokens, eof, lexes, holds⟩ := composed.holds
    obtain ⟨k, word, limits⟩ := lexes.sheet.limits_of_repeat counts offsets builtin lexes.eof_of_ok
      (lexes.kind_of_spells builtin all) mem
    obtain ⟨m, after, read, -, -, j, rest, there⟩ := query (.inr mem) lexes holds limits
    cases parsed : d.parse .select text with
    | error e => exact ⟨e, rfl⟩
    | ok model =>
      obtain ⟨mid, read', near⟩ := (Dialect.parse_iff supported lexes).mp parsed
      obtain ⟨_, again, rfl⟩ := read_map_iff.mp read'
      obtain ⟨-, rfl⟩ := Prod.mk.inj (read.symm.trans again)
      cases rest with
      | word lt spells =>
        -- A query is followed by nothing but a semicolon and the end of the text.
        have next : after.tokens = lexes.sheet.tokenAt j :: lexes.sheet.tokens.drop (j + 1) := by
          rw [there.tokens, lexes.sheet.drop_of_lt lt]
          exact List.append_nil _
        rcases near.2 with empty | ⟨t, semicolon, one⟩
        · rw [next] at empty
          cases empty
        · rw [next] at one
          obtain ⟨rfl, -⟩ := List.cons.inj one
          rw [Token.spells, semicolon] at spells
          cases spells

/-- An offset of some rows in front of a count, and a count that is given twice. -/
theorem Dialect.postgresql_limit_spellings : ∃ head count offset,
    Dialect.postgresql ∈ Dialect.builtin ∧ Dialect.postgresql.features.limit = some .anyOrder ∧
    Dialect.postgresql.Takes maxNesting selectStatement "SELECT a" head ∧ head.limit = none ∧
    Dialect.postgresql.Takes 127 expression "1" count ∧
    Dialect.postgresql.Takes 127 expression "?" offset ∧
    (∃ m, Dialect.postgresql.parse .select "SELECT a\nOFFSET\n?\nROWS\nLIMIT\n1\n" = .ok (.select m) ∧
      ({ m with limit := none } : SelectStatement).sketch .bare = head.sketch .bare ∧
      m.limit.map (Limit.sketch .unnumbered) =
        some (Limit.sketch .unnumbered ⟨some count, some offset, .nothing⟩)) ∧
    ∃ e, Dialect.postgresql.parse .select "SELECT a\nLIMIT\n1\nLIMIT\n?\n" = .error e := by
  have builtin : Dialect.postgresql ∈ Dialect.builtin := by decide
  obtain ⟨head, heads, unlimited⟩ : ∃ head, Dialect.postgresql.Takes maxNesting selectStatement "SELECT a" head ∧
      head.limit.isNone = true := exists_takes (by decide +kernel)
  obtain ⟨one, counts, -⟩ : ∃ e, Dialect.postgresql.Takes 127 expression "1" e ∧ true = true :=
    exists_takes (by decide +kernel)
  obtain ⟨mark, offsets, -⟩ : ∃ e, Dialect.postgresql.Takes 127 expression "?" e ∧ true = true :=
    exists_takes (by decide +kernel)
  rw [Option.isNone_iff_eq_none] at unlimited
  have standard := Dialect.standard_of_builtin builtin
  have safe := Dialect.lineSafe_of_builtin builtin
  obtain ⟨accepts, rejects⟩ := Dialect.limit_spellings builtin rfl heads unlimited counts offsets
  have lexed (parts : List Part) (known : ∀ part ∈ parts, part.line ∈ ["SELECT a", "OFFSET", "?", "ROWS", "LIMIT", "1"]) :
      ∀ part ∈ parts, ∃ tokens eof, Lexes Dialect.postgresql.lexical (.ofText part.line.toList) tokens (.ok eof) := by
    have all : (["SELECT a", "OFFSET", "?", "ROWS", "LIMIT", "1"].all
        fun t => (tokenize Dialect.postgresql.lexical t).toOption.isSome) = true := by decide +kernel
    intro part mem
    have found := List.all_eq_true.mp all _ (known part mem)
    cases lexed : tokenize Dialect.postgresql.lexical part.line with
    | error => simp [lexed, Except.toOption] at found
    | ok tokens =>
      obtain ⟨front, eof, -, lexes⟩ := lexes_of_tokenize lexed
      exact ⟨front, eof, lexes⟩
  refine ⟨head, one, mark, builtin, rfl, heads, unlimited, counts, offsets, ?_, ?_⟩
  · have lines : Composed Dialect.postgresql.lexical "SELECT a\nOFFSET\n?\nROWS\nLIMIT\n1\n"
        [.text "SELECT a", .word .OFFSET, .text "?", .word .ROWS, .word .LIMIT, .text "1"] :=
      composed_lines standard safe (by decide) (lexed _ (by decide))
    exact accepts _ (by decide) _ lines
  · have lines : Composed Dialect.postgresql.lexical "SELECT a\nLIMIT\n1\nLIMIT\n?\n"
        ([.text "SELECT a", .word .LIMIT, .text "1", .word .LIMIT] ++ [.text "?"]) :=
      composed_lines standard safe (by decide) (lexed _ (by decide))
    exact rejects [.word .LIMIT, .text "1", .word .LIMIT, .anything] (by decide) _ lines.forget

end SqlTree
