import Mathlib.Data.List.Induction
import SqlTree.Text.Reader

namespace SqlTree

/-- Going back and staying differ in the place alone. -/
theorem Reader.rewind_of_saved {r : Reader} {m : Mark} {saved : Cursor}
    (found : r.marks[m.depth]? = some saved) :
    r.rewind m = { r with cursor := saved, marks := r.marks.take m.depth } := by
  simp only [rewind, found]

/-- What changes a reader; who only looks at one leaves it as it is. A mark is told by how many were
taken before it. -/
inductive ReaderCall where
  | advance
  /-- To any place at all, ahead or behind. -/
  | moveTo (target : Cursor)
  | mark
  | rewind (number : Nat)
  | release (number : Nat)

/-- The mark that a call settles. -/
def ReaderCall.settled? : ReaderCall → Option Nat
  | rewind number | release number => some number
  | advance | moveTo _ | mark => none

/-- A mark that was taken: what the reader gave for it, where the reader stood, and the marks that
were live. -/
structure TakenMark where
  receipt : Mark
  place : Cursor
  liveThen : List Nat

/-- A reader in use, with the marks that were taken, the oldest first, and those that were settled. A mark
is a bare depth, and depths are given out again; that a live mark still stands for its own place is an
invariant between the marks that are live and the places that are saved. -/
structure ReaderUse where
  reader : Reader
  taken : List TakenMark
  settled : List Nat

namespace ReaderUse

def opened (text : List Char) : ReaderUse := ⟨.ofText text, [], []⟩

/-- A mark is live until it is settled, or one that was live when it was taken. -/
def isLive (u : ReaderUse) (number : Nat) : Bool :=
  u.taken[number]?.any fun t => (number :: t.liveThen).all fun k => k ∉ u.settled

/-- The live marks, the oldest first. -/
def live (u : ReaderUse) : List Nat := (List.range u.taken.length).filter u.isLive

/-- The next mark to be taken. -/
def nextMark (u : ReaderUse) : TakenMark := ⟨u.reader.mark.1, u.reader.cursor, u.live⟩

/-- Hands a mark back. -/
def settle (u : ReaderUse) (number : Nat) (how : Reader → Mark → Reader) : ReaderUse :=
  match u.taken[number]? with
  | some t => { u with reader := how u.reader t.receipt, settled := number :: u.settled }
  | none => u

/-- What a call leaves behind. -/
def act (u : ReaderUse) : ReaderCall → ReaderUse
  | .advance => { u with reader := u.reader.advance.2 }
  | .moveTo target => { u with reader := u.reader.moveTo target }
  | .mark => { u with reader := u.reader.mark.2, taken := u.taken ++ [u.nextMark] }
  | .rewind number => u.settle number Reader.rewind
  | .release number => u.settle number Reader.release

/-- What some calls leave behind. -/
def after (u : ReaderUse) (calls : List ReaderCall) : ReaderUse := calls.foldl act u

/-- Only a live mark is settled. One that was settled is live no more, so none is settled twice. -/
def Disciplined (u : ReaderUse) : List ReaderCall → Prop
  | [] => True
  | c :: calls => (∀ number ∈ c.settled?, number ∈ u.live) ∧ (u.act c).Disciplined calls

instance decidableDisciplined (u : ReaderUse) : ∀ calls, Decidable (u.Disciplined calls)
  | [] => isTrue trivial
  | c :: calls => @instDecidableAnd _ _ _ (decidableDisciplined (u.act c) calls)

section

variable {u : ReaderUse} {c : ReaderCall} {calls earlier later : List ReaderCall} {number k : Nat}
  {t : TakenMark}

@[simp]
theorem after_nil : u.after [] = u := rfl

@[simp]
theorem after_cons : u.after (c :: calls) = (u.act c).after calls := rfl

@[simp]
theorem after_append : u.after (earlier ++ later) = (u.after earlier).after later := List.foldl_append

/-- Some calls keep to the rule, and others behind them, if both do where they begin. -/
theorem disciplined_append : u.Disciplined (earlier ++ later) ↔
    u.Disciplined earlier ∧ (u.after earlier).Disciplined later := by
  induction earlier generalizing u with
  | nil => simp [Disciplined, after]
  | cons c earlier ih => simp [Disciplined, ih, and_assoc]

/-- A mark is live as long as neither it nor one that was live when it was taken was settled. -/
theorem isLive_of_taken (found : u.taken[number]? = some t) : u.isLive number = true ↔
    number ∉ u.settled ∧ ∀ k ∈ t.liveThen, k ∉ u.settled := by
  simp [isLive, found]

theorem mem_live : number ∈ u.live ↔ u.isLive number = true := by
  refine ⟨fun member => (List.mem_filter.mp member).2, fun live => ?_⟩
  obtain ⟨t, found, -⟩ := (Option.any_eq_true ..).mp live
  exact List.mem_filter.mpr ⟨List.mem_range.mpr (List.getElem?_eq_some_iff.mp found).1, live⟩

theorem exists_taken (live : number ∈ u.live) : ∃ t, u.taken[number]? = some t := by
  have within := List.mem_range.mp (List.mem_filter.mp live).1
  exact ⟨_, List.getElem?_eq_getElem within⟩

theorem lt_of_mem_live (live : number ∈ u.live) : number < u.taken.length :=
  List.mem_range.mp (List.mem_filter.mp live).1

theorem settle_of_taken (found : u.taken[number]? = some t) (how : Reader → Mark → Reader) :
    u.settle number how = { u with reader := how u.reader t.receipt, settled := number :: u.settled } := by
  simp only [settle, found]

/-- To settle a mark ends it and those that were taken while it was live, and no other one. -/
theorem isLive_settle {how : Reader → Mark → Reader} {s : TakenMark}
    (taken : u.taken[number]? = some s) (found : u.taken[k]? = some t) :
    (u.settle number how).isLive k = true ↔ u.isLive k = true ∧ k ≠ number ∧ number ∉ t.liveThen := by
  rw [settle_of_taken taken, isLive_of_taken found,
    isLive_of_taken (u := ⟨how u.reader s.receipt, u.taken, number :: u.settled⟩) found]
  simp only [List.mem_cons, not_or]
  grind

/-- Only a call that takes a mark adds to those that were taken. -/
theorem act_taken (u : ReaderUse) (c : ReaderCall) :
    (u.act c).taken = u.taken ++ if c matches .mark then [u.nextMark] else [] := by
  cases c with
  | rewind number | release number =>
    simp only [act, settle]
    split <;> simp
  | _ => simp [act]

theorem taken_of_taken_act (found : u.taken[number]? = some t) :
    (u.act c).taken[number]? = some t := by
  rw [act_taken, List.getElem?_append_left (List.getElem?_eq_some_iff.mp found).1, found]

/-- A mark that was taken stays listed under its number. -/
theorem taken_of_taken_after (found : u.taken[number]? = some t) :
    (u.after calls).taken[number]? = some t := by
  induction calls generalizing u with
  | nil => exact found
  | cons c calls ih => exact ih (taken_of_taken_act found)

theorem taken_length_le : u.taken.length ≤ (u.after calls).taken.length := by
  induction calls generalizing u with
  | nil => exact Nat.le_refl _
  | cons c calls ih =>
    have longer : u.taken.length ≤ (u.act c).taken.length := by simp [act_taken]
    exact Nat.le_trans longer ih

end

/-- The reader has saved the places of the live marks, and nothing else, the oldest first. -/
structure Kept (u : ReaderUse) : Prop where
  settled : ∀ number ∈ u.settled, number < u.taken.length
  depth : u.reader.depth = u.live.length
  receipt : ∀ t ∈ u.taken, t.receipt.depth = t.liveThen.length
  live : ∀ number ∈ u.live, ∀ t, u.taken[number]? = some t →
    t.liveThen = u.live.filter (· < number) ∧ u.reader.marks[t.receipt.depth]? = some t.place

namespace Kept

variable {u : ReaderUse} {c : ReaderCall} {calls : List ReaderCall} {number k : Nat} {t : TakenMark}

/-- The reader of a text has saved nothing. -/
theorem opened (text : List Char) : (ReaderUse.opened text).Kept where
  settled := by simp [ReaderUse.opened]
  depth := rfl
  receipt := by simp [ReaderUse.opened]
  live := by simp [ReaderUse.opened, ReaderUse.live]

/-- Wherever the reader goes, what is saved stays. -/
theorem move (kept : u.Kept) (r : Reader) (same : r.marks = u.reader.marks) :
    Kept { u with reader := r } where
  settled := kept.settled
  depth := (congrArg List.length same).trans kept.depth
  receipt := kept.receipt
  live number live t found := by
    rw [same]
    exact kept.live number live t found

/-- The mark that is taken next is live, and so are those that were. -/
theorem live_mark (kept : u.Kept) : (u.act .mark).live = u.live ++ [u.taken.length] := by
  have old : ∀ number ∈ List.range u.taken.length,
      (u.act .mark).isLive number = u.isLive number := by
    intro number member
    have found := List.getElem?_eq_getElem (List.mem_range.mp member)
    rw [Bool.eq_iff_iff, isLive_of_taken (taken_of_taken_act found), isLive_of_taken found]
    rfl
  have new : (u.act .mark).isLive u.taken.length = true := by
    refine (isLive_of_taken (t := u.nextMark) (by simp [act])).mpr ⟨fun member => ?_, fun k live => ?_⟩
    · exact Nat.lt_irrefl _ (kept.settled _ member)
    · obtain ⟨t, found⟩ := exists_taken live
      exact ((isLive_of_taken found).mp (mem_live.mp live)).1
  have longer : (u.act .mark).taken.length = u.taken.length + 1 := by simp [act]
  rw [ReaderUse.live, longer, List.range_succ, List.filter_append, List.filter_congr old]
  simp [new, ReaderUse.live]

/-- To take a mark saves one place more. -/
theorem mark (kept : u.Kept) : (u.act .mark).Kept where
  settled number member := by
    have := kept.settled number member
    simp only [act, List.length_append]
    omega
  depth := by
    have depth := kept.depth
    rw [kept.live_mark]
    simpa [act, Reader.mark, Reader.depth] using depth
  receipt t member := by
    rcases List.mem_append.mp member with old | new
    · exact kept.receipt t old
    · rw [List.mem_singleton.mp new]
      exact kept.depth
  live number live t found := by
    rw [kept.live_mark] at live ⊢
    rcases List.mem_append.mp live with old | new
    · obtain ⟨t', found'⟩ := exists_taken old
      obtain rfl : t = t' := Option.some.inj (found.symm.trans (taken_of_taken_act found'))
      obtain ⟨liveThen, saved⟩ := kept.live number old t found'
      have later : ¬ u.taken.length < number := Nat.not_lt_of_gt (lt_of_mem_live old)
      refine ⟨by simp [later, liveThen], ?_⟩
      rw [← saved]
      exact List.getElem?_append_left (List.getElem?_eq_some_iff.mp saved).1
    · obtain rfl := List.mem_singleton.mp new
      obtain rfl : u.nextMark = t := by simpa [act] using found
      have before : ∀ n ∈ u.live, decide (n < u.taken.length) = true := fun n member =>
        decide_eq_true (lt_of_mem_live member)
      refine ⟨by simp [List.filter_eq_self.mpr before, nextMark], ?_⟩
      simp [act, Reader.mark, Reader.depth, nextMark]

/-- To settle a live mark leaves the earlier ones live: those that were taken without it. -/
theorem live_settle (kept : u.Kept) (live : number ∈ u.live) (how : Reader → Mark → Reader) :
    (u.settle number how).live = u.live.filter (· < number) := by
  obtain ⟨s, taken⟩ := exists_taken live
  have same : (u.settle number how).taken = u.taken := by rw [settle_of_taken taken]
  rw [ReaderUse.live, ReaderUse.live, List.filter_filter, same]
  refine List.filter_congr fun k member => ?_
  obtain ⟨t, found⟩ : ∃ t, u.taken[k]? = some t :=
    ⟨_, List.getElem?_eq_getElem (List.mem_range.mp member)⟩
  rw [Bool.eq_iff_iff, isLive_settle taken found, Bool.and_eq_true, decide_eq_true_iff, and_comm]
  refine and_congr_left fun alive => ?_
  -- A live mark was taken while exactly those live marks were live that come before it.
  have liveThen := (kept.live k (mem_live.mpr alive) t found).1
  have among : number ∈ t.liveThen ↔ number < k := by simp [liveThen, live]
  rw [among]
  omega

/-- To settle a live mark gives up its place and those that were saved later. -/
theorem settle (kept : u.Kept) (live : number ∈ u.live) {how : Reader → Mark → Reader}
    (found : u.taken[number]? = some t)
    (popped : (how u.reader t.receipt).marks = u.reader.marks.take t.receipt.depth) :
    (u.settle number how).Kept := by
  obtain ⟨liveThen, saved⟩ := kept.live number live t found
  have shown : ∀ {n : Nat} {s : TakenMark}, u.taken[n]? = some s →
      s.receipt.depth = s.liveThen.length := fun taken =>
    kept.receipt _ (List.mem_of_getElem? taken)
  have remaining := kept.live_settle live how
  rw [settle_of_taken found] at remaining ⊢
  have taken := lt_of_mem_live live
  refine ⟨fun k member => ?_, ?_, kept.receipt, fun k alive s taken => ?_⟩
  · rcases List.mem_cons.mp member with rfl | old
    · exact taken
    · exact kept.settled k old
  · have within := (List.getElem?_eq_some_iff.mp saved).1
    rw [remaining, ← liveThen, ← shown found, Reader.depth, popped, List.length_take]
    omega
  · rw [remaining] at alive ⊢
    obtain ⟨old, before⟩ := List.mem_filter.mp alive
    obtain ⟨liveThen', saved'⟩ := kept.live k old s taken
    have narrowed : (u.live.filter (· < number)).filter (· < k) = u.live.filter (· < k) := by
      rw [List.filter_filter]
      refine List.filter_congr fun n _ => ?_
      have := of_decide_eq_true before
      simp only [Bool.and_eq_left_iff_imp, decide_eq_true_iff]
      omega
    have deeper : s.receipt.depth < t.receipt.depth := by
      rw [shown taken, shown found, liveThen, liveThen', ← narrowed]
      exact List.length_filter_lt_length_iff_exists.mpr ⟨k, alive, by simp⟩
    exact ⟨liveThen'.trans narrowed.symm, by rw [popped, List.getElem?_take_of_lt deeper, saved']⟩

/-- To settle a live mark, either way, leaves the earlier ones live and discards the later ones. -/
theorem live_act (kept : u.Kept) (live : number ∈ u.live) (settles : c.settled? = some number) :
    (u.act c).live = u.live.filter (· < number) := by
  cases c with
  | rewind k | release k =>
    obtain rfl : k = number := Option.some.inj settles
    exact kept.live_settle live _
  | _ => cases settles

/-- What a call does to the live marks: it takes the next one, or settles one and so discards those
that are later. -/
theorem mem_live_act (kept : u.Kept) (allowed : ∀ number ∈ c.settled?, number ∈ u.live) :
    k ∈ (u.act c).live ↔ (k ∈ u.live ∨ c = .mark ∧ k = u.taken.length) ∧
      ∀ number, c.settled? = some number → k < number := by
  cases c with
  | advance | moveTo => simp [ReaderCall.settled?, ReaderUse.act, ReaderUse.live, isLive]
  | mark => simp [kept.live_mark, ReaderCall.settled?]
  | rewind number | release number =>
    rw [kept.live_act (allowed number rfl) rfl]
    simp [ReaderCall.settled?]

/-- A live mark is good, and the reader goes back to where it was taken. -/
theorem leads_back (kept : u.Kept) (live : number ∈ u.live) (found : u.taken[number]? = some t) :
    u.reader.isLive t.receipt = true ∧ (u.act (.rewind number)).reader.cursor = t.place := by
  have saved := (kept.live number live t found).2
  refine ⟨decide_eq_true (List.getElem?_eq_some_iff.mp saved).1, ?_⟩
  rw [ReaderUse.act, settle_of_taken found, Reader.rewind_of_saved saved]

/-- What an allowed call leaves behind is kept as well. -/
theorem act (kept : u.Kept) (allowed : ∀ number ∈ c.settled?, number ∈ u.live) : (u.act c).Kept := by
  cases c with
  | advance => exact kept.move _ rfl
  | moveTo target => exact kept.move _ rfl
  | mark => exact kept.mark
  | rewind number =>
    have live := allowed number rfl
    obtain ⟨t, found⟩ := exists_taken live
    have saved := (kept.live number live t found).2
    exact kept.settle live found (by rw [Reader.rewind_of_saved saved])
  | release number =>
    have live := allowed number rfl
    obtain ⟨t, found⟩ := exists_taken live
    exact kept.settle live found rfl

/-- So whoever keeps to the rule finds the places of the live marks saved. -/
theorem after (kept : u.Kept) (disciplined : u.Disciplined calls) : (u.after calls).Kept := by
  induction calls generalizing u with
  | nil => exact kept
  | cons c calls ih => exact ih (kept.act disciplined.1) disciplined.2

end Kept

/-- Whatever was settled since a mark was taken was taken later. -/
def Outlives (text : List Char) (calls : List ReaderCall) (number : Nat) : Prop :=
  ∀ earlier c later k, calls = earlier ++ c :: later → c.settled? = some k →
    number < ((opened text).after earlier).taken.length → number < k

section

variable {text : List Char} {calls : List ReaderCall} {c : ReaderCall} {number : Nat} {t : TakenMark}

@[simp]
theorem after_concat {u : ReaderUse} : u.after (calls ++ [c]) = (u.after calls).act c := by
  rw [after_append, after_cons, after_nil]

/-- The marks that were taken are those of the calls that take one. -/
theorem taken_iff : ((opened text).after calls).taken[number]? = some t ↔
    ∃ earlier later, calls = earlier ++ .mark :: later ∧
      ((opened text).after earlier).taken.length = number ∧
      ((opened text).after earlier).nextMark = t := by
  constructor
  · intro found
    induction calls using List.reverseRecOn with
    | nil => simp [after, opened] at found
    | append_singleton calls c ih =>
      rw [after_concat, act_taken] at found
      rcases Nat.lt_or_ge number ((opened text).after calls).taken.length with old | new
      · rw [List.getElem?_append_left old] at found
        obtain ⟨earlier, later, rfl, place⟩ := ih found
        exact ⟨earlier, later ++ [c], by simp, place⟩
      · rw [List.getElem?_append_right new] at found
        cases c with
        | mark =>
          rw [if_pos rfl, List.getElem?_singleton] at found
          split at found
          · exact ⟨calls, [], rfl, by omega, Option.some.inj found⟩
          · cases found
        | _ => simp at found
  · rintro ⟨earlier, later, rfl, rfl, rfl⟩
    rw [after_append, after_cons]
    exact taken_of_taken_after (by simp [act])

/-- A mark outlives one call more if that call settles a later one or none. -/
theorem outlives_concat : Outlives text (calls ++ [c]) number ↔ Outlives text calls number ∧
    ∀ k, c.settled? = some k → number < ((opened text).after calls).taken.length → number < k := by
  constructor
  · intro outlives
    refine ⟨fun earlier c' later k split => ?_, fun k => outlives calls c [] k rfl⟩
    exact outlives earlier c' (later ++ [c]) k (by simp [split])
  · rintro ⟨old, last⟩ earlier c' later k split
    rcases List.eq_nil_or_concat later with rfl | ⟨later, d, rfl⟩
    · obtain ⟨rfl, same⟩ := List.append_inj' split rfl
      obtain rfl := List.singleton_inj.mp same
      exact last k
    · rw [List.concat_eq_append, ← List.cons_append, ← List.append_assoc] at split
      obtain ⟨rfl, -⟩ := List.append_inj' split rfl
      exact old earlier c' later k rfl

/-- Nothing was settled since the mark that is taken next was taken. -/
theorem outlives_next : Outlives text calls ((opened text).after calls).taken.length := by
  rintro earlier c later k rfl - taken
  rw [after_append] at taken
  exact absurd taken (Nat.not_lt_of_le taken_length_le)

/-- A mark is live if it was taken and no earlier one, nor itself, was settled since. -/
theorem mem_live_iff (disciplined : (opened text).Disciplined calls) :
    number ∈ ((opened text).after calls).live ↔
      number < ((opened text).after calls).taken.length ∧ Outlives text calls number := by
  induction calls using List.reverseRecOn with
  | nil => simp [after, opened, live]
  | append_singleton calls c ih =>
    obtain ⟨before, allowed, -⟩ := disciplined_append.mp disciplined
    have kept := (Kept.opened text).after before
    rw [after_concat, kept.mem_live_act allowed, ih before, outlives_concat, act_taken]
    constructor
    · rintro ⟨⟨old, outlives⟩ | ⟨rfl, rfl⟩, later⟩
      · exact ⟨by simp; omega, outlives, fun k settled _ => later k settled⟩
      · exact ⟨by simp, outlives_next, fun k settled _ => later k settled⟩
    · rintro ⟨taken, outlives, later⟩
      rcases Nat.lt_or_ge number ((opened text).after calls).taken.length with old | new
      · exact ⟨.inl ⟨old, outlives⟩, fun k settled => later k settled old⟩
      · -- Only a call that takes a mark makes room for the number.
        cases c with
        | mark => exact ⟨.inr ⟨rfl, by simp at taken; omega⟩, by simp [ReaderCall.settled?]⟩
        | _ => simp at taken; omega

end

/-- How a reader keeps its marks behind some calls on a text. -/
structure Stacked (text : List Char) (calls : List ReaderCall) : Prop where
  /-- A mark is known by what the reader gave, where it stood and what was live when it was taken. -/
  taken : ∀ number t, ((opened text).after calls).taken[number]? = some t ↔
    ∃ earlier later, calls = earlier ++ .mark :: later ∧
      ((opened text).after earlier).taken.length = number ∧
      ((opened text).after earlier).nextMark = t
  /-- The live marks are those taken and neither settled nor discarded with an earlier one. -/
  live : ∀ number, number ∈ ((opened text).after calls).live ↔
    number < ((opened text).after calls).taken.length ∧ Outlives text calls number
  /-- As many places are saved as marks are live. -/
  depth : ((opened text).after calls).reader.depth = ((opened text).after calls).live.length
  /-- A mark tells how many marks were live when it was taken. -/
  receipt : ∀ t ∈ ((opened text).after calls).taken, t.receipt.depth = t.liveThen.length
  /-- A live mark is good, and going back to it ends where it was taken. -/
  rewinds : ∀ number ∈ ((opened text).after calls).live,
    ∀ t, ((opened text).after calls).taken[number]? = some t →
      ((opened text).after calls).reader.isLive t.receipt = true ∧
        ((opened text).after (calls ++ [.rewind number])).reader.cursor = t.place
  /-- To release a mark moves nothing. -/
  releases : ∀ number ∈ ((opened text).after calls).live,
    ((opened text).after (calls ++ [.release number])).reader.cursor =
      ((opened text).after calls).reader.cursor
  /-- To settle a live mark leaves those that are earlier live and discards those that are later. -/
  discards : ∀ c, ∀ number ∈ ((opened text).after calls).live, c.settled? = some number →
    ((opened text).after (calls ++ [c])).live =
      ((opened text).after calls).live.filter (· < number)
  /-- Each of the earlier marks is good still and leads to its own place. -/
  spares : ∀ c, ∀ number ∈ ((opened text).after calls).live, c.settled? = some number →
    ∀ k ∈ ((opened text).after calls).live, k < number →
      ∀ t, ((opened text).after calls).taken[k]? = some t →
        ((opened text).after (calls ++ [c])).reader.isLive t.receipt = true ∧
          ((opened text).after (calls ++ [c, .rewind k])).reader.cursor = t.place

/-- Marks that are settled only while they are live are kept as a stack, also where an outer one is
settled before inner ones and where depths are given out again. -/
theorem stacked {text : List Char} {calls : List ReaderCall}
    (disciplined : (opened text).Disciplined calls) : Stacked text calls := by
  have kept := (Kept.opened text).after disciplined
  exact {
    taken := fun number t => taken_iff
    live := fun number => mem_live_iff disciplined
    depth := kept.depth
    receipt := kept.receipt
    rewinds := fun number live t found => by
      rw [after_concat]
      exact kept.leads_back live found
    releases := fun number live => by
      obtain ⟨t, found⟩ := exists_taken live
      rw [after_concat, act, settle_of_taken found]
      rfl
    discards := fun c number live settles => by
      rw [after_concat]
      exact kept.live_act live settles
    spares := fun c number live settles k alive before t found => by
      have settled : (((opened text).after calls).act c).Kept :=
        kept.act fun n member => Option.some.inj (settles.symm.trans member) ▸ live
      have spared : k ∈ (((opened text).after calls).act c).live := by
        rw [kept.live_act live settles]
        exact List.mem_filter.mpr ⟨alive, decide_eq_true before⟩
      rw [after_append, after_append, after_cons, after_nil, after_cons, after_cons, after_nil]
      exact settled.leads_back spared (taken_of_taken_act found) }

/-- A mark is settled before one that was taken later, and the depths of both are given out again. -/
theorem stacked_reused :
    let text := ['a', 'b', '\n', 'c', 'd']
    let calls := [.mark, .advance, .mark, .advance, .mark, .release 1, .advance, .mark, .advance, .mark]
    (opened text).Disciplined calls ∧ Stacked text calls ∧
      ((opened text).after calls).live = [0, 3, 4] ∧
      ((opened text).after calls).taken.map (·.receipt.depth) = [0, 1, 2, 1, 2] ∧
      ((opened text).after (calls ++ [.rewind 3])).reader.position = ⟨3, 2, 1⟩ :=
  ⟨by decide, stacked (by decide), by decide, by decide, by decide⟩

end ReaderUse

end SqlTree
