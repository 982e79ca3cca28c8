import SqlTree.Proofs.Reading.Advance

namespace SqlTree

/-- A rule that asks for the mismatches put aside only if `reports` allows it, and says when to leave
only if `cancels` allows it. -/
def Rule.Confined {Sym : Type → Type} (reports cancels : Prop) {α : Type} : Rule Sym α → Prop
  | bind first next =>
    first.Confined reports cancels ∧ ∀ value, (next value).Confined reports cancels
  | setCancelAfter _ => cancels
  | orElse rule other =>
    rule.Confined reports cancels ∧ ∀ m, (other m).Confined reports cancels
  | lookahead rule | nested rule => rule.Confined reports cancels
  | reporting rule => reports ∧ rule.Confined reports cancels
  | loop step _ => ∀ x, (step x).Confined reports cancels
  | _ => True

/-- A request to cancel that is never made, or is made already. -/
def Resting (cancelAfter : Option Nat) : Prop := cancelAfter = none ∨ cancelAfter = some 0

/-- No answer of a named rule changes a request that rests. -/
def TapeLevel.KeepsRest {Sym : Type → Type} (level : TapeLevel Sym) : Prop :=
  ∀ α (name : Sym α) (s : Tape), Resting s.cancelAfter →
    (level α name s).2.cancelAfter = s.cancelAfter

/-- Goes back to a place unless there is a value, and goes on from there behind a mismatch. -/
def Reading.orBack {α : Type} (saved : Tape) (other : Mismatch → Tape → Reading α) :
    Reading α → Reading α
  | (.ok value, s) => (.ok value, s)
  | (.error (.mismatch m), s) => other m (s.backTo saved)
  | (.error failure, s) => (.error failure, s.backTo saved)

/-- The same reading, but for the mismatch that was put aside. -/
def Reading.Alike {α : Type} (reading reading' : Reading α) : Prop :=
  ∃ noted, reading' = (reading.1, { reading.2 with furthest := noted })

/-- Named rules do the same whatever mismatch was put aside. -/
def TapeLevel.Forgets {Sym : Type → Type} (level : TapeLevel Sym) : Prop :=
  ∀ α (name : Sym α) (s : Tape) noted,
    Reading.Alike (level α name s) (level α name { s with furthest := noted })

namespace Tape

/-- To look for a request that rests changes nothing. -/
theorem checkCancelled_of_resting {s : Tape} (rests : Resting s.cancelAfter) :
    s.checkCancelled.2 = s := by
  unfold checkCancelled
  rcases rests with never | raised
  · rw [never]
  · rw [raised]

theorem tooDeep_snd {α : Type} (s : Tape) : (s.tooDeep : Reading α).2 = s := by
  unfold tooDeep
  split <;> rfl

theorem tooDeep_forgets {α : Type} (s : Tape) (noted : Option Mismatch) :
    Reading.Alike (s.tooDeep : Reading α) { s with furthest := noted }.tooDeep := by
  obtain ⟨text, tokens, stop, _⟩ := s
  rcases tokens with _ | _ <;> rcases stop with _ | _ <;> exact ⟨noted, rfl⟩

section

variable {σ : Type} {step : σ → Tape → Reading (Option σ)}

/-- A repetition keeps a request that rests if its steps keep it. -/
theorem iterate_cancelAfter
    (keeps : ∀ x (s : Tape), Resting s.cancelAfter → (step x s).2.cancelAfter = s.cancelAfter)
    (fuel : Nat) (x : σ) (s : Tape) (rests : Resting s.cancelAfter) :
    (iterate step fuel x s).2.cancelAfter = s.cancelAfter := by
  induction fuel generalizing x s with
  | zero =>
    have kept := keeps x s rests
    unfold iterate
    split
    · rename_i eq; rwa [eq] at kept
    · rename_i eq; rwa [eq] at kept
    · rename_i eq; rw [eq] at kept; split <;> exact kept
  | succ fuel ih =>
    have kept := keeps x s rests
    unfold iterate
    split
    · rename_i eq; rwa [eq] at kept
    · rename_i eq; rwa [eq] at kept
    · rename_i eq
      rw [eq] at kept
      split
      · exact (ih _ _ (kept.symm ▸ rests)).trans kept
      · exact kept

/-- A repetition does the same whatever mismatch was put aside if its steps do. -/
theorem iterate_forgets
    (forgets : ∀ x (s : Tape) noted, Reading.Alike (step x s) (step x { s with furthest := noted }))
    (fuel : Nat) (x : σ) (s : Tape) (noted : Option Mismatch) :
    Reading.Alike (iterate step fuel x s) (iterate step fuel x { s with furthest := noted }) := by
  induction fuel generalizing x s noted with
  | zero =>
    obtain ⟨noted', alike⟩ := forgets x s noted
    unfold iterate
    rw [alike]
    rcases step x s with ⟨_ | _ | y, after⟩
    · exact ⟨noted', rfl⟩
    · exact ⟨noted', rfl⟩
    · simp only
      split <;> exact ⟨noted', rfl⟩
  | succ fuel ih =>
    obtain ⟨noted', alike⟩ := forgets x s noted
    unfold iterate
    rw [alike]
    rcases step x s with ⟨_ | _ | y, after⟩
    · exact ⟨noted', rfl⟩
    · exact ⟨noted', rfl⟩
    · simp only
      split
      · exact ih y after noted'
      · exact ⟨noted', rfl⟩

end

end Tape

namespace Rule

variable {Sym : Type → Type} {α : Type} {reports cancels : Prop}

/-- A rule that does not say when to leave keeps a request that rests. -/
theorem read_cancelAfter (rule : Rule Sym α) {levels : List (TapeLevel Sym)}
    (confined : rule.Confined reports False) (keeps : ∀ level ∈ levels, level.KeepsRest) (s : Tape)
    (rests : Resting s.cancelAfter) : (rule.read levels s).2.cancelAfter = s.cancelAfter := by
  induction rule generalizing levels s with
  | bind first next ihFirst ihNext =>
    have kept := ihFirst confined.1 keeps s rests
    simp only [read]
    split
    · rename_i value mid eq
      rw [eq] at kept
      exact (ihNext value (confined.2 value) keeps mid (kept.symm ▸ rests)).trans kept
    · rename_i eq
      rwa [eq] at kept
  | bump =>
    simp only [read, Tape.bump]
    split
    · rfl
    · split <;> rfl
  | setCancelAfter checks => exact confined.elim
  | checkCancelled => exact congrArg Tape.cancelAfter (Tape.checkCancelled_of_resting rests)
  | orElse rule other ihRule ihOther =>
    have same := Tape.checkCancelled_of_resting rests
    simp only [read]
    split
    · rename_i eq
      rw [eq] at same
      exact congrArg Tape.cancelAfter same
    · rename_i checked eq
      rw [eq] at same
      obtain rfl : checked = s := same
      have kept := ihRule confined.1 keeps checked rests
      split
      · rename_i eq
        rwa [eq] at kept
      · rename_i m after eq
        rw [eq] at kept
        exact (ihOther m (confined.2 m) keeps _ (kept.symm ▸ rests)).trans kept
      · rename_i eq
        rwa [eq] at kept
  | lookahead rule ih => exact ih confined keeps s rests
  | reporting rule ih =>
    have kept := ih confined.2 keeps s rests
    simp only [read]
    split
    · rename_i m after eq
      rw [eq] at kept
      refine Eq.trans ?_ kept
      simp only [Tape.report]
      split <;> rfl
    · exact kept
  | nested rule ih =>
    cases levels with
    | nil => exact congrArg Tape.cancelAfter (Tape.tooDeep_snd s)
    | cons level deeper =>
      exact ih confined (fun l mem => keeps l (List.mem_cons_of_mem _ mem)) s rests
  | loop step first ih =>
    exact Tape.iterate_cancelAfter (fun x s rests => ih x (confined x) keeps s rests) _ _ _ rests
  | call name =>
    cases levels with
    | nil => exact congrArg Tape.cancelAfter (Tape.tooDeep_snd s)
    | cons level deeper => exact keeps level List.mem_cons_self _ name s rests
  | _ => rfl

/-- A rule that does not ask for the mismatches put aside reads the same whatever they are. -/
theorem read_forgets (rule : Rule Sym α) {levels : List (TapeLevel Sym)}
    (confined : rule.Confined False cancels) (forgets : ∀ level ∈ levels, level.Forgets) (s : Tape)
    (noted : Option Mismatch) :
    Reading.Alike (rule.read levels s) (rule.read levels { s with furthest := noted }) := by
  induction rule generalizing levels s noted with
  | bind first next ihFirst ihNext =>
    obtain ⟨noted', alike⟩ := ihFirst confined.1 forgets s noted
    simp only [read, alike]
    rcases first.read levels s with ⟨_ | value, mid⟩
    · exact ⟨noted', rfl⟩
    · exact ihNext value (confined.2 value) forgets mid noted'
  | bump =>
    obtain ⟨text, tokens, stop, _⟩ := s
    rcases tokens with _ | ⟨t, tokens⟩
    · rcases stop with _ | eof <;> exact ⟨noted, rfl⟩
    · exact ⟨noted, rfl⟩
  | note m => exact ⟨_, rfl⟩
  | checkCancelled =>
    obtain ⟨text, tokens, stop, lastEnd, params, furthest, cancelAfter⟩ := s
    rcases cancelAfter with _ | _ | n <;> exact ⟨noted, rfl⟩
  | setCancelAfter checks => exact ⟨noted, rfl⟩
  | orElse rule other ihRule ihOther =>
    have tried (s : Tape) (noted : Option Mismatch) : Reading.Alike
        ((rule.read levels s).orBack s fun m => (other m).read levels)
        ((rule.read levels { s with furthest := noted }).orBack { s with furthest := noted } fun m =>
          (other m).read levels) := by
      obtain ⟨noted', alike⟩ := ihRule confined.1 forgets s noted
      rw [alike]
      rcases rule.read levels s with ⟨failure | value, after⟩
      · cases failure with
        | mismatch m => exact ihOther m (confined.2 m) forgets (after.backTo s) noted'
        | lexical e => exact ⟨noted', rfl⟩
        | cancelled => exact ⟨noted', rfl⟩
        | tooDeep p => exact ⟨noted', rfl⟩
      · exact ⟨noted', rfl⟩
    obtain ⟨text, tokens, stop, lastEnd, params, furthest, cancelAfter⟩ := s
    simp only [read]
    rcases cancelAfter with _ | _ | n
    · exact tried ⟨text, tokens, stop, lastEnd, params, furthest, none⟩ noted
    · exact ⟨noted, rfl⟩
    · exact tried ⟨text, tokens, stop, lastEnd, params, furthest, some n⟩ noted
  | lookahead rule ih =>
    obtain ⟨noted', alike⟩ := ih confined forgets s noted
    exact ⟨noted', by simp only [read, alike]; rfl⟩
  | reporting rule ih => exact confined.1.elim
  | nested rule ih =>
    cases levels with
    | nil => exact s.tooDeep_forgets noted
    | cons level deeper =>
      exact ih confined (fun l mem => forgets l (List.mem_cons_of_mem _ mem)) s noted
  | loop step first ih =>
    exact Tape.iterate_forgets (fun x s noted => ih x (confined x) forgets s noted) _ _ _ _
  | call name =>
    cases levels with
    | nil => exact s.tooDeep_forgets noted
    | cons level deeper => exact forgets level List.mem_cons_self _ name s noted
  | _ => exact ⟨noted, rfl⟩

/-- On every level of nesting the named rules keep a request that rests. -/
theorem tapeLevels_keepsRest {body : ∀ α : Type, Sym α → Rule Sym α}
    (confined : ∀ α name, (body α name).Confined reports False) (limit : Nat) :
    ∀ level ∈ tapeLevels body limit, level.KeepsRest := by
  induction limit with
  | zero => simp [tapeLevels]
  | succ limit ih =>
    simp only [tapeLevels, List.forall_mem_cons]
    exact ⟨fun α name s rests => (body α name).read_cancelAfter (confined α name) ih s rests, ih⟩

/-- On every level of nesting the named rules do the same whatever mismatch was put aside. -/
theorem tapeLevels_forgets {body : ∀ α : Type, Sym α → Rule Sym α}
    (confined : ∀ α name, (body α name).Confined False cancels) (limit : Nat) :
    ∀ level ∈ tapeLevels body limit, level.Forgets := by
  induction limit with
  | zero => simp [tapeLevels]
  | succ limit ih =>
    simp only [tapeLevels, List.forall_mem_cons]
    exact ⟨fun α name s noted => (body α name).read_forgets (confined α name) ih s noted, ih⟩

end Rule

end SqlTree
