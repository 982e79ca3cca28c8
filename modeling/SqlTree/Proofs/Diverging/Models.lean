import SqlTree.Proofs.Diverging.Pragmas

namespace SqlTree

open Rule SqlRule

namespace Diverging

variable {f : Features} {q : Diverging f} {limit i : Nat} {known : Prop}

/-- A statement ends, in both texts. -/
structure EndsStatement (q : Diverging f) (i : Nat) : Prop where
  clear : q.Clear [.comma] queryWords i
  closed : q.Closed i

/-- A semicolon and the end of a text end a statement in both texts. -/
theorem endsStatement_of_kind (rejoins : q.rejoins) {kind : TokenKind}
    (same : (q.left.tokenAt i).kind.sameKind kind = true) (mem : kind = .semicolon ∨ kind = .eof) :
    q.EndsStatement i := by
  have closing : (q.left.tokenAt i).kind.isClosing = true :=
    TokenKind.isClosing_of_sameKind same (by rcases mem with rfl | rfl <;> rfl)
  have clean : q.Clean i := by
    refine q.clean_of_ne (.inr rejoins) ?_
    rintro rfl
    rcases q.kind_spot rejoins with kind | ⟨k, kind⟩ <;> rw [kind] at closing <;> cases closing
  refine ⟨clean.clear ?_ fun k _ => Token.not_spells_of_isClosing closing k, closing, ?_⟩
  · simp only [List.mem_singleton, forall_eq]
    exact TokenKind.sameKind_of_isClosing closing rfl
  · rwa [(q.like i clean).kind]

section

variable {α : Type} [Visible α] {need : Nat → Prop} {free : α → Nat → Prop}

theorem Follows.attempt {rule rule' : SqlRule α} (follows : q.Follows limit known i rule rule' need free) :
    q.Follows limit known i (attempt rule) (attempt rule') need free := by
  intro s here v after read
  obtain ⟨j, step⟩ := follows s here v after ((attempt_read_iff here.cancelAfter).mp read)
  refine ⟨j, step.le, step.place, step.lacks, step.need, fun ends all s' here' counts => ?_⟩
  obtain ⟨v', after', read', holds⟩ := step.right ends all s' here' counts
  exact ⟨v', after', (attempt_read_iff here'.cancelAfter).mpr read', holds⟩

/-- Both texts end at the same token. -/
theorem checkEof_ite (rejoins : q.rejoins) {a a' b b' : SqlRule α}
    (found : (q.left.tokenAt i).kind.sameKind .eof = true → q.Follows limit known i a a' need free)
    (missing : q.Follows limit known i b b' need free) :
    q.Follows limit known i (do if ← check .eof then a else b) (do if ← check .eof then a' else b')
      need free := by
  refine .asked (fun t => t.kind.sameKind .eof) (fun _ => comes_check .eof) (fun _ _ => ?_) ?_
  · by_cases here : i = q.spot
    · rw [here, TokenKind.sameKind_of_isWord (q.isWord_spot rejoins) rfl,
        TokenKind.sameKind_of_isWord (by rw [q.kind rejoins]; rfl) rfl]
    · rw [(q.like i (q.clean_of_ne (.inr rejoins) here)).kind]
  · split
    · exact found ‹_›
    · exact missing

end

theorem semicolons_follows : q.Follows limit known i semicolons semicolons (fun _ => True) fun _ _ => True :=
  follows_loop (fun _ _ _ => rfl) rfl (fun _ _ _ _ _ _ =>
    (eat_ite rfl (fun _ _ => trivial) (fun _ => follows_value (fun _ _ => rfl) id)
      fun _ => follows_value (fun _ _ => rfl) id).mono id id fun _ _ _ => trivial) fun _ _ => id

section

variable (numbers : Numbers f) (types : ∀ k ∈ f.autoIncrement, k ∉ typeKeywords)
  (names : ∀ i k, (q.left.tokenAt i).isQuoted = true → (q.left.tokenAt i).spells k = false)

include numbers types names

/-- A statement is the same in both texts if both end it there. -/
theorem standardStatement_follows : q.Follows (limit + 2) known i (standardStatement f) (standardStatement f)
    q.Clean fun _ => q.EndsStatement := by
  have calls := q.callsKeep (limit + 2)
  refine follows_alternatives (standardAlternatives f) ?_ ?_ id standardAlternatives_await
    standardAlternatives_apart
  · simp only [standardAlternatives, List.forall_mem_cons, List.not_mem_nil, false_implies, implies_true,
      and_true]
    refine ⟨?_, ?_, ?_, ?_, ?_⟩ <;> exact Blames.plain (by simp [selectAsStatement, insertAsStatement,
      updateAsStatement, deleteAsStatement, createTableAsStatement])
  · simp only [standardAlternatives, List.forall_mem_cons, List.not_mem_nil, false_implies, implies_true,
      and_true]
    refine ⟨?_, ?_, ?_, ?_, ?_⟩
    · exact ((calls.query known i).mono id id fun _ _ => EndsStatement.clear).map fun _ _ => rfl
    · exact ((insertStatement_follows calls).mono id id fun _ _ => EndsStatement.clear).map fun _ _ => rfl
    · exact ((updateStatement_follows calls).mono id id fun _ _ => EndsStatement.clear).map fun _ _ => rfl
    · exact ((deleteStatement_follows calls).mono id id fun _ _ => EndsStatement.clear).map fun _ _ => rfl
    · exact ((createTableStatement_follows calls numbers types names).mono id id fun _ _ _ => trivial).map
        fun _ _ => rfl

/-- A statement is the same in both texts whichever statements a dialect has. -/
theorem statement_follows : q.Follows (limit + 2) known i (statement f) (statement f) q.Clean
    fun _ => q.EndsStatement := by
  have standard : q.Follows (limit + 2) known i (standardStatement f) (standardStatement f) q.Clean
      fun _ => q.EndsStatement := standardStatement_follows numbers types names
  unfold statement
  split
  · refine follows_alternatives (pragmaAlternatives f) ?_ ?_ id pragmaAlternatives_await
      pragmaAlternatives_apart
    · simp only [pragmaAlternatives, List.forall_mem_cons, List.not_mem_nil, false_implies, implies_true,
        and_true]
      exact ⟨(standardStatement_blames f).plain, Blames.plain (by simp [pragmaAsStatement])⟩
    · simp only [pragmaAlternatives, List.forall_mem_cons, List.not_mem_nil, false_implies, implies_true,
        and_true]
      exact ⟨standard, ((pragmaStatement_follows (q.callsKeep _)).mono id id
        fun _ _ => EndsStatement.closed).map fun _ _ => rfl⟩
  · exact standard

variable (rejoins : q.rejoins)

include rejoins

theorem scriptStep_follows {statements statements' : List Statement} (lacks : known → q.Lacks statements)
    (quoted : q.Quoted statements statements') :
    q.Follows (limit + 2) known i (scriptStep f statements) (scriptStep f statements') (fun _ => True)
      fun _ _ => True := by
  refine semicolons_follows.bind fun k _ _ _ => ?_
  refine checkEof_ite rejoins (fun _ => follows_value (fun _ _ => rfl) id) ?_
  refine (statement_follows numbers types names).attempt.freely.bind fun k next next' alike => ?_
  refine checkEof_ite rejoins (fun isEof => ?_) (expect_bind rfl (fun semicolon _ => ?_) fun _ _ _ => ?_)
  · refine follows_pure ?_ ?_ fun _ => endsStatement_of_kind rejoins isEof (.inr rfl)
    · simp_all [Lacks]
    · simp_all [Quoted]
  · exact endsStatement_of_kind rejoins semicolon (.inl rfl)
  · refine follows_pure ?_ ?_ id
    · simp_all [Lacks]
    · simp_all [Quoted]

/-- A script may end anywhere, as it ends with its text. -/
theorem script_follows : q.Follows (limit + 2) known i (script f) (script f) (fun _ => True) fun _ _ => True := by
  have statements (known : Prop) (i : Nat) : q.Follows (limit + 2) known i (loop (scriptStep f) [])
      (loop (scriptStep f) []) (fun _ => True) fun _ _ => True :=
    follows_loop (fun _ _ _ => rfl) rfl (fun _ _ _ _ lacks quoted =>
      (scriptStep_follows numbers types names rejoins lacks quoted).mono id id fun _ _ _ => trivial) fun _ _ => id
  rw [script_eq]
  refine start_bind (fun _ => .inr rejoins) fun p p' opens => ?_
  refine (statements _ _).bind fun k statements statements' alike => ?_
  refine spanFrom_bind opens fun _ _ _ => follows_pure ?_ ?_ id
  · simp +contextual [Lacks]
  · simp_all [Quoted]

/-- A model of any kind is the same in both texts, up to where they have the same name. -/
theorem entry_follows (kind : ModelKind) : q.Follows (limit + 2) known i (entry f kind) (entry f kind)
    (fun _ => True) fun _ => q.EndsStatement := by
  have calls := q.callsKeep (limit + 2)
  have whole {α : Type} [Visible α] {rule : SqlRule α} {need : Nat → Prop} {free : α → Nat → Prop}
      {g : α → Model} (follows : q.Follows (limit + 2) known i rule rule need free)
      (ends : ∀ v k, q.EndsStatement k → free v k)
      (commutes : ∀ lens v, Visible.through lens (g v) = g (Visible.through lens v)) :
      q.Follows (limit + 2) known i (do return g (← rule)) (do return g (← rule)) (fun _ => True)
        fun _ => q.EndsStatement :=
    ((follows.mono id id ends).map commutes).freely
  cases kind with
  | statement => exact whole (statement_follows numbers types names) (fun _ _ => id) fun _ _ => rfl
  | select => exact whole (calls.query known i) (fun _ _ => EndsStatement.clear) fun _ _ => rfl
  | insert => exact whole (insertStatement_follows calls) (fun _ _ => EndsStatement.clear) fun _ _ => rfl
  | update => exact whole (updateStatement_follows calls) (fun _ _ => EndsStatement.clear) fun _ _ => rfl
  | delete => exact whole (deleteStatement_follows calls) (fun _ _ => EndsStatement.clear) fun _ _ => rfl
  | createTable =>
    exact whole (createTableStatement_follows calls numbers types names) (fun _ _ _ => trivial) fun _ _ => rfl
  | pragma => exact whole (pragmaStatement_follows calls) (fun _ _ => EndsStatement.closed) fun _ _ => rfl
  | script => exact whole (script_follows numbers types names rejoins) (fun _ _ _ => trivial) fun _ _ => rfl
  | expression => exact whole (calls.any known i) (fun _ _ _ => trivial) fun _ _ => rfl

end

end Diverging

end SqlTree
