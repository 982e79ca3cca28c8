import SqlTree.Lexer
import SqlTree.Rule.Failure

namespace SqlTree

/-- What reading one token gave, and the place behind it. -/
structure Scanned where
  token : Except LexError Token
  after : Cursor

/-- How far the evaluation of a rule has come. -/
structure State where
  reader : Reader
  /-- Tokens read before, by the offset from which they were read; the newest first. -/
  scanned : List (Nat × Scanned)
  /-- The end of the last token that was consumed. -/
  lastEnd : Position
  /-- How many positional placeholders were passed. -/
  params : Nat
  /-- The mismatch furthest on in the text among those that were put aside. -/
  furthest : Option Mismatch
  /-- How many levels of nesting are open. -/
  nesting : Nat
  /-- A request to cancel, by the number of checks that still miss it. -/
  cancelAfter : Option Nat

/-- Receipt for a saved state: its reader's mark and what else is restored. -/
structure StateMark where
  reader : Mark
  lastEnd : Position
  params : Nat
  deriving DecidableEq

namespace State

/-- Before the first character of a text that nobody asks to leave. -/
def ofText (text : List Char) : State :=
  ⟨.ofText text, [], .start, 0, none, 0, none⟩

def position (st : State) : Position := st.reader.position

/-- How many states are saved. -/
def depth (st : State) : Nat := st.reader.depth

/-- What was read from an offset. Later offsets come first, so the search ends at an earlier
one. -/
def scannedAt? (offset : Nat) : List (Nat × Scanned) → Option Scanned
  | [] => none
  | (other, s) :: rest =>
    if other = offset then some s else if other < offset then none else scannedAt? offset rest

theorem mem_of_scannedAt? {offset : Nat} {entries : List (Nat × Scanned)} {s : Scanned}
    (found : scannedAt? offset entries = some s) : (offset, s) ∈ entries := by
  induction entries with
  | nil => cases found
  | cons entry rest ih =>
    obtain ⟨other, first⟩ := entry
    simp only [scannedAt?] at found
    split at found
    · rename_i same
      cases same
      cases found
      exact List.mem_cons_self
    · split at found
      · cases found
      · exact List.mem_cons_of_mem _ (ih found)

/-- The next token, read at most once from each place. -/
def scan (rules : LexicalRules) (st : State) : Scanned × State :=
  match scannedAt? st.position.offset st.scanned with
  | some s => (s, st)
  | none =>
    let (token, after) := nextToken rules st.reader.cursor
    (⟨token, after⟩, { st with scanned := (st.position.offset, ⟨token, after⟩) :: st.scanned })

/-- The next token, which stays. -/
def peek (rules : LexicalRules) (st : State) : Except Failure Token × State :=
  let (s, st) := st.scan rules
  (s.token.mapError .lexical, st)

/-- Consumes the next token. The end of the text can be consumed again and again; a lexical
error stays in the way. -/
def bump (rules : LexicalRules) (st : State) : Except Failure Token × State :=
  let (s, st) := st.scan rules
  match s.token with
  | .error e => (.error (.lexical e), st)
  | .ok token =>
    (.ok token, { st with reader := st.reader.moveTo s.after, lastEnd := token.span.stop })

/-- Saves the state. -/
def mark (st : State) : StateMark × State :=
  let (m, reader) := st.reader.mark
  (⟨m, st.lastEnd, st.params⟩, { st with reader := reader })

/-- Goes back to a saved state. What was learnt on the way stays: tokens, and the furthest
mismatch. -/
def rewind (st : State) (m : StateMark) : State :=
  { st with reader := st.reader.rewind m.reader, lastEnd := m.lastEnd, params := m.params }

/-- Stays, and forgets a saved state. -/
def release (st : State) (m : StateMark) : State :=
  { st with reader := st.reader.release m.reader }

/-- Looks whether the analysis is to be left. -/
def checkCancelled (st : State) : Except Failure Unit × State :=
  match st.cancelAfter with
  | none => (.ok (), st)
  | some 0 => (.error .cancelled, st)
  | some (n + 1) => (.ok (), { st with cancelAfter := some n })

/-- Puts a mismatch aside. -/
def note (st : State) (m : Mismatch) : State :=
  let furthest :=
    match st.furthest with
    | some previous => previous.merge m
    | none => m
  { st with furthest := some furthest }

/-- The mismatch to report for `m`, once what was put aside is taken into account, and the state
without it. -/
def report (st : State) (m : Mismatch) : Mismatch × State :=
  match st.furthest with
  | some furthest => (furthest.merge m, { st with furthest := none })
  | none => (m, st)

end State

end SqlTree
