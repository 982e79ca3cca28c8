import SqlTree.Dialect.Builtin

namespace SqlTree

/-- Dialects by name. -/
structure Registry where
  /-- In the order of their registration. -/
  dialects : List Dialect
  /-- The slots of the dialects by what they answer to, in small letters; the first entry counts. -/
  index : List (String × Nat)
  deriving DecidableEq

/-- How an attempt to add a dialect ends. A registry is left behind by one that fails as well. -/
inductive Registration where
  | ok (left : Registry)
  | error {left : Registry} (why : DialectError)

namespace Registration

/-- The registry behind the attempt. -/
def registry : Registration → Registry
  | ok left => left
  | @error left _ => left

/-- Why the dialect was not added, if it was not. -/
def refusal? : Registration → Option DialectError
  | ok _ => none
  | error why => some why

end Registration

namespace Registry

def empty : Registry := ⟨[], []⟩

/-- The slot of a dialect that answers to a name, which is given in small letters. -/
def slot? (r : Registry) (key : String) : Option Nat := r.index.lookup key

/-- The dialect that answers to a name, whatever the case of its letters. -/
def get? (r : Registry) (name : String) : Option Dialect :=
  (r.slot? (lowerCase name)).bind fun slot => r.dialects[slot]?

/-- Whether a name, in small letters, belongs to a dialect. -/
def isTaken (r : Registry) (key : String) : Bool := (r.slot? key).isSome

/-- Enters names with one slot in an index. -/
def enter (slot : Nat) (keys : List String) (index : List (String × Nat)) : List (String × Nat) :=
  keys.foldl (fun index key => (key, slot) :: index) index

/-- Adds a dialect none of whose names is taken. All names are looked up before the first one is entered. -/
def register (r : Registry) (d : Dialect) : Registration :=
  match d.keys.find? r.isTaken with
  | some key => @Registration.error r (.duplicateName key)
  | none => .ok ⟨r.dialects ++ [d], enter r.dialects.length d.keys r.index⟩

/-- The registry behind an attempt to add a dialect. -/
def attempt (r : Registry) (d : Dialect) : Registry := (r.register d).registry

def names (r : Registry) : List String := r.dialects.map (·.name)

/-- The built-in dialects. -/
def builtin : Registry := Dialect.builtin.foldl attempt empty

end Registry

/-- The built-in dialect with a name or alias. -/
def Dialect.find (name : String) : Except AnalysisError Dialect :=
  match Registry.builtin.get? name with
  | some d => .ok d
  | none => .error (.unknownDialect name)

end SqlTree
