import SqlTree.Analysis.Error
import SqlTree.Dialect.Features
import SqlTree.LexicalRules
import SqlTree.Model.Kind
import SqlTree.Text.Characters

namespace SqlTree

/-- Why a dialect cannot be built or registered. -/
inductive DialectError where
  | duplicateEntry (dialect : String) (model : ModelKind)
  | duplicateName (key : String)
  | emptyName
  deriving DecidableEq

namespace DialectError

def message : DialectError → String
  | duplicateEntry dialect model =>
    s!"dialect {dialect} registers more than one entry point for {model.name} models"
  | duplicateName key => s!"a dialect named {key} is already registered"
  | emptyName => "dialect name must not be empty"

end DialectError

/-- A variety of SQL: its names, its words and signs, its clauses and the models that a text in
it can be parsed as. -/
structure Dialect where
  /-- Tells dialects apart that were built apart, even if they agree in everything else. -/
  serial : Nat
  name : String
  description : String
  aliases : List String
  lexical : LexicalRules
  features : Features
  models : List ModelKind
  deriving DecidableEq

/-- A dialect on paper; its models may repeat. -/
structure DialectDraft where
  name : String
  description : String
  aliases : List String
  lexical : LexicalRules
  features : Features
  models : List ModelKind

namespace DialectDraft

/-- A draft with a name and nothing else. -/
def named (name : String) : DialectDraft :=
  ⟨name, "", [], .standard .empty, .base, []⟩

/-- The models of all dialects: everything but PRAGMA statements. -/
def standardModels : List ModelKind :=
  [.statement, .select, .insert, .update, .delete, .createTable, .script, .expression]

/-- The first member of a list that stands in it before. -/
def firstRepeated? : List ModelKind → List ModelKind → Option ModelKind
  | _, [] => none
  | seen, kind :: rest =>
    if seen.contains kind then some kind else firstRepeated? (kind :: seen) rest

/-- A dialect needs a name that is not blank, and each model at most once. -/
def build (draft : DialectDraft) (serial : Nat) : Except DialectError Dialect :=
  if isBlank draft.name then .error .emptyName
  else
    match firstRepeated? [] draft.models with
    | some kind => .error (.duplicateEntry draft.name kind)
    | none =>
      .ok ⟨serial, draft.name, draft.description, draft.aliases, draft.lexical, draft.features,
        ModelKind.all.filter draft.models.contains⟩

end DialectDraft

namespace Dialect

/-- What the dialect answers to, in small letters: its name and then its aliases. -/
def keys (d : Dialect) : List String := (d.name :: d.aliases).map lowerCase

def supports (d : Dialect) (kind : ModelKind) : Bool := d.models.contains kind

def reserves (d : Dialect) (k : Keyword) : Bool := d.lexical.keywords.reserves k

end Dialect

end SqlTree
