import SchemaMarkup.Diagnostic.Location
import SchemaMarkup.Schema.Kind
import SchemaMarkup.Text.Cut

/-!
# Relations and indexes

The constraints that an entity declares beside its fields. An index that is given
no name has one generated from its fields and its uniqueness, by a rule of the
dialect.
-/

namespace SchemaMarkup

/-- How many entities a relation leads to. -/
inductive RelationKind where
  | toOne
  | toMany
deriving DecidableEq, Repr

/-- The name under which the kind of relation is reported. -/
def RelationKind.name : RelationKind -> String
  | .toOne => "to-one"
  | .toMany => "to-many"

/-- What happens to referring data when the data referred to changes. -/
inductive ReferentialAction where
  | cascade
  | restrict
  | setNull
  | setDefault
  | noAction
deriving DecidableEq, Repr

namespace ReferentialAction

/-- The words of the action. -/
def render : ReferentialAction -> String
  | .cascade => "CASCADE"
  | .restrict => "RESTRICT"
  | .setNull => "SET NULL"
  | .setDefault => "SET DEFAULT"
  | .noAction => "NO ACTION"

/-- Reads an action by its ASCII letters and digits alone, in any case. -/
def read? (text : Text) : Option ReferentialAction :=
  match String.ofList ((text.unquote.filter Char.isAlphanum).map Char.toLower) with
  | "cascade" => some .cascade
  | "restrict" => some .restrict
  | "setnull" => some .setNull
  | "setdefault" => some .setDefault
  | "noaction" => some .noAction
  | "none" => some .noAction
  | _ => none

/-- The words of an action read as the action. -/
theorem read?_render (action : ReferentialAction) :
    read? action.render.toList = some action := by
  cases action <;> decide +kernel

end ReferentialAction

/-- A relation of an entity to another one. -/
structure Relation where
  name : String
  kind : RelationKind
  target : String
  fromField : Option String := none
  onDelete : Option ReferentialAction := none
  onUpdate : Option ReferentialAction := none
  description : Option String := none
  location : Location := .unknown
deriving DecidableEq, Repr

/-- An index over fields of an entity. -/
structure Index where
  name : String
  fields : List String
  isUnique : Bool
  description : Option String := none
  location : Location := .unknown
deriving DecidableEq, Repr

namespace Dialect

/-- The generated name of an index that allows repeated values. -/
def indexName (dialect : Dialect) (fields : List String) : String :=
  match dialect with
  | .current => "_".intercalate fields
  | .legacy => "IX_" ++ "_".intercalate fields

/-- The generated name of a unique index. -/
def uniqueName (_ : Dialect) (fields : List String) : String :=
  "UK_" ++ "_".intercalate fields

/-- The name of an index that is given none. -/
def generatedName (dialect : Dialect) (fields : List String) (isUnique : Bool) : String :=
  if isUnique then dialect.uniqueName fields else dialect.indexName fields

end Dialect

end SchemaMarkup
