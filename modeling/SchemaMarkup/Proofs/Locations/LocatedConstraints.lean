import SchemaMarkup.Grammar.Constraint
import SchemaMarkup.Grammar.Header
import SchemaMarkup.Proofs.Locations.LocatedFields

/-!
# Headers and constraints with located errors

The grammars of headers, relations, indexes and directives, each given the location of its line and
raising its errors there. What they read is what the grammars without a location read, and their
errors are the located faults of those.
-/

namespace SchemaMarkup

/-! ## Headers -/

namespace Header

/-- Takes a kind mark out of the header of a line. -/
def splitKindMarkAt (location : Location) (text : Text) :
    Except SchemaError (Text × Option KindMark) :=
  match text.cutWhere fun _ character following =>
      character == ':' && following.head? == some ':' with
  | none => .ok (text, none)
  | some cut =>
      let word : Text := cut.following.tail.takeWhile Char.isAlphanum
      let rest : Text := cut.following.tail.dropWhile Char.isAlphanum
      match KindMark.read? word with
      | some mark => .ok (cut.before ++ ' ' :: rest, some mark)
      | none => .error (.structural (.unknownKindMark (String.ofList word)) location)

theorem splitKindMarkAt_eq (location : Location) (text : Text) :
    splitKindMarkAt location text = atLocation location (splitKindMark text) := by
  simp only [splitKindMarkAt, splitKindMark]
  cases Text.cutWhere _ text with
  | none => rfl
  | some cut => dsimp only; cases KindMark.read? _ <;> rfl

/-- Reads the name of an inherited entity from a line. -/
def readParentAt (location : Location) (text : Text) : Except SchemaError String :=
  if text.isIdentifier then .ok (String.ofList text)
  else .error (.structural (.invalidParentName (String.ofList text)) location)

theorem readParentAt_eq (location : Location) (text : Text) :
    readParentAt location text = atLocation location (readParent text) := by
  simp only [readParentAt, readParent, atLocation_ite, atLocation_ok, atLocation_error]

/-- Reads the heading of a block at a line. -/
def readAt (dialect : Dialect) (location : Location) (text : Text) :
    Except SchemaError Header := do
  let (text, mark) ← splitKindMarkAt location text
  let (head, region) := splitAttributes text
  let (region, trailing) := region.splitDescription
  let (head, leading) := head.splitDescription
  let (region, quotedBehind) := region.takeTrailingQuoted
  atLine location region.checkBalance
  let attributes ← atLine location region.callRun
  atLine location head.checkBalance
  let (head, quotedBefore) := head.takeTrailingQuoted
  let (named, parents) :=
    match head.cutAt ':' with
    | some cut => (cut.before, cut.following.pieces ',')
    | none => (head, [])
  match named.splitNameLabel? with
  | none => throw (.structural (.invalidEntityName (String.ofList named.trim)) location)
  | some (name, label) =>
      let inherits ← parents.mapM (readParentAt location)
      let kind ← atLocation location (dialect.entityKind name mark)
      let description := ((trailing.or leading).or quotedBehind).or quotedBefore
      return { kind, name, label, inherits, attributes, description }

theorem readAt_eq (dialect : Dialect) (location : Location) (text : Text) :
    readAt dialect location text = atLocation location (read dialect text) := by
  simp only [readAt, read, atLocation_bind, atLocation_asLineFault, splitKindMarkAt_eq]
  refine bind_congr fun marked => bind_congr fun _ => bind_congr fun attributes =>
    bind_congr fun _ => ?_
  cases Text.cutAt ':' _ <;> dsimp only <;> cases Text.splitNameLabel? _ <;>
    simp only [atLocation_bind, atLocation_pure, atLocation_throw, atLocation_listMapM,
      funext (readParentAt_eq location)]

end Header

/-! ## Relations -/

namespace Relation

/-- Reads the target of a relation from a line. -/
def readTargetAt (location : Location) (text : Text) : Except SchemaError String :=
  let target := text.unquote
  if target.isIdentifier then .ok (String.ofList target)
  else .error (.structural (.invalidRelationTarget (String.ofList target)) location)

theorem readTargetAt_eq (location : Location) (text : Text) :
    readTargetAt location text = atLocation location (readTarget text) := by
  simp only [readTargetAt, readTarget, atLocation_ite, atLocation_ok, atLocation_error]

/-- Reads a referential action from a line. -/
def readActionAt (location : Location) (text : Text) : Except SchemaError ReferentialAction :=
  match ReferentialAction.read? text with
  | some action => .ok action
  | none => .error (.structural (.unknownAction (String.ofList text.trim)) location)

theorem readActionAt_eq (location : Location) (text : Text) :
    readActionAt location text = atLocation location (readAction text) := by
  simp only [readActionAt, readAction]
  cases ReferentialAction.read? text <;> rfl

namespace Positional

/-- Reads one more positional argument of a directive at a line. -/
def addAt (location : Location) (positional : Positional) (argument : String) :
    Except SchemaError Positional :=
  match splitDirection? argument.toList with
  | some (kind, rest) => do
      let target ← readTargetAt location rest
      return { positional with target := some (kind, target) }
  | none =>
      if positional.name.isSome then
        .error (.structural (.unexpectedRelationArgument argument) location)
      else
        .ok { positional with name := some (String.ofList (Text.unquote argument.toList)) }

theorem addAt_eq (location : Location) (positional : Positional) (argument : String) :
    addAt location positional argument = atLocation location (positional.add argument) := by
  simp only [addAt, add, readTargetAt_eq]
  cases splitDirection? _ with
  | none => simp only [atLocation_ite, atLocation_ok, atLocation_error]
  | some directed => simp only [atLocation_bind, atLocation_pure]

/-- The kind and target of a directive at a line. -/
def destinationAt (location : Location) (positional : Positional) (call : Attribute) :
    Except SchemaError (RelationKind × String) :=
  match positional.target, call.named? "target" with
  | some destination, _ => .ok destination
  | none, some target =>
      (readTargetAt location target.toList).map fun target => (.toOne, target)
  | none, none => .error (.structural (.undirectedRelation call.raw) location)

theorem destinationAt_eq (location : Location) (positional : Positional) (call : Attribute) :
    destinationAt location positional call =
      atLocation location (positional.destination call) := by
  simp only [destinationAt, destination, readTargetAt_eq]
  cases positional.target with
  | some destination => rfl
  | none => cases call.named? "target" <;> simp only [atLocation_exceptMap, atLocation_error]

end Positional

/-- Reads a directive `@relation(name, ->Target, key: value)` at a line. -/
def ofAttributeAt (location : Location) (call : Attribute) : Except SchemaError Relation := do
  let positional ← call.positional.foldlM (Positional.addAt location) { name := call.named? "name" }
  let (kind, target) ← positional.destinationAt location call
  let onDelete ← (call.named? "onDelete").mapM fun action => readActionAt location action.toList
  let onUpdate ← (call.named? "onUpdate").mapM fun action => readActionAt location action.toList
  return {
    name := positional.name.getD target
    fromField := call.named? "from"
    description := (call.named? "description").bind fun text => Text.nonBlank? text.toList
    kind, target, onDelete, onUpdate, location }

theorem ofAttributeAt_eq (location : Location) (call : Attribute) :
    ofAttributeAt location call = atLocation location (ofAttribute location call) := by
  simp only [ofAttributeAt, ofAttribute, atLocation_bind, atLocation_pure, atLocation_foldlM,
    atLocation_optionMapM, Positional.destinationAt_eq, readActionAt_eq,
    funext fun positional => funext (Positional.addAt_eq location positional)]

/-- Reads the name behind the target of a relation line. -/
def readLineNameAt (location : Location) (line : Text) (target : String) :
    List Text → Except SchemaError String
  | [] => .ok target
  | [keyword, name] =>
      if keyword.spells "as" && name.isIdentifier then .ok (String.ofList name)
      else .error (.structural (.textAfterRelation (String.ofList line.trim)) location)
  | _ => .error (.structural (.textAfterRelation (String.ofList line.trim)) location)

theorem readLineNameAt_eq (location : Location) (line : Text) (target : String)
    (words : List Text) :
    readLineNameAt location line target words =
      atLocation location (readLineName line target words) := by
  match words with
  | [] | [_] | _ :: _ :: _ :: _ => rfl
  | [keyword, name] =>
      simp only [readLineNameAt, readLineName, atLocation_ite, atLocation_ok, atLocation_error]

/-- Reads a line `>Target as Name "description"` of a document. -/
def readLineAt (location : Location) (text : Text) : Except SchemaError (Option Relation) :=
  match splitDirection? text with
  | none => .ok none
  | some (kind, rest) => do
      let (body, description) := rest.splitDescription
      atLine location body.checkBalance
      let (body, quoted) := body.takeTrailingQuoted
      match body.words with
      | [] => throw (.structural .relationWithoutTarget location)
      | target :: words =>
          let target ← readTargetAt location target
          let name ← readLineNameAt location text target words
          return some { name, kind, target, location, description := description.or quoted }

theorem readLineAt_eq (location : Location) (text : Text) :
    readLineAt location text = atLocation location (readLine location text) := by
  simp only [readLineAt, readLine]
  cases splitDirection? text with
  | none => rfl
  | some directed =>
      simp only [atLocation_bind, atLocation_asLineFault]
      refine bind_congr fun _ => ?_
      cases Text.words _ <;>
        simp only [atLocation_bind, atLocation_pure, atLocation_throw, readTargetAt_eq,
          readLineNameAt_eq]

/-- The relation refined by a property line of a document. -/
def refineAt (location : Location) (relation : Relation) (text : Text) :
    Except SchemaError Relation := do
  let (key, value) ← readPropertyAt location text
  let isKey := fun (name : String) => keysMatch key name.toList
  if isKey "from" then
    return { relation with fromField := value.unquote.nonBlank? }
  else if isKey "onDelete" then
    let action ← readActionAt location value
    return { relation with onDelete := some action }
  else if isKey "onUpdate" then
    let action ← readActionAt location value
    return { relation with onUpdate := some action }
  else if isKey "description" || isKey "desc" then
    return { relation with description := value.unquote.nonBlank? }
  else if isKey "name" then
    return { relation with name := String.ofList value.unquote }
  else
    throw (.structural (.unknownRelationProperty (String.ofList key)) location)

theorem refineAt_eq (location : Location) (relation : Relation) (text : Text) :
    refineAt location relation text = atLocation location (relation.refine text) := by
  simp only [refineAt, refine, atLocation_bind, atLocation_ite, atLocation_pure, atLocation_throw,
    readPropertyAt_eq, readActionAt_eq]

end Relation

/-! ## Indexes -/

namespace Index

/-- Reads the name of an indexed field from a line. -/
def readFieldAt (location : Location) (text : Text) : Except SchemaError String :=
  let field := text.unquote
  if field.isIdentifier then .ok (String.ofList field)
  else .error (.structural (.invalidIndexField (String.ofList field)) location)

theorem readFieldAt_eq (location : Location) (text : Text) :
    readFieldAt location text = atLocation location (readField text) := by
  simp only [readFieldAt, readField, atLocation_ite, atLocation_ok, atLocation_error]

/-- An index over at least one field, declared at a line. -/
def buildAt (dialect : Dialect) (location : Location) (name : Option String)
    (fields : List String) (isUnique : Bool) (description : Option String) :
    Except SchemaError Index :=
  if fields.isEmpty then
    .error (.structural .indexWithoutFields location)
  else
    .ok {
      name := name.getD (dialect.generatedName fields isUnique)
      fields, isUnique, description, location }

theorem buildAt_eq (dialect : Dialect) (location : Location) (name : Option String)
    (fields : List String) (isUnique : Bool) (description : Option String) :
    buildAt dialect location name fields isUnique description =
      atLocation location (build dialect location name fields isUnique description) := by
  simp only [buildAt, build, atLocation_ite, atLocation_ok, atLocation_error]

/-- Reads a directive `@index(A, B, key: value)` or `@unique(A, B, key: value)` at a line. -/
def ofAttributeAt (dialect : Dialect) (location : Location) (call : Attribute) :
    Except SchemaError Index := do
  let fields ← call.positional.mapM fun field => readFieldAt location field.toList
  let isUnique := call.isNamed "unique" ||
    ((call.named? "unique").bind fun text => Text.truth? text.toList).getD false
  buildAt dialect location (call.named? "name") fields isUnique (call.named? "description")

theorem ofAttributeAt_eq (dialect : Dialect) (location : Location) (call : Attribute) :
    ofAttributeAt dialect location call =
      atLocation location (ofAttribute dialect location call) := by
  simp only [ofAttributeAt, ofAttribute, atLocation_bind, atLocation_listMapM, readFieldAt_eq,
    buildAt_eq]

/-- Reads a line `Name: A, B @unique #description` or just `A, B` of a document. -/
def readLineAt (dialect : Dialect) (location : Location) (text : Text) :
    Except SchemaError Index := do
  let (body, description) := text.splitDescription
  atLine location body.checkBalance
  let annotated ← atLine location body.splitSemantic
  let (name, listed) :=
    match annotated.before.cutAt ':' with
    | some cut => (cut.before.unquote.nonBlank?, cut.following)
    | none => (none, annotated.before)
  let fields ← (listed.pieces ',').mapM (readFieldAt location)
  let isUnique := annotated.attributes.any fun call => call.isNamed "unique"
  buildAt dialect location name fields isUnique (description.or annotated.quoted)

theorem readLineAt_eq (dialect : Dialect) (location : Location) (text : Text) :
    readLineAt dialect location text = atLocation location (readLine dialect location text) := by
  simp only [readLineAt, readLine, atLocation_bind, atLocation_asLineFault]
  refine bind_congr fun _ => bind_congr fun annotated => ?_
  cases annotated.before.cutAt ':' <;>
    simp only [atLocation_listMapM, funext (readFieldAt_eq location), buildAt_eq]

/-- The index refined by a property line of a document. -/
def refineAt (dialect : Dialect) (location : Location) (index : Index) (text : Text) :
    Except SchemaError Index := do
  let (key, value) ← readPropertyAt location text
  let isKey := fun (name : String) => keysMatch key name.toList
  if isKey "fields" then
    let fields ← (value.pieces ',').mapM (readFieldAt location)
    return { index with fields }.renamedFrom index dialect
  else if isKey "unique" then
    match value.truth? with
    | some isUnique => return { index with isUnique }.renamedFrom index dialect
    | none => throw (.structural (.notTruthValue (String.ofList value)) location)
  else if isKey "description" || isKey "desc" then
    return { index with description := value.unquote.nonBlank? }
  else if isKey "name" then
    return { index with name := String.ofList value.unquote }
  else
    throw (.structural (.unknownIndexProperty (String.ofList key)) location)

theorem refineAt_eq (dialect : Dialect) (location : Location) (index : Index) (text : Text) :
    refineAt dialect location index text = atLocation location (index.refine dialect text) := by
  simp only [refineAt, refine, atLocation_bind, readPropertyAt_eq]
  refine bind_congr fun property => ?_
  cases property.2.truth? <;>
    simp only [atLocation_ite, atLocation_bind, atLocation_pure, atLocation_throw,
      atLocation_listMapM, funext (readFieldAt_eq location)]

end Index

/-! ## Directives -/

namespace Directive

/-- Reads what an attribute of an entity declares at a line. -/
def ofAttributeAt (dialect : Dialect) (location : Location) (call : Attribute) :
    Except SchemaError Directive :=
  if call.isNamed "unique" || call.isNamed "index" then
    (Index.ofAttributeAt dialect location call).map .index
  else if call.isNamed "relation" then
    (Relation.ofAttributeAt location call).map .relation
  else
    .ok (.other call)

theorem ofAttributeAt_eq (dialect : Dialect) (location : Location) (call : Attribute) :
    ofAttributeAt dialect location call =
      atLocation location (ofAttribute dialect location call) := by
  simp only [ofAttributeAt, ofAttribute, atLocation_ite, atLocation_exceptMap, atLocation_ok,
    Index.ofAttributeAt_eq, Relation.ofAttributeAt_eq]

/-- The directive with its constraint refined by a property line of a document. -/
def refineAt (dialect : Dialect) (location : Location) (directive : Directive) (text : Text) :
    Except SchemaError Directive :=
  match directive with
  | .index declared => (declared.refineAt dialect location text).map .index
  | .relation declared => (declared.refineAt location text).map .relation
  | .other call => .ok (.other call)

theorem refineAt_eq (dialect : Dialect) (location : Location) (directive : Directive)
    (text : Text) :
    refineAt dialect location directive text =
      atLocation location (directive.refine dialect text) := by
  cases directive with
  | index declared => simp only [refineAt, refine, atLocation_exceptMap, Index.refineAt_eq]
  | relation declared => simp only [refineAt, refine, atLocation_exceptMap, Relation.refineAt_eq]
  | other call => rfl

end Directive

end SchemaMarkup
