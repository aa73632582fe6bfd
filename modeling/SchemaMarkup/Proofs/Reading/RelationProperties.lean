import SchemaMarkup.Grammar.Constraint
import SchemaMarkup.Proofs.Reading.PropertyLines
import SchemaMarkup.Proofs.Reading.SealedLines

/-!
# Properties of relations

What a relation says beside its name and target is a property of it: the field that it leads from
and what is done when the other entity is deleted or updated. A property is written alike on a line
of its own (`RelationProperty.refine_line`) and among the arguments of a directive
(`RelationArgument.WellFormed.splitNamedArgument?_text`).
-/

namespace SchemaMarkup

open Text

/-! ## Texts of arguments -/

/-- A text that can stand among the arguments of a call: it shows no comma and is trimmed. -/
structure Text.IsApart (text : Text) : Prop where
  sealed : Seals (· == ',') text
  trimmed : text.trim = text
  filled : text ≠ []

/-- A text that can stand behind a key there. It does not make a comparison of the key. -/
structure Text.IsValue (value : Text) : Prop extends IsApart value where
  noEquals : value.head? ≠ some '='

theorem Text.isApart_of_isIdentifier {name : Text} (identifier : name.isIdentifier = true) :
    IsApart name :=
  have named := isCallName_of_isIdentifier identifier
  ⟨named.seals fun _ => beq_of_isNameCharacter (by decide), named.trimmed, named.1⟩

theorem Text.isApart_keyed {key value : Text} (isKey : IsKey key) (isValue : IsValue value) :
    IsApart (keyed key value) where
  sealed := (isKey.seals fun _ => beq_of_isKeyCharacter (by decide)).append
    (.cons (by decide) (by decide) (.cons (by decide) (by decide) isValue.sealed))
  trimmed := trim_append_append [':', ' '] isKey.trimmed isKey.1 isValue.trimmed isValue.filled
  filled := by simp [keyed]

/-! ## Actions -/

/-- A spelling of an action that can stand behind a key. -/
structure ActionText where
  text : Text
  action : ReferentialAction
  isRead : ReferentialAction.read? text = some action
  isValue : IsValue text

/-- The words of an action are a spelling of it. -/
def ActionText.ofAction (action : ReferentialAction) : ActionText where
  text := action.render.toList
  action := action
  isRead := ReferentialAction.read?_render action
  isValue := by
    cases action <;> exact ⟨⟨seals_of_all (by decide), by decide, by decide⟩, by decide⟩

/-- Quotes around an action have no part in it. -/
theorem ReferentialAction.read?_unquote (text : Text) : read? text.unquote = read? text := by
  have same : text.unquote.unquote.filter Char.isAlphanum = text.unquote.filter Char.isAlphanum :=
    filter_unquote (fun character blank => by
      have noName := not_isNameCharacter_of_isBlank blank
      simp only [isNameCharacter, Bool.or_eq_false_iff] at noName
      exact noName.1.1) (by decide) _
  simp only [read?, same]

/-! ## Properties -/

/-- A property of a relation. -/
inductive RelationProperty where
  | fromField (field : Text)
  | onDelete (action : ActionText)
  | onUpdate (action : ActionText)

namespace RelationProperty

/-- The key of the property. -/
def key : RelationProperty → Text
  | fromField _ => "from".toList
  | onDelete _ => "onDelete".toList
  | onUpdate _ => "onUpdate".toList

/-- What stands behind the key. -/
def value : RelationProperty → Text
  | fromField field => field
  | onDelete action => action.text
  | onUpdate action => action.text

/-- The line of the property. -/
def line (property : RelationProperty) : Text :=
  keyed property.key property.value

/-- The relation with the property. -/
def set (relation : Relation) : RelationProperty → Relation
  | fromField field => { relation with fromField := some (String.ofList field) }
  | onDelete action => { relation with onDelete := some action.action }
  | onUpdate action => { relation with onUpdate := some action.action }

/-- The field of a property is an identifier. -/
def WellFormed : RelationProperty → Prop
  | fromField field => field.isIdentifier = true
  | _ => True

theorem WellFormed.isValue {property : RelationProperty} (wellFormed : property.WellFormed) :
    IsValue property.value := by
  cases property with
  | fromField field =>
      refine ⟨isApart_of_isIdentifier wellFormed, fun starts => ?_⟩
      exact (isCallName_of_isIdentifier wellFormed).not_mem (by decide) (List.mem_of_head? starts)
  | onDelete action | onUpdate action => exact action.isValue

theorem isIdentifier_key : ∀ property : RelationProperty, property.key.isIdentifier = true
  | fromField _ => (by decide : isIdentifier "from".toList = true)
  | onDelete _ => (by decide : isIdentifier "onDelete".toList = true)
  | onUpdate _ => (by decide : isIdentifier "onUpdate".toList = true)

theorem isKey (property : RelationProperty) : property.key.IsKey :=
  (isCallName_of_isIdentifier property.isIdentifier_key).isKey

/-- A line is read as its key and what stands behind it. -/
theorem WellFormed.readProperty_line {property : RelationProperty}
    (wellFormed : property.WellFormed) :
    readProperty property.line = .ok (property.key, property.value) := by
  have isValue := wellFormed.isValue
  rw [line, readProperty_keyed property.isKey isValue.sealed.isBalanced, isValue.trimmed]

/-- A line sets its property. -/
theorem refine_line {property : RelationProperty} (wellFormed : property.WellFormed)
    (relation : Relation) : relation.refine property.line = .ok (property.set relation) := by
  cases property with
  | fromField field =>
      have isRead : readProperty (line (.fromField field)) = .ok ("from".toList, field) :=
        wellFormed.readProperty_line
      have isFrom : keysMatch "from".toList "from".toList = true := by decide
      have named : IsCallName field := isCallName_of_isIdentifier wellFormed
      have contents : field.unquote.nonBlank? = some (String.ofList field) := by
        rw [named.unquoted, nonBlank?_of_trimmed named.trimmed named.1]
      rw [Relation.refine, isRead]
      simp only [bind, Except.bind, isFrom, if_true, contents]
      rfl
  | onDelete action =>
      have isRead : readProperty (line (.onDelete action)) = .ok ("onDelete".toList, action.text) :=
        wellFormed.readProperty_line
      have notFrom : keysMatch "onDelete".toList "from".toList = false := by decide
      have isOnDelete : keysMatch "onDelete".toList "onDelete".toList = true := by decide
      rw [Relation.refine, isRead]
      simp only [bind, Except.bind, notFrom, isOnDelete, Bool.false_eq_true, if_false, if_true,
        Relation.readAction, action.isRead]
      rfl
  | onUpdate action =>
      have isRead : readProperty (line (.onUpdate action)) = .ok ("onUpdate".toList, action.text) :=
        wellFormed.readProperty_line
      have notFrom : keysMatch "onUpdate".toList "from".toList = false := by decide
      have notOnDelete : keysMatch "onUpdate".toList "onDelete".toList = false := by decide
      have isOnUpdate : keysMatch "onUpdate".toList "onUpdate".toList = true := by decide
      rw [Relation.refine, isRead]
      simp only [bind, Except.bind, notFrom, notOnDelete, isOnUpdate, Bool.false_eq_true, if_false,
        if_true, Relation.readAction, action.isRead]
      rfl

end RelationProperty

/-! ## Arguments -/

/-- The arrow in front of a target. -/
def RelationKind.arrow : RelationKind → Text
  | .toOne => "->".toList
  | .toMany => "<-".toList

/-- A text that can stand in a string as it is, and is kept when the string is read. -/
structure IsDescription (text : Text) : Prop where
  filled : text ≠ []
  trimmed : text.trim = text
  noMark : '"' ∉ text
  noBackslash : '\\' ∉ text

/-- An argument of a directive that declares a relation. -/
inductive RelationArgument where
  | name (text : Text)
  | target (kind : RelationKind) (text : Text)
  | property (declared : RelationProperty)
  | description (text : Text)

namespace RelationArgument

/-- The text of the argument. -/
def text : RelationArgument → Text
  | name text => text
  | target kind text => kind.arrow ++ text
  | .property declared => declared.line
  | description text => keyed "description".toList text.quoted

/-- The key of the argument and what stands behind it, if it has a key. -/
def keyed? : RelationArgument → Option (Text × Text)
  | .property declared => some (declared.key, declared.value)
  | description text => some ("description".toList, text.quoted)
  | _ => none

/-- Names and targets are identifiers, and a description can stand in a string. -/
def WellFormed : RelationArgument → Prop
  | name text => text.isIdentifier = true
  | target _ text => text.isIdentifier = true
  | .property declared => declared.WellFormed
  | description text => IsDescription text

end RelationArgument

namespace Text

/-- An argument with a key is split at the colon behind the key. -/
theorem splitNamedArgument?_keyed {key value : Text} (identifier : key.isIdentifier = true)
    (isValue : IsValue value) :
    splitNamedArgument? (keyed key value) = some (key, value) := by
  have named := isCallName_of_isIdentifier identifier
  have noSign : ∀ character ∈ key, (!(character == ':' || character == '=')) = true := by
    intro character listed
    rw [beq_of_isNameCharacter (by decide) (named.2 character listed),
      beq_of_isNameCharacter (by decide) (named.2 character listed)]
    rfl
  have behind : trim (' ' :: value) = value := by
    rw [← List.singleton_append, trim_blank_append value isBlank_of_mem_space, isValue.trimmed]
  simp only [splitNamedArgument?, keyed, List.takeWhile_append_of_pos noSign,
    List.dropWhile_append_of_pos noSign]
  simp [behind, named.trimmed, identifier, isValue.noEquals]

/-- An argument without the signs that follow a key has none. -/
theorem splitNamedArgument?_eq_none {text : Text} (noSign : ':' ∉ text ∧ '=' ∉ text) :
    splitNamedArgument? text = none := by
  have noneFound :
      (text.dropWhile fun character => !(character == ':' || character == '=')) = [] := by
    rw [List.dropWhile_eq_nil_iff]
    intro character listed
    have notColon : character ≠ ':' := by
      rintro rfl
      exact noSign.1 listed
    have notEquals : character ≠ '=' := by
      rintro rfl
      exact noSign.2 listed
    simp [notColon, notEquals]
  simp only [splitNamedArgument?, noneFound]

end Text

/-- A string shows its first mark only. -/
theorem IsDescription.seals {text : Text} (described : IsDescription text) {sign : Char}
    (unwanted : ('"' == sign) = false) : Seals (· == sign) text.quoted := by
  obtain ⟨stays, leads⟩ := Nesting.staysInside_of_not_mem described.noMark described.noBackslash
  exact .string rfl unwanted stays leads

/-- Whatever it describes, a string is a value. -/
theorem IsDescription.isValue {text : Text} (described : IsDescription text) :
    IsValue text.quoted where
  sealed := described.seals (by decide)
  trimmed := trim_quoted text
  filled := List.cons_ne_nil _ _
  noEquals := by simp [quoted]

namespace RelationArgument

theorem isApart_arrow (kind : RelationKind) : IsApart kind.arrow := by
  cases kind <;> exact ⟨seals_of_all (by decide), by decide, by decide⟩

variable {argument : RelationArgument}

/-- An argument is told from the others by its key. -/
theorem WellFormed.splitNamedArgument?_text (wellFormed : argument.WellFormed) :
    splitNamedArgument? argument.text = argument.keyed? := by
  cases argument with
  | name text =>
      have named : IsCallName text := isCallName_of_isIdentifier wellFormed
      exact splitNamedArgument?_eq_none ⟨named.not_mem (by decide), named.not_mem (by decide)⟩
  | target kind text =>
      have named : IsCallName text := isCallName_of_isIdentifier wellFormed
      refine splitNamedArgument?_eq_none ⟨?_, ?_⟩
      all_goals
        rw [RelationArgument.text, List.mem_append, not_or]
        exact ⟨by cases kind <;> decide, named.not_mem (by decide)⟩
  | property declared =>
      exact splitNamedArgument?_keyed declared.isIdentifier_key
        (RelationProperty.WellFormed.isValue wellFormed)
  | description text =>
      exact splitNamedArgument?_keyed (by decide) (IsDescription.isValue wellFormed)

/-- The text of an argument is divided from the others at the commas between them. -/
theorem WellFormed.isApart (wellFormed : argument.WellFormed) : IsApart argument.text := by
  cases argument with
  | name text => exact isApart_of_isIdentifier wellFormed
  | target kind text =>
      have arrow := isApart_arrow kind
      have name := isApart_of_isIdentifier wellFormed
      exact ⟨arrow.sealed.append name.sealed,
        trim_append_append [] arrow.trimmed arrow.filled name.trimmed name.filled,
        List.append_ne_nil_of_left_ne_nil arrow.filled text⟩
  | property declared =>
      exact isApart_keyed declared.isKey (RelationProperty.WellFormed.isValue wellFormed)
  | description text =>
      have isKey : IsKey "description".toList := by decide
      exact isApart_keyed isKey (IsDescription.isValue wellFormed)

end RelationArgument

end SchemaMarkup
