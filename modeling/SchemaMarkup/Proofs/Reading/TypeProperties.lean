import SchemaMarkup.Proofs.Reading.AssignedTypes
import SchemaMarkup.Proofs.Reading.PropertyLines
import SchemaMarkup.Proofs.Reading.SealedLines

/-!
# Types on the field line and under it

The type of a field stands on the field line, behind the name, or on a property line under it. Both
lines check their own balance and trim the type in their own way, and still set the same field or
report the same error (`Field.simple_eq_extended`), and a default value may stand behind the type or
on a property line of its own.
-/

namespace SchemaMarkup

/-! ## Reports -/

/-- What is told of a fault: the code by which it is reported, and its wording. -/
def LineFault.wording (fault : LineFault) : Code × String :=
  (fault.code, fault.message)

/-- What is told of an error. -/
def SchemaError.report (error : SchemaError) : Code × String × Location :=
  (error.code, error.message, error.location)

/-- What a line at a location is read as, or the report of its error. -/
def reported {Value : Type} (location : Location) (read : Except LineFault Value) :
    Except (Code × String × Location) Value :=
  (atLocation location read).mapError SchemaError.report

/-- Faults of one wording are reported alike. -/
theorem reported_congr {Value : Type} {read other : Except LineFault Value} (location : Location)
    (same : read.mapError LineFault.wording = other.mapError LineFault.wording) :
    reported location read = reported location other := by
  cases read with
  | ok value =>
      cases other with
      | ok value => cases same; rfl
      | error fault => contradiction
  | error fault =>
      cases other with
      | ok value => contradiction
      | error other =>
          obtain ⟨sameCode, sameMessage⟩ := Prod.mk.inj (Except.error.inj same)
          simp only [reported, atLocation, Except.mapError, SchemaError.report, SchemaError.code,
            SchemaError.message, SchemaError.location, SchemaError.detail, sameCode, sameMessage]

namespace Text

/-! ## Faults of balance -/

/-- The wording of a fault of balance does not tell where in the text the fault is. -/
theorem checkBalance.go_wording {nesting : Nesting} {openings others : Openings}
    (inStep : openings.brackets.length = nesting.brackets.length)
    (inStepToo : others.brackets.length = nesting.brackets.length) (offset other : Nat)
    (text : Text) :
    (asLineFault (go nesting openings offset text)).mapError LineFault.wording =
      (asLineFault (go nesting others other text)).mapError LineFault.wording := by
  induction text generalizing nesting openings others offset other with
  | nil =>
      rw [go, go]
      split
      · rfl
      · cases brackets : nesting.brackets with
        | nil => rfl
        | cons bracket outer =>
            rw [brackets] at inStep inStepToo
            obtain ⟨opening, later, isOpenings⟩ :=
              List.exists_cons_of_length_eq_add_one inStep
            obtain ⟨otherOpening, otherLater, areOthers⟩ :=
              List.exists_cons_of_length_eq_add_one inStepToo
            rw [isOpenings, areOthers]
            rfl
  | cons character rest inductionHypothesis =>
      rw [go, go]
      split
      · rfl
      · exact inductionHypothesis (length_openings_after inStep offset character)
          (length_openings_after inStepToo other character) _ _

/-- Plain text in front of a text only moves its faults. -/
theorem checkBalance_plain_append {front : Text}
    (plain : ∀ character ∈ front, isPlain character = true) (rest : Text) :
    (asLineFault (checkBalance (front ++ rest))).mapError LineFault.wording =
      (asLineFault rest.checkBalance).mapError LineFault.wording := by
  have passed : ∀ offset, ∃ behind,
      checkBalance.go {} {} offset (front ++ rest) = checkBalance.go {} {} behind rest := by
    induction front with
    | nil => exact fun offset => ⟨offset, rfl⟩
    | cons character later inductionHypothesis =>
        intro offset
        obtain ⟨here, plainLater⟩ := List.forall_mem_cons.mp plain
        obtain ⟨fits, stays⟩ := @after_of_isPlain {} character rfl here
        obtain ⟨behind, same⟩ := inductionHypothesis plainLater (offset + character.utf8Size)
        refine ⟨behind, ?_⟩
        rw [List.cons_append, checkBalance.go, if_neg (by simp [fits]), stays,
          openings_after_of_isPlain {} offset here, same]
  obtain ⟨behind, same⟩ := passed 0
  rw [checkBalance, same]
  exact checkBalance.go_wording rfl rfl behind 0 rest

/-- The key of a line has no part in the wording of a fault of its balance. -/
theorem checkBalance_keyed_wording {key other : Text} (isKey : IsKey key) (isKeyToo : IsKey other)
    (value : Text) :
    (asLineFault (keyed key value).checkBalance).mapError LineFault.wording =
      (asLineFault (keyed other value).checkBalance).mapError LineFault.wording := by
  have value_wording : ∀ {key : Text}, IsKey key →
      (asLineFault (keyed key value).checkBalance).mapError LineFault.wording =
        (asLineFault value.checkBalance).mapError LineFault.wording := by
    intro key isKey
    have plain : ∀ character ∈ key ++ [':', ' '], isPlain character = true := by
      intro character listed
      rcases List.mem_append.mp listed with inKey | isSign
      · exact isKey.plain character inKey
      · exact List.all_eq_true.mp (by decide) character isSign
    rw [← checkBalance_plain_append plain value, keyed]
    simp
  rw [value_wording isKey, value_wording isKeyToo]

/-! ## Bare texts -/

/-- The text holds no sign of a description or an attribute. -/
def IsBare (text : Text) : Prop :=
  ∀ sign ∈ ['#', '@', '[', '"'], sign ∉ text

instance (text : Text) : Decidable text.IsBare :=
  decidable_of_iff ((['#', '@', '[', '"'].all (!text.contains ·)) = true) (by simp [IsBare])

/-- A text is bare if its characters are told from the signs. -/
theorem isBare_of_forall {text : Text} {keeps : Char → Bool}
    (apart : ['#', '@', '[', '"'].all (!keeps ·) = true)
    (all : ∀ character ∈ text, keeps character = true) : text.IsBare := by
  intro sign isSign listed
  have notKept := List.all_eq_true.mp apart sign isSign
  rw [all sign listed] at notKept
  contradiction

namespace IsBare

variable {text : Text} (bare : text.IsBare)
include bare

theorem extractFramework : text.extractFramework = .ok (text, []) :=
  @extractFramework_of_sealed [] text .nil (@not_escapesMark_append [] [] (by simp) (by simp))
    (bare '[' (by decide))

theorem splitDescription : text.splitDescription = (text, none) :=
  splitDescription_of_not_mem (bare '#' (by decide))

theorem splitSemantic :
    text.splitSemantic = .ok { before := text, attributes := [], quoted := none } := by
  refine splitSemantic_of_hidden (Nesting.shows_of_unwanted fun character listed => ?_)
  rw [beq_eq_false_iff_ne]
  rintro rfl
  exact bare '@' (by decide) listed

theorem append {other : Text} (bareToo : other.IsBare) : IsBare (text ++ other) := by
  intro sign isSign listed
  rcases List.mem_append.mp listed with inText | inOther
  · exact bare sign isSign inText
  · exact bareToo sign isSign inOther

theorem ends : text.trimEnd.getLast? ≠ some '"' :=
  getLast?_trimEnd_ne (bare '"' (by decide))

end IsBare

namespace IsKey

variable {key : Text} (isKey : IsKey key)
include isKey

theorem isBare : key.IsBare :=
  isBare_of_forall (by decide) isKey.2

theorem isBare_keyed {value : Text} (bare : value.IsBare) : (keyed key value).IsBare :=
  isKey.isBare.append (@IsBare.append [':', ' '] (by decide) value bare)

end IsKey

theorem splitNameLabel?_of_isIdentifier {name : Text} (identifier : name.isIdentifier = true) :
    name.splitNameLabel? = some (String.ofList name, none) := by
  simpa [inParentheses] using @splitNameLabel?_written name none identifier (by simp)

end Text

namespace Field

open Text

/-! ## Lines without attributes -/

section Bare

variable {name : Text} (location : Location) (identifier : name.isIdentifier = true)
include identifier

/-- A name alone declares a field, of which more is to follow. -/
theorem read_name : Field.read location name =
    .ok ({ name := String.ofList name, location }, .extended) := by
  have isKey := (isCallName_of_isIdentifier identifier).isKey
  have bare := isKey.isBare
  have noColon : name.cutAt ':' = none :=
    cutAtAny_eq_none (isKey.seals fun _ => beq_of_isKeyCharacter (by decide)).hides
  have balanced : name.checkBalance = .ok () := checkBalance_eq_ok_iff.mpr
    (@IsKey.seals name isKey (fun _ => false) fun _ _ => rfl).isBalanced
  simp only [Field.read, bare.extractFramework, bare.splitDescription, bare.splitSemantic, balanced,
    asLineFault, Except.mapError, bind, Except.bind, noColon,
    takeTrailingQuoted_of_unmarked bare.ends, splitNameLabel?_of_isIdentifier identifier]
  rfl

/-- A field line without attributes and descriptions sets the type behind the name. -/
theorem read_keyed {type : Text} (bare : type.IsBare) :
    Field.read location (keyed name type) = (do
      asLineFault (keyed name type).checkBalance
      let field <- Field.setTypeAndDefault { name := String.ofList name, location } type.trim
      return (field, .simple)) := by
  have isKey := (isCallName_of_isIdentifier identifier).isKey
  have bareLine := isKey.isBare_keyed bare
  have colon : (keyed name type).cutAt ':' =
      some { before := name, mark := ':', following := ' ' :: type } :=
    cutAtAny_append (isKey.seals fun _ => beq_of_isKeyCharacter (by decide)) (by decide) (by decide)
  have unquoted : splitTrailingDescription (' ' :: type) = (' ' :: type, none) :=
    splitTrailingDescription_of_unmarked (@IsBare.append [' '] (by decide) type bare).ends
  have sameType : ∀ field : Field, field.setTypeAndDefault (' ' :: type) =
      field.setTypeAndDefault type.trim := by
    intro field
    rw [← field.setTypeAndDefault_trim (' ' :: type), ← List.singleton_append,
      trim_blank_append type isBlank_of_mem_space]
  simp only [Field.read, bareLine.extractFramework, bareLine.splitDescription,
    bareLine.splitSemantic, asLineFault, Except.mapError, bind, Except.bind, colon,
    splitNameLabel?_of_isIdentifier identifier, unquoted, sameType]
  cases typed : Field.setTypeAndDefault { name := String.ofList name, location } type.trim with
  | error fault => rfl
  | ok field =>
      have undescribed : field.description = none := description_of_setTypeAndDefault typed
      obtain ⟨⟩ := field
      cases undescribed
      rfl

/-- A type that is balanced and the default value behind it are set if each of them is accepted. -/
theorem read_keyed_of_parts {type kind : Text} {assigned : Option DefaultValue} {typed : Field}
    (bare : type.IsBare) (balanced : type.isBalanced = true)
    (isSplit : type.splitDefault = .ok (kind, assigned))
    (isType : Field.setType { name := String.ofList name, location } kind = .ok typed) :
    Field.read location (keyed name type) =
      .ok ({ typed with defaultValue := assigned }, .simple) := by
  have isKey := (isCallName_of_isIdentifier identifier).isKey
  have accepted := checkBalance_eq_ok_iff.mpr ((isBalanced_keyed_iff isKey type).mpr balanced)
  rw [read_keyed location identifier bare, accepted, setTypeAndDefault_trim, setTypeAndDefault,
    isSplit]
  simp only [isType, asLineFault, Except.mapError, bind, Except.bind, Option.or_none]
  rfl

end Bare

/-! ## Lines and property lines -/

/-- A field that a name alone declares, refined by property lines. -/
def extended (location : Location) (name : Text) (lines : List Text) : Except LineFault Field := do
  let (field, _) <- Field.read location name
  lines.foldlM refine field

theorem refine_type (field : Field) (type : Text) :
    field.refine (keyed "type".toList type) = (do
      asLineFault (keyed "type".toList type).checkBalance
      field.setTypeAndDefault type.trim) :=
  field.refine_keyed (by decide) type

/-- A property line for the type sets a type to which nothing is assigned. -/
theorem refine_type_of_unassigned {field typed : Field} {kind : Text}
    (balanced : kind.isBalanced = true) (noAssign : kind.cutAt '=' = none)
    (isType : field.setType kind = .ok typed) :
    field.refine (keyed "type".toList kind) =
      .ok { typed with defaultValue := field.defaultValue } := by
  have accepted := checkBalance_eq_ok_iff.mpr
    ((@isBalanced_keyed_iff "type".toList (by decide) kind).mpr balanced)
  rw [refine_type, accepted, setTypeAndDefault_trim, setTypeAndDefault, splitDefault, noAssign]
  simp only [isType, asLineFault, Except.mapError, bind, Except.bind]
  rfl

/-- A property line for the default value sets a value that is balanced. -/
theorem refine_default (field : Field) {value : Text} {defaultValue : DefaultValue}
    (balanced : value.isBalanced = true) (isRead : DefaultValue.read value = .ok defaultValue) :
    field.refine (keyed "default".toList value) =
      .ok { field with defaultValue := some defaultValue } := by
  have isKey : IsKey "default".toList := by decide
  have accepted := checkBalance_eq_ok_iff.mpr ((isBalanced_keyed_iff isKey value).mpr balanced)
  have isProperty : property? "default".toList = some .defaultValue := by decide
  rw [field.refine_keyed isKey, accepted, setProperty, isProperty]
  simp only [DefaultValue.read_trim, isRead]
  rfl

/-- A field line and the property lines under a name set the same field or report the same error:
one line for the type, or one for the type and one for the default value behind it. -/
theorem simple_eq_extended {name : Text} (identifier : name.isIdentifier = true)
    (location : Location) :
    (∀ type : Text, type.IsBare →
      reported location (Field.read location (keyed name type)) =
        reported location ((extended location name [keyed "type".toList type]).map
          fun field => (field, .simple))) ∧
    ∀ kind value : Text, IsBare (kind ++ " = ".toList ++ value) → kind.cutAt '=' = none →
      spells (kind.trimStart.takeWhile isNameCharacter) "enum" = false →
      ∀ field form,
        Field.read location (keyed name (kind ++ " = ".toList ++ value)) = .ok (field, form) →
          form = .simple ∧ extended location name
            [keyed "type".toList kind, keyed "default".toList value] = .ok field := by
  have isKey := (isCallName_of_isIdentifier identifier).isKey
  have isTypeKey : IsKey "type".toList := by decide
  constructor
  · intro type bare
    have sameWording := checkBalance_keyed_wording isKey isTypeKey type
    have lines : (extended location name [keyed "type".toList type]).map
        (fun field => (field, FieldForm.simple)) = (do
          asLineFault (keyed "type".toList type).checkBalance
          let field <- Field.setTypeAndDefault { name := String.ofList name, location } type.trim
          return (field, .simple)) := by
      simp only [extended, read_name location identifier, List.foldlM_cons, List.foldlM_nil,
        refine_type, bind, Except.bind, pure, Except.pure]
      cases asLineFault (keyed "type".toList type).checkBalance with
      | error fault => rfl
      | ok _ => cases Field.setTypeAndDefault _ type.trim <;> rfl
    rw [read_keyed location identifier bare, lines]
    apply reported_congr
    simp only [mapError_bind, sameWording]
  · intro kind value bare noAssign noOptions field form isRead
    have whole : kind ++ " = ".toList ++ value = kind ++ ' ' :: '=' :: ' ' :: value := by
      simp
    have parts : kind ++ [' '] ++ '=' :: ' ' :: value = kind ++ ' ' :: '=' :: ' ' :: value := by
      simp
    rw [whole] at bare isRead
    simp only [read_keyed location identifier bare, bind_eq_ok_iff, pure_eq_ok_iff, asLineFault,
      mapError_eq_ok_iff, setTypeAndDefault_trim] at isRead
    obtain ⟨_, accepted, typed, isTyped, same⟩ := isRead
    obtain ⟨rfl, rfl⟩ := Prod.mk.inj same
    obtain ⟨atTop, declared, defaultValue, isType, isDefault, rfl⟩ :=
      setTypeAndDefault_assigned noAssign noOptions isTyped
    have balanced := (isBalanced_keyed_iff isKey _).mp (checkBalance_eq_ok_iff.mp accepted)
    rw [isBalanced_iff, ← parts, Nesting.readsToEnd_append, atTop] at balanced
    have balancedKind : kind.isBalanced = true := by
      rw [isBalanced, ← checkBalance_append_blank kind isBlank_of_mem_space]
      exact isBalanced_iff.mpr ⟨balanced.1, atTop⟩
    have balancedValue : value.isBalanced = true := isBalanced_iff.mpr
      (Nesting.readsToEnd_cons.mp (Nesting.readsToEnd_cons.mp balanced.2).2).2
    have isDefaultToo : DefaultValue.read value = .ok defaultValue := by
      rw [← isDefault, ← DefaultValue.read_trim (' ' :: value), ← List.singleton_append,
        trim_blank_append value isBlank_of_mem_space, DefaultValue.read_trim]
    refine ⟨rfl, ?_⟩
    simp only [extended, read_name location identifier, List.foldlM_cons, List.foldlM_nil,
      refine_type_of_unassigned balancedKind noAssign isType, bind, Except.bind, pure, Except.pure,
      refine_default _ balancedValue isDefaultToo]

/-- A default value with a `=` of its own stands on the field line or under it, and a type whose
parenthesis is not closed is reported alike on both. -/
theorem price_simple_eq_extended :
    (∃ field,
      Field.read .unknown "Price: decimal(18, 2)? = min(a=1, 0)".toList =
          .ok (field, .simple) ∧
        extended .unknown "Price".toList
          ["type: decimal(18, 2)?".toList, "default: min(a=1, 0)".toList] = .ok field ∧
        field.defaultValue = some { value := "min(a=1, 0)", isExpression := true }) ∧
      reported .unknown (Field.read .unknown "Price: string(50".toList) =
        reported .unknown ((extended .unknown "Price".toList
          ["type: string(50".toList]).map fun field => (field, .simple)) := by
  have ⟨sameReport, sameField⟩ :=
    @simple_eq_extended "Price".toList (by decide) .unknown
  have succeeds : (Field.read .unknown "Price: decimal(18, 2)? = min(a=1, 0)".toList).map
      (fun read => read.1.defaultValue) =
        .ok (some { value := "min(a=1, 0)", isExpression := true }) := by
    decide +kernel
  obtain ⟨⟨field, form⟩, isRead, isDefault⟩ := map_eq_ok_iff.mp succeeds
  obtain ⟨rfl, isExtended⟩ := sameField "decimal(18, 2)?".toList "min(a=1, 0)".toList
    (by decide) (by decide) (by decide) field form isRead
  exact ⟨⟨field, isRead, isExtended, isDefault⟩,
    sameReport "string(50".toList (by decide)⟩

end Field

end SchemaMarkup
