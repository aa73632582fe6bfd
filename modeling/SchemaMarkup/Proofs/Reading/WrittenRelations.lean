import Mathlib.Data.List.Permutation
import SchemaMarkup.Proofs.Lookup
import SchemaMarkup.Proofs.Reading.RelationProperties

/-!
# Relations as they are written

A relation is written as a line with its properties on lines of their own, or as a directive with
everything among its arguments. The line is read by its words and its properties are set one by
one, while the directive is divided at its commas and asked for its keys. Both give the relation
with exactly what is written, in whatever order the properties and the arguments stand
(`RelationParts.read_line_and_directive`).
-/

namespace SchemaMarkup

open Text

/-- What is written of a relation. -/
structure RelationParts where
  kind : RelationKind
  target : Text
  name : Text
  fromField : Option Text := none
  onDelete : Option ActionText := none
  onUpdate : Option ActionText := none
  description : Option Text := none

/-- The mark in front of the target of a relation line. -/
def RelationKind.mark : RelationKind → Char
  | .toOne => '>'
  | .toMany => '<'

namespace RelationParts

/-- Names are identifiers, and the description can stand in a string. -/
structure WellFormed (parts : RelationParts) : Prop where
  target : parts.target.isIdentifier = true
  name : parts.name.isIdentifier = true
  fromField : ∀ field, parts.fromField = some field → field.isIdentifier = true
  description : ∀ text, parts.description = some text → IsDescription text

variable (parts : RelationParts)

/-- The relation that is written. -/
def relation (location : Location) : Relation where
  name := String.ofList parts.name
  kind := parts.kind
  target := String.ofList parts.target
  fromField := parts.fromField.map String.ofList
  onDelete := parts.onDelete.map ActionText.action
  onUpdate := parts.onUpdate.map ActionText.action
  description := parts.description.map String.ofList
  location := location

/-- The relation without its properties. -/
def bareRelation (location : Location) : Relation :=
  { parts.relation location with fromField := none, onDelete := none, onUpdate := none }

/-- The target and the name. -/
def named : Text :=
  parts.target ++ " as ".toList ++ parts.name

/-- The relation line behind its mark. -/
def behindMark : Text :=
  parts.named ++ parts.description.elim [] (' ' :: quoted ·)

/-- The relation line. -/
def line : Text :=
  parts.kind.mark :: parts.behindMark

/-- The properties, one for each that is written. -/
def properties : List RelationProperty :=
  parts.fromField.toList.map .fromField ++ parts.onDelete.toList.map .onDelete ++
    parts.onUpdate.toList.map .onUpdate

/-- The arguments of a directive. -/
def arguments : List RelationArgument :=
  .name parts.name :: .target parts.kind parts.target ::
    (parts.properties.map .property ++ parts.description.toList.map .description)

end RelationParts

/-! ## Directions -/

namespace Relation

theorem splitDirection?_mark {kind : RelationKind} {rest : Text}
    (trimmed : trim (kind.mark :: rest) = kind.mark :: rest) (noHyphen : rest.head? ≠ some '-') :
    splitDirection? (kind.mark :: rest) = some (kind, rest) := by
  rw [splitDirection?, trimmed]
  cases kind with
  | toOne => rfl
  | toMany =>
      cases rest with
      | nil => rfl
      | cons first later =>
          have other : first ≠ '-' := by simpa using noHyphen
          simp [RelationKind.mark, other]

theorem splitDirection?_arrow {kind : RelationKind} {rest : Text}
    (trimmed : trim (kind.arrow ++ rest) = kind.arrow ++ rest) :
    splitDirection? (kind.arrow ++ rest) = some (kind, rest) := by
  rw [splitDirection?, trimmed]
  cases kind <;> rfl

theorem splitDirection?_of_isIdentifier {name : Text} (identifier : name.isIdentifier = true) :
    splitDirection? name = none := by
  have named := isCallName_of_isIdentifier identifier
  rw [splitDirection?, named.trimmed]
  obtain ⟨first, rest, rfl, isName⟩ := named.exists_first
  have other : first ≠ '-' ∧ first ≠ '>' ∧ first ≠ '<' := by
    refine ⟨?_, ?_, ?_⟩ <;> rintro rfl <;> exact absurd isName (by decide)
  simp [other]

/-- A target that is an identifier is read as it is. -/
theorem readTarget_of_isIdentifier {target : Text} (identifier : target.isIdentifier = true) :
    readTarget target = .ok (String.ofList target) := by
  simp [readTarget, (isCallName_of_isIdentifier identifier).unquoted, identifier]

theorem Positional.add_name {name : Text} (identifier : name.isIdentifier = true)
    {positional : Positional} (free : positional.name = none) :
    positional.add (String.ofList name) =
      .ok { positional with name := some (String.ofList name) } := by
  simp [Positional.add, splitDirection?_of_isIdentifier identifier, free,
    (isCallName_of_isIdentifier identifier).unquoted]

theorem Positional.add_target {kind : RelationKind} {target : Text}
    (identifier : target.isIdentifier = true) (positional : Positional) :
    positional.add (String.ofList (kind.arrow ++ target)) =
      .ok { positional with target := some (kind, String.ofList target) } := by
  have isApart : IsApart (kind.arrow ++ target) :=
    @RelationArgument.WellFormed.isApart (.target kind target) identifier
  simp only [Positional.add, String.toList_ofList, splitDirection?_arrow isApart.trimmed,
    readTarget_of_isIdentifier identifier]
  rfl

end Relation

namespace RelationParts

variable {parts : RelationParts}

/-! ## Lines -/

namespace WellFormed

variable (wellFormed : parts.WellFormed)
include wellFormed

/-- The target and the name show no sign but their characters. -/
theorem seals_named {wanted : Char → Bool} (noBlank : wanted ' ' = false)
    (unwanted : ∀ character, isNameCharacter character = true → wanted character = false) :
    Seals wanted parts.named := by
  have target := (isCallName_of_isIdentifier wellFormed.target).seals unwanted
  have name := (isCallName_of_isIdentifier wellFormed.name).seals unwanted
  have keyword : Seals wanted " as ".toList :=
    .cons (by decide) noBlank (.cons (by decide) (unwanted 'a' (by decide))
      (.cons (by decide) (unwanted 's' (by decide)) (.cons (by decide) noBlank .nil)))
  exact (target.append keyword).append name

/-- The words of a line, whether or not a blank follows them. -/
theorem words_named {blanks : Text} (blank : blanks = [] ∨ blanks = [' ']) :
    words (parts.named ++ blanks) = [parts.target, "as".toList, parts.name] := by
  have filled : ∀ {name : Text}, IsCallName name →
      name ≠ [] ∧ ∀ character ∈ name, isBlank character = false := fun named =>
    ⟨named.1, fun character listed => not_isBlank_of_isNameCharacter (named.2 character listed)⟩
  obtain ⟨isTarget, filledTarget⟩ := filled (isCallName_of_isIdentifier wellFormed.target)
  obtain ⟨isName, filledName⟩ := filled (isCallName_of_isIdentifier wellFormed.name)
  obtain ⟨isKeyword, filledKeyword⟩ := filled (show IsCallName "as".toList by decide)
  have keyword : words ("as".toList ++ ' ' :: (parts.name ++ blanks)) =
      "as".toList :: words (' ' :: (parts.name ++ blanks)) :=
    words_append isKeyword filledKeyword (by rintro _ ⟨⟩; decide)
  have behind : words (parts.name ++ blanks) = [parts.name] := by
    rw [words_append isName filledName]
    · rcases blank with rfl | rfl <;> rfl
    · rcases blank with rfl | rfl
      · simp
      · rintro _ ⟨⟩
        decide
  have whole : parts.named ++ blanks =
      parts.target ++ ' ' :: ("as".toList ++ ' ' :: (parts.name ++ blanks)) := by
    simp [named]
  rw [whole, words_append isTarget filledTarget (by rintro _ ⟨⟩; decide),
    words_cons_blank _ (by decide), keyword, words_cons_blank _ (by decide), behind]

/-- A line is split at its mark. -/
theorem splitDirection?_line :
    Relation.splitDirection? parts.line = some (parts.kind, parts.behindMark) := by
  have trimmedMark : trim [parts.kind.mark] = [parts.kind.mark] := by
    cases parts.kind <;> decide
  have name := isCallName_of_isIdentifier wellFormed.name
  refine Relation.splitDirection?_mark ?_ ?_
  · rw [behindMark]
    cases parts.description with
    | none =>
        have trimmed := trim_append_append (parts.target ++ " as ".toList) trimmedMark (by simp)
          name.trimmed name.1
        simpa [named] using trimmed
    | some text =>
        have trimmed := trim_append_append (parts.named ++ [' ']) trimmedMark (by simp)
          (trim_quoted text) (List.cons_ne_nil _ _)
        simpa using trimmed
  · obtain ⟨first, rest, isFirst, isName⟩ :=
      (isCallName_of_isIdentifier wellFormed.target).exists_first
    rw [behindMark, named, isFirst]
    rintro ⟨⟩
    exact absurd isName (by decide)

/-- A line shows no `#`, not even in its description. -/
theorem seals_behindMark : Seals (· == '#') parts.behindMark := by
  have sealed : Seals (· == '#') parts.named :=
    wellFormed.seals_named (by decide) fun _ => beq_of_isNameCharacter (by decide)
  cases isText : parts.description with
  | none => simpa [behindMark, isText] using sealed
  | some text =>
      have string : Seals (· == '#') text.quoted :=
        (wellFormed.description text isText).seals (by decide)
      simpa [behindMark, isText] using sealed.append (.cons (by decide) (by decide) string)

/-- The string behind the name is taken off. -/
theorem exists_takeTrailingQuoted :
    ∃ blanks, (blanks = [] ∨ blanks = [' ']) ∧
      parts.behindMark.takeTrailingQuoted =
        (parts.named ++ blanks, parts.description.map String.ofList) := by
  cases isText : parts.description with
  | none =>
      refine ⟨[], .inl rfl, ?_⟩
      rw [behindMark, isText, Option.elim_none, List.append_nil, Option.map_none]
      have noMark : ∀ {name : Text}, name.isIdentifier = true → '"' ∉ name := fun identifier =>
        (isCallName_of_isIdentifier identifier).not_mem (by decide)
      refine takeTrailingQuoted_of_unmarked (getLast?_trimEnd_ne ?_)
      simp [named, noMark wellFormed.target, noMark wellFormed.name]
  | some text =>
      have described := wellFormed.description text isText
      obtain ⟨stays, leads⟩ := Nesting.staysInside_of_not_mem described.noMark described.noBackslash
      have sealed : Seals (fun _ => false) (parts.named ++ [' ']) :=
        (wellFormed.seals_named rfl fun _ _ => rfl).append (.cons (by decide) rfl .nil)
      have taken :=
        @takeTrailingQuoted_of_string (parts.named ++ [' ']) text [] sealed.reads.2 stays leads
          (by simp)
      rw [unescapeQuotes_of_not_mem described.noBackslash] at taken
      refine ⟨[' '], .inr rfl, ?_⟩
      simpa [behindMark, isText, quoted] using taken

/-- A line is read as the relation without its properties. -/
theorem readLine_line (location : Location) :
    Relation.readLine location parts.line = .ok (some (parts.bareRelation location)) := by
  obtain ⟨blanks, blank, taken⟩ := wellFormed.exists_takeTrailingQuoted
  have sealed := wellFormed.seals_behindMark
  have balanced := checkBalance_eq_ok_iff.mpr sealed.isBalanced
  have keyword : Text.spells "as".toList "as" = true := by decide
  simp only [Relation.readLine, wellFormed.splitDirection?_line, splitDescription_of_sealed sealed,
    balanced, taken, wellFormed.words_named blank,
    Relation.readTarget_of_isIdentifier wellFormed.target, Relation.readLineName, keyword,
    wellFormed.name]
  rfl

/-! ## Properties -/

theorem wellFormed_of_mem_properties {property : RelationProperty}
    (listed : property ∈ parts.properties) : property.WellFormed := by
  simp only [properties, List.mem_append, List.mem_map, Option.mem_toList] at listed
  rcases listed with (⟨field, isField, rfl⟩ | ⟨action, _, rfl⟩) | ⟨action, _, rfl⟩
  · exact wellFormed.fromField field isField
  · trivial
  · trivial

end WellFormed

/-- Each property is written once, so the properties can be set in any order. -/
theorem set_comm {first second : RelationProperty} (isFirst : first ∈ parts.properties)
    (isSecond : second ∈ parts.properties) (relation : Relation) :
    second.set (first.set relation) = first.set (second.set relation) := by
  simp only [properties, List.mem_append, List.mem_map, Option.mem_toList] at isFirst isSecond
  rcases isFirst with (⟨_, one, rfl⟩ | ⟨_, one, rfl⟩) | ⟨_, one, rfl⟩ <;>
    rcases isSecond with (⟨_, other, rfl⟩ | ⟨_, other, rfl⟩) | ⟨_, other, rfl⟩ <;>
    -- Two of one key are one property, and properties of different keys set different fields.
    first
      | rfl
      | cases one.symm.trans other; rfl

/-- The properties make the relation what is written. -/
theorem foldl_set (parts : RelationParts) (location : Location) :
    parts.properties.foldl RelationProperty.set (parts.bareRelation location) =
      parts.relation location := by
  simp only [properties, bareRelation, relation]
  cases parts.fromField <;> cases parts.onDelete <;> cases parts.onUpdate <;> rfl

/-- Lines of the properties in any order make the relation what is written. -/
theorem foldlM_refine (wellFormed : parts.WellFormed) {properties : List RelationProperty}
    (perm : properties.Perm parts.properties) (location : Location) :
    (properties.map RelationProperty.line).foldlM Relation.refine (parts.bareRelation location) =
      .ok (parts.relation location) := by
  have inOrder : properties.foldl RelationProperty.set (parts.bareRelation location) =
      parts.relation location := by
    rw [perm.foldl_eq' _ (parts.bareRelation location), foldl_set]
    intro first isFirst second isSecond relation
    exact set_comm (perm.mem_iff.mp isFirst) (perm.mem_iff.mp isSecond) relation
  rw [List.foldlM_map, ← inOrder]
  exact foldlM_eq_ok_foldl (fun property listed => RelationProperty.refine_line
    (wellFormed.wellFormed_of_mem_properties (perm.mem_iff.mp listed))) _

end RelationParts

/-! ## Arguments -/

namespace RelationArgument

/-- The text between the parentheses of a directive. -/
def list (arguments : List RelationArgument) : Text :=
  List.intercalate ", ".toList (arguments.map text)

/-- The text of a directive behind its `@`. -/
def directive (arguments : List RelationArgument) : Text :=
  "relation".toList ++ '(' :: (list arguments ++ [')'])

/-- The call of a directive. -/
def call (arguments : List RelationArgument) : Attribute where
  name := "relation"
  arguments := arguments.map fun argument => String.ofList argument.text
  raw := String.ofList (directive arguments)

/-- What is said under a key by a value behind the key that is written. -/
def under (key : String) (written value : Text) : Option String :=
  if keysMatch written key.toList then some (String.ofList value.unquote) else none

/-- What an argument says under a key. -/
def answer (key : String) (argument : RelationArgument) : Option String :=
  argument.keyed?.bind fun (written, value) => under key written value

variable {arguments : List RelationArgument}
  (wellFormed : ∀ argument ∈ arguments, argument.WellFormed)
include wellFormed

/-- A directive is read as one call, whose arguments are those that are written. -/
theorem callRun_directive : callRun ('@' :: directive arguments) = .ok [call arguments] := by
  have apart : ∀ item ∈ arguments.map text, IsApart item := by
    intro item listed
    obtain ⟨argument, isArgument, rfl⟩ := List.mem_map.mp listed
    exact (wellFormed argument isArgument).isApart
  have isSpace : ∀ character ∈ [' '], isBlank character = true ∧ character ≠ ',' :=
    List.forall_mem_singleton.mpr ⟨by decide, by decide⟩
  have divided : (list arguments).pieces ',' = arguments.map text :=
    pieces_intercalate (by decide) isSpace fun item listed =>
      ⟨(apart item listed).sealed, (apart item listed).trimmed, (apart item listed).filled⟩
  have balanced : (list arguments).isBalanced = true := by
    have sealed : Seals (fun _ => false) (list arguments) :=
      .intercalate (seals_of_all (by decide)) fun item listed =>
        ⟨(apart item listed).sealed.reads, Nesting.shows_of_unwanted fun _ _ => rfl⟩
    exact sealed.isBalanced
  have spells : Spells (directive arguments) (call arguments) := by
    have named : IsCallName "relation".toList := by decide
    have applied := Spells.applied named balanced
    rwa [divided, List.map_map] at applied
  have isRead := @callRun_intercalate [call arguments] (by simpa [call] using spells) [] (by simp)
  simpa [rawTexts, call] using isRead

/-- What is under a key is what the first argument with the key says. -/
theorem named?_call (key : String) :
    (call arguments).named? key = arguments.findSome? (answer key) := by
  rw [Attribute.named?, call, List.findSome?_map, ← List.head?_filterMap, ← List.head?_filterMap]
  congr 1
  refine List.filterMap_congr fun argument listed => ?_
  simp only [Function.comp_apply, String.toList_ofList,
    (wellFormed argument listed).splitNamedArgument?_text, answer]
  cases argument.keyed? <;> rfl

/-- The arguments without a key stand in their order. -/
theorem positional_call :
    (call arguments).positional =
      (arguments.filter fun argument => argument.keyed?.isNone).map
        fun argument => String.ofList argument.text := by
  rw [Attribute.positional, call, List.filter_map]
  congr 1
  refine List.filter_congr fun argument listed => ?_
  rw [Function.comp_apply, String.toList_ofList,
    (wellFormed argument listed).splitNamedArgument?_text]

end RelationArgument

/-! ## Directives -/

namespace RelationArgument

/-- The keys that arguments have. -/
def keys : List String :=
  ["from", "onDelete", "onUpdate", "description"]

/-- A key that an argument has matches no other key that is asked for. -/
theorem keysMatch_eq : ∀ written ∈ keys, ∀ key ∈ "name" :: keys,
    keysMatch written.toList key.toList = (written == key) := by
  decide

theorem bind_under {written key : String} (isWritten : written ∈ keys)
    (isKey : key ∈ "name" :: keys) (value : Option Text) :
    value.bind (under key written.toList) =
      if written == key then value.map fun value => String.ofList value.unquote else none := by
  cases value <;> simp [under, keysMatch_eq written isWritten key isKey]

end RelationArgument

namespace RelationParts

variable {parts : RelationParts}

theorem WellFormed.wellFormed_of_mem_arguments (wellFormed : parts.WellFormed)
    {argument : RelationArgument} (listed : argument ∈ parts.arguments) :
    argument.WellFormed := by
  simp only [arguments, List.mem_cons, List.mem_append, List.mem_map, Option.mem_toList] at listed
  rcases listed with rfl | rfl | ⟨property, isProperty, rfl⟩ | ⟨text, isText, rfl⟩
  · exact wellFormed.name
  · exact wellFormed.target
  · exact wellFormed.wellFormed_of_mem_properties isProperty
  · exact wellFormed.description text isText

/-- The keys of the arguments differ in more than their spelling. -/
theorem nodup_keys (parts : RelationParts) :
    ((parts.arguments.filterMap RelationArgument.keyed?).map
      fun pair => keyLetters pair.1).Nodup := by
  have atMost {Value : Type} (declared : Option Value) (key : Text) :
      (declared.toList.map fun _ => key).Sublist [key] := by
    cases declared <;> simp
  have isSublist := (((atMost parts.fromField (keyLetters "from".toList)).append
    (atMost parts.onDelete (keyLetters "onDelete".toList))).append
    (atMost parts.onUpdate (keyLetters "onUpdate".toList))).append
    (atMost parts.description (keyLetters "description".toList))
  have distinct := List.Nodup.sublist isSublist (by decide)
  convert distinct using 1
  simp only [arguments, properties]
  cases parts.fromField <;> cases parts.onDelete <;> cases parts.onUpdate <;>
    cases parts.description <;> rfl

/-- No two arguments answer to one key. -/
theorem pairwise_answer (parts : RelationParts) (key : String) :
    parts.arguments.Pairwise fun one other =>
      one.answer key = none ∨ other.answer key = none := by
  have apart := parts.nodup_keys
  rw [List.nodup_iff_pairwise_ne, List.pairwise_map, List.pairwise_filterMap] at apart
  refine apart.imp fun {one other} apart => ?_
  cases isOne : one.keyed? with
  | none => exact .inl (by rw [RelationArgument.answer, isOne, Option.bind_none])
  | some pair =>
      cases isOther : other.keyed? with
      | none => exact .inr (by rw [RelationArgument.answer, isOther, Option.bind_none])
      | some otherPair =>
          have notBoth : ¬(keysMatch pair.1 key.toList = true ∧
              keysMatch otherPair.1 key.toList = true) := by
            rintro ⟨matchesOne, matchesOther⟩
            rw [keysMatch, beq_iff_eq] at matchesOne matchesOther
            exact apart pair isOne otherPair isOther (matchesOne.trans matchesOther.symm)
          rw [RelationArgument.answer, RelationArgument.answer, isOne, isOther]
          exact (not_and_or.mp notBoth).imp (if_neg ·) (if_neg ·)

/-- What the arguments say under a key. -/
theorem findSome?_answer (parts : RelationParts) (key : String) :
    parts.arguments.findSome? (RelationArgument.answer key) =
      (parts.fromField.bind (RelationArgument.under key "from".toList)).or
        (((parts.onDelete.map ActionText.text).bind
            (RelationArgument.under key "onDelete".toList)).or
          (((parts.onUpdate.map ActionText.text).bind
              (RelationArgument.under key "onUpdate".toList)).or
            ((parts.description.map quoted).bind
              (RelationArgument.under key "description".toList)))) := by
  have answers {Value : Type} (declared : Option Value) (make : Value → RelationArgument) :
      (declared.toList.map make).findSome? (RelationArgument.answer key) =
        declared.bind fun value => (make value).answer key := by
    cases declared <;> simp
  have noName : (RelationArgument.name parts.name).answer key = none := rfl
  have noTarget : (RelationArgument.target parts.kind parts.target).answer key = none := rfl
  simp only [arguments, properties, List.map_append, List.map_map, List.findSome?_cons, noName,
    noTarget, List.findSome?_append, answers, Option.or_assoc, Option.bind_map]
  rfl

/-- Under each key that is asked for, a call has what is written. -/
structure Fills (parts : RelationParts) (call : Attribute) : Prop where
  name : call.named? "name" = none
  fromField : call.named? "from" = parts.fromField.map String.ofList
  onDelete : call.named? "onDelete" =
    parts.onDelete.map fun action => String.ofList action.text.unquote
  onUpdate : call.named? "onUpdate" =
    parts.onUpdate.map fun action => String.ofList action.text.unquote
  description : call.named? "description" = parts.description.map String.ofList

/-- Only the name and the target have no key. -/
theorem filter_arguments (parts : RelationParts) :
    parts.arguments.filter (fun argument => argument.keyed?.isNone) =
      [.name parts.name, .target parts.kind parts.target] := by
  have allKeyed : ∀ argument ∈ parts.properties.map RelationArgument.property ++
      parts.description.toList.map RelationArgument.description, argument.keyed?.isNone ≠ true := by
    intro argument listed
    rcases List.mem_append.mp listed with isProperty | isText
    · obtain ⟨property, _, rfl⟩ := List.mem_map.mp isProperty
      exact Bool.false_ne_true
    · obtain ⟨text, _, rfl⟩ := List.mem_map.mp isText
      exact Bool.false_ne_true
  rw [arguments, List.filter_cons_of_pos rfl, List.filter_cons_of_pos rfl,
    List.filter_eq_nil_iff.mpr allKeyed]

section Ordered

variable (wellFormed : parts.WellFormed) {arguments : List RelationArgument}
  (perm : arguments.Perm parts.arguments)
include wellFormed perm

theorem wellFormed_of_perm : ∀ argument ∈ arguments, argument.WellFormed :=
  fun _ listed => wellFormed.wellFormed_of_mem_arguments (perm.mem_iff.mp listed)

theorem fills_call : parts.Fills (RelationArgument.call arguments) := by
  let contents : Text → String := fun value => String.ofList value.unquote
  have asked (key : String) (isKey : key ∈ "name" :: RelationArgument.keys) :
      (RelationArgument.call arguments).named? key =
        (if "from" == key then parts.fromField.map contents else none).or
          ((if "onDelete" == key then (parts.onDelete.map ActionText.text).map contents
              else none).or
            ((if "onUpdate" == key then (parts.onUpdate.map ActionText.text).map contents
                else none).or
              (if "description" == key then (parts.description.map quoted).map contents
                else none))) := by
    rw [RelationArgument.named?_call (wellFormed_of_perm wellFormed perm),
      ← findSome?_eq_of_perm perm.symm (parts.pairwise_answer key), findSome?_answer,
      RelationArgument.bind_under (by decide) isKey, RelationArgument.bind_under (by decide) isKey,
      RelationArgument.bind_under (by decide) isKey, RelationArgument.bind_under (by decide) isKey]
  have isField : parts.fromField.map contents = parts.fromField.map String.ofList := by
    refine Option.map_congr fun field isField => ?_
    rw [show contents field = String.ofList field.unquote from rfl,
      (isCallName_of_isIdentifier (wellFormed.fromField field isField)).unquoted]
  have isText :
      (parts.description.map quoted).map contents = parts.description.map String.ofList := by
    rw [Option.map_map]
    refine Option.map_congr fun text _ => ?_
    rw [Function.comp_apply, show contents text.quoted = String.ofList text.quoted.unquote from rfl,
      unquote_quoted]
  refine ⟨?_, ?_, ?_, ?_, ?_⟩
  · simpa using asked "name" (by decide)
  · simpa [isField] using asked "from" (by decide)
  · simpa [Function.comp_def, contents] using asked "onDelete" (by decide)
  · simpa [Function.comp_def, contents] using asked "onUpdate" (by decide)
  · simpa [isText] using asked "description" (by decide)

/-- The name and the target are told apart in either order. -/
theorem foldlM_add :
    (RelationArgument.call arguments).positional.foldlM Relation.Positional.add { name := none } =
      .ok {
        name := some (String.ofList parts.name)
        target := some (parts.kind, String.ofList parts.target) } := by
  have positional := perm.filter fun argument => argument.keyed?.isNone
  rw [filter_arguments, List.perm_pair] at positional
  rw [RelationArgument.positional_call (wellFormed_of_perm wellFormed perm)]
  have name := @Relation.Positional.add_name parts.name wellFormed.name
  have target := @Relation.Positional.add_target parts.kind parts.target wellFormed.target
  rcases positional with isFirst | isLast
  · simp only [isFirst, List.map_cons, List.map_nil, List.foldlM_cons, List.foldlM_nil,
      RelationArgument.text, @name { name := none } rfl, bind, Except.bind, target]
    rfl
  · simp only [isLast, List.map_cons, List.map_nil, List.foldlM_cons, List.foldlM_nil,
      RelationArgument.text, target, bind, Except.bind,
      @name ⟨none, some (parts.kind, String.ofList parts.target)⟩ rfl]
    rfl

theorem ofAttribute_call (location : Location) :
    Relation.ofAttribute location (RelationArgument.call arguments) =
      .ok (parts.relation location) := by
  have fills := fills_call wellFormed perm
  have areActions : ∀ declared : Option ActionText,
      ((declared.map fun action => String.ofList action.text.unquote).mapM fun action : String =>
        Relation.readAction action.toList) = .ok (declared.map ActionText.action) := by
    intro declared
    cases declared with
    | none => rfl
    | some action =>
        simp [Relation.readAction, ReferentialAction.read?_unquote, action.isRead]
  simp only [Relation.ofAttribute, fills.name, fills.fromField, fills.onDelete, fills.onUpdate,
    fills.description, foldlM_add wellFormed perm, areActions, Relation.Positional.destination]
  cases isText : parts.description with
  | none => simp [relation, isText, bind, Except.bind, pure, Except.pure]
  | some text =>
      have described := wellFormed.description text isText
      simp [relation, isText, bind, Except.bind, pure, Except.pure,
        nonBlank?_of_trimmed described.trimmed described.filled]

end Ordered

/-- A relation is read as it is written, from a line that is refined by the lines of its properties
and from a directive. Properties and arguments can stand in any order. -/
theorem read_line_and_directive (wellFormed : parts.WellFormed)
    {properties : List RelationProperty} (inAnyOrder : properties.Perm parts.properties)
    {arguments : List RelationArgument} (arranged : arguments.Perm parts.arguments)
    (dialect : Dialect) (location other : Location) :
    (∃ read, Relation.readLine location parts.line = .ok (some read) ∧
      (properties.map RelationProperty.line).foldlM Relation.refine read =
        .ok (parts.relation location)) ∧
      ∃ call, callRun ('@' :: RelationArgument.directive arguments) = .ok [call] ∧
        Directive.ofAttribute dialect other call = .ok (.relation (parts.relation other)) := by
  have isRelation : Directive.ofAttribute dialect other (RelationArgument.call arguments) =
      (Relation.ofAttribute other (RelationArgument.call arguments)).map .relation := by
    have noUnique : (RelationArgument.call arguments).isNamed "unique" = false :=
      (by decide : equalIgnoringCase "relation" "unique" = false)
    have noIndex : (RelationArgument.call arguments).isNamed "index" = false :=
      (by decide : equalIgnoringCase "relation" "index" = false)
    have isNamed : (RelationArgument.call arguments).isNamed "relation" = true :=
      equalIgnoringCase_self "relation"
    rw [Directive.ofAttribute, noUnique, noIndex, isNamed]
    rfl
  refine ⟨⟨_, wellFormed.readLine_line location, foldlM_refine wellFormed inAnyOrder location⟩,
    _, RelationArgument.callRun_directive (wellFormed_of_perm wellFormed arranged), ?_⟩
  rw [isRelation, ofAttribute_call wellFormed arranged]
  rfl

/-- A relation with everything that can be written of one. -/
def orderLines : RelationParts where
  kind := .toMany
  target := "Line".toList
  name := "lines".toList
  fromField := some "order_id".toList
  onDelete := some (.ofAction .cascade)
  onUpdate := some (.ofAction .setNull)
  description := some "first, (then # @last".toList

/-- The relation is read from a line and a directive, with everything else the other way round. -/
theorem orderLines_isRead :
    (∃ read,
      Relation.readLine .unknown "<Line as lines \"first, (then # @last\"".toList =
          .ok (some read) ∧
        ["onUpdate: SET NULL".toList, "onDelete: CASCADE".toList, "from: order_id".toList].foldlM
          Relation.refine read = .ok (orderLines.relation .unknown)) ∧
      ∃ call,
        callRun (String.toList ("@relation(description: \"first, (then # @last\", " ++
          "onUpdate: SET NULL, onDelete: CASCADE, from: order_id, <-Line, lines)")) = .ok [call] ∧
        Directive.ofAttribute .current .unknown call =
          .ok (.relation (orderLines.relation .unknown)) := by
  have wellFormed : orderLines.WellFormed := {
    target := by decide
    name := by decide
    fromField := by rintro _ ⟨⟩; decide
    description := by
      rintro _ ⟨⟩
      exact ⟨by decide, by decide, by decide, by decide⟩ }
  exact read_line_and_directive wellFormed (List.reverse_perm orderLines.properties)
    (List.reverse_perm orderLines.arguments) .current .unknown .unknown

end RelationParts

end SchemaMarkup
