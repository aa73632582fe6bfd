import SchemaMarkup.Grammar.Field
import SchemaMarkup.Proofs.Reading.CallSpelling
import SchemaMarkup.Proofs.Text.OuterBlanks

/-!
# Property lines as they are written

A property line is written `key: value`. Whatever the value is, the line is split at the colon, the
value is trimmed, and the line has the balance of its value. So a field that is refined by the line
is the field with the property set, or the value is not balanced (`Field.refine_keyed`).
-/

namespace SchemaMarkup

namespace Text

/-- A text with a key in front of it. -/
def keyed (key value : Text) : Text :=
  key ++ ':' :: ' ' :: value

/-- The text is a key of a property line. -/
def IsKey (key : Text) : Prop :=
  key ≠ [] ∧ ∀ character ∈ key, isKeyCharacter character = true

instance (key : Text) : Decidable (IsKey key) :=
  decidable_of_iff ((!key.isEmpty && key.all isKeyCharacter) = true) (by simp [IsKey])

/-! ## Keys -/

theorem isName_or_hyphen {character : Char} (isKey : isKeyCharacter character = true) :
    isNameCharacter character = true ∨ character = '-' := by
  simp only [isKeyCharacter, Bool.or_eq_true, beq_iff_eq] at isKey
  simp only [isNameCharacter, Bool.or_eq_true, beq_iff_eq]
  tauto

theorem not_isBlank_of_isKeyCharacter {character : Char}
    (isKey : isKeyCharacter character = true) : isBlank character = false := by
  rcases isName_or_hyphen isKey with isName | rfl
  · exact not_isBlank_of_isNameCharacter isName
  · decide

/-- A sign that no key has is none of its characters. -/
theorem beq_of_isKeyCharacter {sign character : Char} (apart : isKeyCharacter sign = false)
    (isKey : isKeyCharacter character = true) : (character == sign) = false := by
  rw [beq_eq_false_iff_ne]
  rintro rfl
  exact absurd (isKey.symm.trans apart) (by decide)

/-- Names are keys. -/
theorem IsCallName.isKey {name : Text} (named : IsCallName name) : IsKey name := by
  refine ⟨named.1, fun character listed => ?_⟩
  have isName := named.2 character listed
  simp only [isNameCharacter, Bool.or_eq_true, beq_iff_eq] at isName
  simp only [isKeyCharacter, Bool.or_eq_true, beq_iff_eq]
  tauto

namespace IsKey

variable {key : Text}

theorem exists_first (isKey : IsKey key) :
    ∃ first rest, key = first :: rest ∧ isKeyCharacter first = true := by
  obtain ⟨filled, all⟩ := isKey
  obtain ⟨first, rest, rfl⟩ := List.exists_cons_of_ne_nil filled
  exact ⟨first, rest, rfl, all first List.mem_cons_self⟩

theorem trimmed (isKey : IsKey key) : key.trim = key :=
  trim_of_filled fun character listed => not_isBlank_of_isKeyCharacter (isKey.2 character listed)

theorem plain (isKey : IsKey key) : ∀ character ∈ key, isPlain character = true := by
  intro character listed
  rcases isName_or_hyphen (isKey.2 character listed) with isName | rfl
  · exact isPlain_of_isNameCharacter isName
  · decide

/-- A key shows no sign that is none of its characters. -/
theorem seals (isKey : IsKey key) {wanted : Char → Bool}
    (unwanted : ∀ character, isKeyCharacter character = true → wanted character = false) :
    Seals wanted key :=
  seals_of_plain fun character listed =>
    ⟨isKey.plain character listed, unwanted character (isKey.2 character listed)⟩

end IsKey

/-! ## Lines -/

variable {key : Text} (isKey : IsKey key) (value : Text)
include isKey

/-- Only the blanks behind the value are trimmed. -/
theorem trim_keyed : trim (keyed key value) = key ++ [':'] ++ trimEnd (' ' :: value) := by
  have trimmed : trim (key ++ [':']) = key ++ [':'] := by
    simpa using trim_append_append [] isKey.trimmed isKey.1 (show trim [':'] = [':'] by decide)
      (by simp)
  have whole : keyed key value = key ++ [':'] ++ ' ' :: value := by
    simp [keyed]
  rw [whole, trim_append_of_trimmed trimmed (by simp)]

/-- A line is split at the colon behind its key. -/
theorem splitKeyValue?_keyed :
    splitKeyValue? (trim (keyed key value)) = some (key, value.trim) := by
  have noSign : ∀ character, isKeyCharacter character = true →
      (character == ':' || character == '=') = false := by
    intro character isKeyHere
    rw [beq_of_isKeyCharacter (by decide) isKeyHere, beq_of_isKeyCharacter (by decide) isKeyHere]
    rfl
  have trimmedValue : trim (trimEnd (' ' :: value)) = value.trim := by
    rw [trim_trimEnd]
    exact trim_blank_append value isBlank_of_mem_space
  have accepted : (!key.isEmpty && key.all isKeyCharacter) = true := by
    rw [List.all_eq_true.mpr isKey.2]
    simp [isKey.1]
  rw [trim_keyed isKey, List.append_assoc, List.singleton_append, splitKeyValue?,
    cutAtAny_append (isKey.seals noSign) (by decide) (by decide)]
  simp only [isKey.trimmed, accepted, if_true, trimmedValue]

theorem checkBalance_trim_keyed :
    (trim (keyed key value)).checkBalance = (keyed key value).checkBalance := by
  obtain ⟨blanks, whole, blank⟩ := exists_trimEnd_append (' ' :: value)
  have sameLine : keyed key value = trim (keyed key value) ++ blanks := by
    rw [trim_keyed isKey, List.append_assoc, ← whole]
    simp [keyed]
  conv_rhs => rw [sameLine]
  rw [checkBalance_append_blank _ blank]

/-- A line has the balance of its value. -/
theorem isBalanced_keyed_iff : (keyed key value).isBalanced = true ↔ value.isBalanced = true := by
  have sealed : Seals (fun _ => false) (key ++ [':', ' ']) :=
    (isKey.seals fun _ _ => rfl).append (seals_of_all (by decide))
  rw [show keyed key value = key ++ [':', ' '] ++ value by simp [keyed], isBalanced_iff,
    isBalanced_iff, Nesting.readsToEnd_append, sealed.reads.2]
  exact and_iff_right sealed.reads.1

end Text

/-! ## Readers -/

theorem readProperty_keyed {key : Text} (isKey : key.IsKey) {value : Text}
    (balanced : value.isBalanced = true) :
    readProperty (Text.keyed key value) = .ok (key, value.trim) := by
  have accepted : (Text.keyed key value).checkBalance = .ok () :=
    Text.checkBalance_eq_ok_iff.mpr ((Text.isBalanced_keyed_iff isKey value).mpr balanced)
  rw [readProperty, accepted, Text.splitKeyValue?_keyed isKey]
  rfl

/-- A line with a key sets the property of the key, if the value is balanced. -/
theorem Field.refine_keyed (field : Field) {key : Text} (isKey : key.IsKey) (value : Text) :
    field.refine (Text.keyed key value) = (do
      asLineFault (Text.keyed key value).checkBalance
      field.setProperty key value.trim) := by
  have colon : ((Text.trim (Text.keyed key value)).cutAt ':').isNone = false := by
    rw [Text.trim_keyed isKey, List.append_assoc, List.singleton_append, Text.cutAt,
      Text.cutAtAny_append (isKey.seals fun _ => Text.beq_of_isKeyCharacter (by decide))
        (by decide) (by decide)]
    rfl
  obtain ⟨first, rest, rfl, isFirst⟩ := isKey.exists_first
  have starts : (Text.trim (Text.keyed (first :: rest) value)).head? = some first := by
    rw [Text.trim_keyed isKey]
    rfl
  have noBracket := @Text.beq_of_isKeyCharacter '[' first (by decide) isFirst
  have noSign := @Text.beq_of_isKeyCharacter '@' first (by decide) isFirst
  simp only [refine, starts, Option.some_beq_some, noBracket, noSign, colon, Bool.and_false,
    Bool.false_eq_true, if_false, Text.checkBalance_trim_keyed isKey,
    Text.splitKeyValue?_keyed isKey]

end SchemaMarkup
