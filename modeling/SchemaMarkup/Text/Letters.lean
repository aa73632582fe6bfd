import SchemaMarkup.Text.Blank

/-!
# Names and letters

Entity, field and index names are ASCII identifiers, and everything that compares
names without regard to case folds ASCII letters only. The keys of named arguments
are laxer: `on_delete`, `onDelete` and `on-delete` are one key.
-/

namespace SchemaMarkup

/-- Whether two strings are equal up to the case of ASCII letters. -/
def equalIgnoringCase (left right : String) : Bool :=
  left.toList.map Char.toLower == right.toList.map Char.toLower

theorem equalIgnoringCase_iff {left right : String} :
    equalIgnoringCase left right = true <->
      left.toList.map Char.toLower = right.toList.map Char.toLower := by
  simp [equalIgnoringCase]

@[simp] theorem equalIgnoringCase_self (name : String) : equalIgnoringCase name name = true := by
  simp [equalIgnoringCase]

/-- Whether a text spells the word up to the case of ASCII letters. -/
def Text.spells (text : Text) (word : String) : Bool :=
  equalIgnoringCase (String.ofList text) word

/-- An ASCII letter, an ASCII digit, `_` or `.`. -/
def isNameCharacter (character : Char) : Bool :=
  character.isAlphanum || character == '_' || character == '.'

/-- An identifier starts with an ASCII letter or `_` and goes on with name characters. -/
def Text.isIdentifier : Text -> Bool
  | [] => false
  | first :: rest => (first.isAlpha || first == '_') && rest.all isNameCharacter

/-- The lower case of a character, as far as it matters against ASCII keys: the Kelvin
sign is the only other character whose lower case is an ASCII letter. -/
def keyLetter (character : Char) : Char :=
  if character == '\u212a' then 'k' else character.toLower

/-- What is compared of a key: no `_`, no `-`, no blank, no case. -/
def keyLetters (key : Text) : Text :=
  (key.filter fun character =>
    character != '_' && character != '-' && !isBlank character).map keyLetter

/-- Whether two keys name the same property. One of them is written in ASCII. -/
def keysMatch (left right : Text) : Bool :=
  keyLetters left == keyLetters right

end SchemaMarkup
