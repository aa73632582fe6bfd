import SchemaMarkup.Text.Numeral

/-!
# TOML numbers

Two questions are kept apart: whether a word has the form of a number, and
whether there is a value for it. A word without the form makes its document
malformed. A word with the form may still have no value, because it is out of
range or because a letter passed for a digit behind an underscore. That matters
only where the value is asked for.
-/

namespace SchemaMarkup.Toml

/-- What a word with the form of a number denotes. -/
inductive Number where
  | integer (value : Int)
  /-- So many units of a power of ten, above or below zero. -/
  | decimal (units : Nat) (exponent : Int)
  /-- An infinity, or the value that is not a number. -/
  | special
  /-- Nothing, since some of its digits are none in its base. -/
  | illegible
deriving DecidableEq, Repr

/-- A text without the sign that it starts with. -/
def dropSign : Text -> Text
  | '+' :: rest => rest
  | '-' :: rest => rest
  | text => text

/-- A number with the sign that a text starts with. -/
def applySign (text : Text) (magnitude : Nat) : Int :=
  if text.head? == some '-' then -magnitude else magnitude

/-- A text without its underscores. -/
def dropUnderscores (text : Text) : Text :=
  text.filter fun character => character != '_'

/-- Whether every underscore stands in front of a digit and behind a digit, the first one also
right at the start if it may. -/
def underscoresSeparate (isDigit : Char -> Bool) (mayStart : Bool) : Text -> Bool
  | [] => true
  | '_' :: rest => mayStart && rest.head?.any isDigit && underscoresSeparate isDigit false rest
  | character :: rest => underscoresSeparate isDigit (isDigit character) rest

/-- Whether the underscores of a number with or without sign separate its digits. One of them
may stand between the sign and the digits. -/
def underscoresFit (isDigit : Char -> Bool) (text : Text) : Bool :=
  underscoresSeparate isDigit (dropSign text != text) (dropSign text)

/-- Whether a character is a digit in some base. -/
def isAnyDigit (character : Char) : Bool :=
  (Numeral.digitIn? 16 character).isSome

namespace Number

/-- Reads the digits of an integer behind the mark of its base. -/
def ofBase? (base : Nat) (digits : Text) : Option Number :=
  let areDigits := (dropUnderscores digits).all fun digit => (Numeral.digitIn? base digit).isSome
  if areDigits && underscoresSeparate isAnyDigit false digits then
    match Numeral.valueIn? base (dropUnderscores digits) with
    | some value => some (.integer value)
    | none => some .illegible
  else
    none

/-- Reads a decimal integer. It has no leading zeros, and from the first underscore on any
character may stand in it, as far as the underscores separate digits of some base. -/
def ofInteger? (text : Text) : Option Number :=
  let unsigned := dropSign text
  let behind : Text := unsigned.dropWhile Char.isDigit
  let hasForm := !unsigned.isEmpty && (behind.isEmpty || behind.head? == some '_') &&
    (unsigned.head? != some '0' || unsigned.length == 1)
  if hasForm && underscoresFit isAnyDigit text then
    match Numeral.valueIn? 10 (dropUnderscores unsigned) with
    | some magnitude => some (.integer (applySign text magnitude))
    | none => some .illegible
  else
    none

/-- Splits a text behind its first digits, of which there is at least one. -/
def splitDigits? (text : Text) : Option (Text × Text) :=
  let isPart := fun character : Char => character.isDigit || character == '_'
  let digits := dropUnderscores (text.takeWhile isPart)
  if digits.isEmpty then none else some (digits, text.dropWhile isPart)

/-- Reads the digits behind a point, which may be absent. -/
def splitFraction? : Text -> Option (Text × Text)
  | '.' :: rest => splitDigits? rest
  | text => some ([], text)

/-- Reads the exponent that a text consists of. The empty text stands for zero. -/
def exponent? : Text -> Option Int
  | [] => some 0
  | mark :: rest =>
      if mark == 'e' || mark == 'E' then
        match splitDigits? (dropSign rest) with
        | some (digits, []) => some (applySign rest (Numeral.value digits))
        | _ => none
      else
        none

/-- Reads a number with a fraction, an exponent or both. Its whole part has no leading zeros. -/
def ofDecimal? (text : Text) : Option Number := do
  let unsigned := dropSign text
  let (whole, behindWhole) <- splitDigits? unsigned
  let (fraction, behindFraction) <- splitFraction? behindWhole
  let exponent <- exponent? behindFraction
  if (unsigned.head? != some '0' || whole.length == 1) && underscoresFit Char.isDigit text then
    some (.decimal (Numeral.value (whole ++ fraction)) (exponent - fraction.length))
  else
    none

/-- Reads a word with the form of a number. -/
def read? (text : Text) : Option Number :=
  match text with
  | '0' :: 'x' :: digits => ofBase? 16 digits
  | '0' :: 'o' :: digits => ofBase? 8 digits
  | '0' :: 'b' :: digits => ofBase? 2 digits
  | _ =>
      let unsigned := dropSign text
      if unsigned == "inf".toList || unsigned == "nan".toList then
        some .special
      else if unsigned.any fun mark => mark == '.' || mark == 'e' || mark == 'E' then
        ofDecimal? text
      else
        ofInteger? text

/-- The least number above all that round to a finite one in double precision: halfway from the
greatest finite one to the next power of two. -/
def doubleLimit : Nat :=
  Nat.pow 2 1024 - Nat.pow 2 970

/-- Whether so many units of a power of ten round to a finite number in double precision. Powers
far out of range are not computed. -/
def isFinite (units : Nat) (exponent : Int) : Bool :=
  match exponent with
  | .ofNat up => units == 0 || (up <= 308 && units * Nat.pow 10 up < doubleLimit)
  | .negSucc down => units.log2 < down + 1 || units < doubleLimit * Nat.pow 10 (down + 1)

/-- Whether there is a value for a number: an integer takes 128 bits with or without sign, any
other number is finite in double precision unless it is written as an infinity. -/
def hasValue : Number -> Bool
  | .integer value => -Int.pow 2 127 <= value && value < Int.pow 2 128
  | .decimal units exponent => isFinite units exponent
  | .special => true
  | .illegible => false

end Number

end SchemaMarkup.Toml
