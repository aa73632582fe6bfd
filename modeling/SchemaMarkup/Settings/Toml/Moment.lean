import SchemaMarkup.Text.Numeral

/-!
# TOML dates and times

A configuration has no use for a date or a time, yet a document with a malformed
one is malformed. So this module says which words are dates and times, and not
what they denote.
-/

namespace SchemaMarkup

/-- The pieces of a text between the occurrences of a character. -/
def Text.splitAtEvery (separator : Char) : Text -> List Text
  | [] => [[]]
  | character :: rest =>
      let later := splitAtEvery separator rest
      if character == separator then
        [] :: later
      else
        match later with
        | piece :: pieces => (character :: piece) :: pieces
        | [] => [[character]]

namespace Toml

/-- The number that a run of so many plain digits denotes. -/
def digits? (count : Nat) (text : Text) : Option Nat :=
  if text.length == count && text.all Char.isDigit then some (Numeral.value text) else none

/-- The number of days in a month. -/
def daysIn (year month : Nat) : Nat :=
  if month == 2 then
    if year % 4 == 0 && (year % 100 != 0 || year % 400 == 0) then 29 else 28
  else if month == 4 || month == 6 || month == 9 || month == 11 then 30
  else 31

/-- Whether a text is a day of the calendar. -/
def isDate (text : Text) : Bool :=
  match text.splitAtEvery '-' with
  | [year, month, day] =>
      match digits? 4 year, digits? 2 month, digits? 2 day with
      | some year, some month, some day =>
          1 <= month && month <= 12 && 1 <= day && day <= daysIn year month
      | _, _, _ => false
  | _ => false

/-- Whether a text is a two-digit number up to a bound. -/
def isUpTo (bound : Nat) (text : Text) : Bool :=
  (digits? 2 text).any (· <= bound)

/-- Whether a text is the seconds of a time, with or without a fraction. -/
def isSeconds (text : Text) : Bool :=
  match text.splitAtEvery '.' with
  | [whole] => isUpTo 60 whole
  | [whole, fraction] => isUpTo 60 whole && !fraction.isEmpty && fraction.all Char.isDigit
  | _ => false

/-- Whether a text is a time of the day. -/
def isTime (text : Text) : Bool :=
  match text.splitAtEvery ':' with
  | [hour, minute] => isUpTo 23 hour && isUpTo 59 minute
  | [hour, minute, second] => isUpTo 23 hour && isUpTo 59 minute && isSeconds second
  | _ => false

/-- Whether a text is a time with or without its distance to universal time. -/
def isOffsetTime (text : Text) : Bool :=
  let isSign := fun character => character == '+' || character == '-'
  match text.dropWhile fun character => !isSign character with
  | [] =>
      if text.getLast?.any fun last => last == 'Z' || last == 'z' then isTime text.dropLast
      else isTime text
  | _ :: offset =>
      isTime (text.takeWhile fun character => !isSign character) &&
        match Text.splitAtEvery ':' offset with
        | [hour, minute] => isUpTo 23 hour && isUpTo 59 minute
        | _ => false

/-- Whether a text is a date, a time of the day, or both with a `T` or a blank between them. -/
def isDateTime (text : Text) : Bool :=
  let date : Text := text.take 10
  match text.drop 10 with
  | [] => isDate text || isTime text
  | separator :: time =>
      if separator == 'T' || separator == 't' || separator == ' ' then
        isDate date && isOffsetTime time
      else
        isTime text

end Toml

end SchemaMarkup
