import SchemaMarkup.Text.Blank

/-!
# Quotes and brackets

A reader that walks over a line from left to right knows at every character
whether it stands inside a quoted string and which brackets are open. `Nesting`
is that knowledge and `Nesting.after` its only transition; everything that cuts,
checks or matches delimiters by going over a line runs it. The grammar of calls does not: it
reads strings and groups by their shape.

Strings are quoted by `"` or by a backtick. Inside one, a backslash takes the next
character with it, and brackets mean nothing. A closing bracket outside of quotes
ends the innermost open group whatever its kind; whether the kinds agree is asked
by `Nesting.rejects`.
-/

namespace SchemaMarkup

/-- Whether the character starts a quoted string, and ends one that it started. -/
def isQuote (character : Char) : Bool :=
  character == '"' || character == '`'

/-- The closing bracket that belongs to an opening one. -/
def closerOf? : Char -> Option Char
  | '(' => some ')'
  | '[' => some ']'
  | '{' => some '}'
  | _ => none

/-- Whether the character is an opening bracket. -/
def isOpener (character : Char) : Bool :=
  (closerOf? character).isSome

/-- Whether the character is a closing bracket. -/
def isCloser (character : Char) : Bool :=
  character == ')' || character == ']' || character == '}'

/-- Whether the character is neither quote nor bracket. -/
def isPlain (character : Char) : Bool :=
  !isQuote character && !isOpener character && !isCloser character

/-- Where a reader stands to quoted strings. -/
inductive Quoting where
  | outside
  /-- Inside a string that started with `mark`. -/
  | inside (mark : Char)
  /-- Inside such a string, after a backslash. -/
  | escaping (mark : Char)
deriving DecidableEq, Repr

/-- The mark of the string that the reader is in. -/
def Quoting.mark? : Quoting -> Option Char
  | .outside => none
  | .inside mark => some mark
  | .escaping mark => some mark

/-- Where a reader stands to quoted strings and brackets. -/
structure Nesting where
  quoting : Quoting := .outside
  /-- The brackets that are open, the innermost first. -/
  brackets : List Char := []
deriving DecidableEq, Repr

namespace Nesting

/-- The reader's position after one more character. -/
def after (nesting : Nesting) (character : Char) : Nesting :=
  match nesting.quoting with
  | .escaping mark => { nesting with quoting := .inside mark }
  | .inside mark =>
      if character == '\\' then { nesting with quoting := .escaping mark }
      else if character == mark then { nesting with quoting := .outside }
      else nesting
  | .outside =>
      if isQuote character then { nesting with quoting := .inside character }
      else if isOpener character then { nesting with brackets := character :: nesting.brackets }
      else if isCloser character then { nesting with brackets := nesting.brackets.tail }
      else nesting

/-- The reader's position after a whole text. -/
def afterText (nesting : Nesting) (text : Text) : Nesting :=
  text.foldl after nesting

@[simp] theorem afterText_nil (nesting : Nesting) : nesting.afterText [] = nesting := rfl

@[simp] theorem afterText_cons (nesting : Nesting) (character : Char) (text : Text) :
    nesting.afterText (character :: text) = (nesting.after character).afterText text := rfl

@[simp] theorem afterText_append (nesting : Nesting) (left right : Text) :
    nesting.afterText (left ++ right) = (nesting.afterText left).afterText right := by
  simp [afterText]

/-- Whether the reader stands outside all quotes and brackets. -/
def isTop (nesting : Nesting) : Bool :=
  nesting.quoting == .outside && nesting.brackets.isEmpty

/-- Whether the next character is at top level: outside quotes and brackets, and itself
neither of them. -/
def seesTop (nesting : Nesting) (character : Char) : Bool :=
  nesting.isTop && isPlain character

/-- Whether the next character is a closing bracket that does not close the innermost
open one. -/
def rejects (nesting : Nesting) (character : Char) : Bool :=
  nesting.quoting == .outside && isCloser character &&
    nesting.brackets.head?.bind closerOf? != some character

/-- Whether the next character closes the last open bracket, or finds none open. -/
def endsGroup (nesting : Nesting) (character : Char) : Bool :=
  nesting.quoting == .outside && isCloser character && nesting.brackets.length <= 1

end Nesting

/-- The characters at top level with their byte offsets. Quotes and brackets themselves
are never at top level. -/
def Text.topLevel (text : Text) : List (Nat × Char) :=
  go {} 0 text
where
  /-- Walks on from a byte offset. -/
  go (nesting : Nesting) (offset : Nat) : Text -> List (Nat × Char)
    | [] => []
    | character :: rest =>
        let later := go (nesting.after character) (offset + character.utf8Size) rest
        if nesting.seesTop character then (offset, character) :: later else later

end SchemaMarkup
