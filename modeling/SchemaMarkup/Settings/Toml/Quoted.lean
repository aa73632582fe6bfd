import SchemaMarkup.Text.Numeral

/-!
# TOML strings

Basic strings stand in double quotes and have escapes; literal strings stand in
single quotes and have none. Three quotes instead of one make either of them run
over several lines. A string is read in two steps: where it ends, and then what
its escapes stand for. All lines end with a line feed here.
-/

namespace SchemaMarkup.Toml

/-- Whether a character may not stand inside a line: the controls other than the tab. -/
def isForbidden (character : Char) : Bool :=
  (character.toNat < 0x20 && character != '\t') || character.toNat == 0x7F

/-- The character whose number some hexadecimal digits spell. -/
def hexCharacter? (digits : Text) : Option Char := do
  let number <- Numeral.valueIn? 16 digits
  if number.isValidChar then some (Char.ofNat number) else none

/-- Replaces the escapes of a basic string. -/
def unescape : Text -> Option Text
  | [] => some []
  | '\\' :: 'b' :: rest => (unescape rest).map ('\x08' :: ·)
  | '\\' :: 't' :: rest => (unescape rest).map ('\t' :: ·)
  | '\\' :: 'n' :: rest => (unescape rest).map ('\n' :: ·)
  | '\\' :: 'f' :: rest => (unescape rest).map ('\x0c' :: ·)
  | '\\' :: 'r' :: rest => (unescape rest).map ('\r' :: ·)
  | '\\' :: 'e' :: rest => (unescape rest).map ('\x1b' :: ·)
  | '\\' :: '"' :: rest => (unescape rest).map ('"' :: ·)
  | '\\' :: '\\' :: rest => (unescape rest).map ('\\' :: ·)
  | '\\' :: 'x' :: a :: b :: rest => do
      let character <- hexCharacter? [a, b]
      return character :: (<- unescape rest)
  | '\\' :: 'u' :: a :: b :: c :: d :: rest => do
      let character <- hexCharacter? [a, b, c, d]
      return character :: (<- unescape rest)
  | '\\' :: 'U' :: a :: b :: c :: d :: e :: f :: g :: h :: rest => do
      let character <- hexCharacter? [a, b, c, d, e, f, g, h]
      return character :: (<- unescape rest)
  | '\\' :: _ => none
  | character :: rest => (unescape rest).map (character :: ·)

/-- Removes the backslashes that end a line, with the blanks and line ends behind them. -/
def joinLines (skipping : Bool) : Text -> Text
  | [] => []
  | '\\' :: character :: rest =>
      let behind : Text := (character :: rest).dropWhile fun blank => blank == ' ' || blank == '\t'
      if behind.head? == some '\n' then
        joinLines true (character :: rest)
      else
        '\\' :: character :: joinLines false rest
  | character :: rest =>
      if skipping && (character == ' ' || character == '\t' || character == '\n') then
        joinLines true rest
      else
        character :: joinLines false rest

/-- Splits a string of one line at the next mark. -/
def splitLiteral (mark : Char) : Text -> Option (Text × Text)
  | [] => none
  | character :: rest =>
      if character == mark then some ([], rest)
      else if isForbidden character then none
      else (splitLiteral mark rest).map fun (inner, following) => (character :: inner, following)

/-- Splits a string of one line at the next mark that is not behind a backslash. -/
def splitEscaped (mark : Char) : Text -> Option (Text × Text)
  | [] => none
  | '\\' :: character :: rest =>
      if isForbidden character then none
      else (splitEscaped mark rest).map fun (inner, following) =>
        ('\\' :: character :: inner, following)
  | character :: rest =>
      if character == mark then some ([], rest)
      else if isForbidden character then none
      else (splitEscaped mark rest).map fun (inner, following) => (character :: inner, following)

/-- Splits a string of several lines at its closing marks. Up to two marks before them belong
to the string. -/
def splitLongString (mark : Char) (escapes : Bool) : Text -> Option (Text × Text)
  | [] => none
  | character :: rest =>
      if character == mark && rest.take 2 == [mark, mark] then
        let extra := ((rest.drop 2).take 2).takeWhile (· == mark)
        some (extra, rest.drop (2 + extra.length))
      else if character == '\\' && escapes then
        match rest with
        | [] => none
        | escaped :: later =>
            if isForbidden escaped && escaped != '\n' then none
            else (splitLongString mark escapes later).map fun (inner, following) =>
              ('\\' :: escaped :: inner, following)
      else if isForbidden character && character != '\n' then
        none
      else
        (splitLongString mark escapes rest).map fun (inner, following) =>
          (character :: inner, following)

/-- A text without the line end that it starts with. -/
def dropLineEnd : Text -> Text
  | '\n' :: rest => rest
  | text => text

/-- Reads a string of one line from the start of a text. -/
def readString? : Text -> Option (Text × Text)
  | '"' :: rest => do
      let (inner, following) <- splitEscaped '"' rest
      return (<- unescape inner, following)
  | '\x27' :: rest => splitLiteral '\x27' rest
  | _ => none

/-- Reads a string of one or several lines from the start of a text. -/
def readAnyString? : Text -> Option (Text × Text)
  | '"' :: '"' :: '"' :: rest => do
      let (inner, following) <- splitLongString '"' true (dropLineEnd rest)
      return (<- unescape (joinLines false inner), following)
  | '\x27' :: '\x27' :: '\x27' :: rest => splitLongString '\x27' false (dropLineEnd rest)
  | text => readString? text

end SchemaMarkup.Toml
