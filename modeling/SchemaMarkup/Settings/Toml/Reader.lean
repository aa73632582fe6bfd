import SchemaMarkup.Settings.Toml.Moment
import SchemaMarkup.Settings.Toml.Quoted
import SchemaMarkup.Settings.Toml.Table

/-!
# Reading TOML

A document is a list of statements, one a line: headers, repeated headers, and
keys with their values. Keys and values nest up to a limit. Every step of the
reader takes at least one character, so the length of the document bounds its
recursion.

The language is not the compiler's own. The compiler asks a general reader for
it, looks at one table of what the reader returns, and refuses what the reader
refuses. This one stands for that reader, so it covers the whole language and not
the one table alone. `Toml.read?_written` relates it to how plain tables are
written.
-/

namespace SchemaMarkup.Toml

/-- The greatest number of words of one key, and of brackets and braces around one another. -/
def nestingLimit : Nat := 80

/-- Whether a carriage return stands anywhere but in front of a line feed. -/
def hasStrayReturn : Text -> Bool
  | [] => false
  | '\r' :: '\n' :: rest => hasStrayReturn rest
  | character :: rest => character == '\r' || hasStrayReturn rest

/-- A space or a tab. -/
def isSpace (character : Char) : Bool :=
  character == ' ' || character == '\t'

/-- The text behind spaces, line ends and comments. -/
def skipFiller (inComment : Bool) : Text -> Text
  | '\n' :: rest => skipFiller false rest
  | character :: rest =>
      if inComment then
        if isForbidden character then character :: rest else skipFiller true rest
      else if isSpace character then
        skipFiller false rest
      else if character == '#' then
        skipFiller true rest
      else
        character :: rest
  | [] => []

/-- The text behind the end of a line, on which only spaces and a comment may be left. -/
def endLine? (text : Text) : Option Text :=
  let unspaced : Text := text.dropWhile isSpace
  let uncommented : Text :=
    if unspaced.head? == some '#' then
      unspaced.dropWhile fun character => !isForbidden character
    else
      unspaced
  match uncommented with
  | [] => some []
  | '\n' :: rest => some rest
  | _ => none

/-- Whether a character may stand in a key without quotes. -/
def isBareKey (character : Char) : Bool :=
  character.isAlphanum || character == '_' || character == '-'

/-- Reads one word of a key. -/
def readKeyWord? (text : Text) : Option (String × Text) :=
  if text.head?.any fun mark => mark == '"' || mark == '\x27' then
    (readString? text).map fun (word, rest) => (String.ofList word, rest)
  else
    let word : Text := text.takeWhile isBareKey
    if word.isEmpty then none else some (String.ofList word, text.dropWhile isBareKey)

/-- Reads a key of so many words at most: the words before the last one, the last one, and what
follows. -/
def readKey? : (most : Nat) -> Text -> Option (List String × String × Text)
  | 0, _ => none
  | most + 1, text => do
      let (word, rest) <- readKeyWord? (text.dropWhile isSpace)
      match rest.dropWhile isSpace with
      | '.' :: more =>
          let (path, last, following) <- readKey? most more
          return (word :: path, last, following)
      | following => return ([], word, following)

/-- Whether a character may stand in a word without quotes. -/
def isWordCharacter (character : Char) : Bool :=
  !isSpace character && character != '\n' && character != '#' && character != '=' &&
    character != ',' && character != '[' && character != ']' && character != '\x7b' &&
    character != '\x7d'

/-- The value that a word without quotes stands for. -/
def ofWord? (word : Text) : Option Toml :=
  if word == "true".toList then some (.boolean true)
  else if word == "false".toList then some (.boolean false)
  else if isDateTime word then some (.moment (String.ofList word))
  else (Number.read? word).map .number

/-- Reads a value without quotes, brackets and braces. One blank may stand between a date and a
time. -/
def readScalar? (text : Text) : Option (Toml × Text) :=
  let word : Text := text.takeWhile isWordCharacter
  let rest : Text := text.dropWhile isWordCharacter
  let time : Text := rest.tail.takeWhile isWordCharacter
  if rest.head? == some ' ' && isDate word && !time.isEmpty then
    (ofWord? (word ++ ' ' :: time)).map fun value => (value, rest.tail.dropWhile isWordCharacter)
  else
    (ofWord? word).map fun value => (value, rest)

mutual

/-- Reads a value inside of some brackets and braces from the start of a text. -/
def readValue? : (fuel : Nat) -> (depth : Nat) -> Text -> Option (Toml × Text)
  | 0, _, _ => none
  | fuel + 1, depth, text =>
      match text with
      | '[' :: rest =>
          if depth < nestingLimit then
            (readItems? fuel (depth + 1) rest).map fun (items, following) =>
              (.array items, following)
          else
            none
      | '\x7b' :: rest =>
          if depth < nestingLimit then
            (readEntries? fuel (depth + 1) [] rest).map fun (entries, following) =>
              (.table .inlined entries, following)
          else
            none
      | _ =>
          if text.head?.any fun mark => mark == '"' || mark == '\x27' then
            (readAnyString? text).map fun (inner, following) =>
              (.string (String.ofList inner), following)
          else
            readScalar? text

/-- Reads the items of an array and its closing bracket. -/
def readItems? : (fuel : Nat) -> (depth : Nat) -> Text -> Option (List Toml × Text)
  | 0, _, _ => none
  | fuel + 1, depth, text =>
      match skipFiller false text with
      | ']' :: following => some ([], following)
      | start => do
          let (item, rest) <- readValue? fuel depth start
          match skipFiller false rest with
          | ',' :: more =>
              let (items, following) <- readItems? fuel depth more
              return (item :: items, following)
          | ']' :: following => return ([item], following)
          | _ => none

/-- Reads the entries of an inline table and its closing brace, after some entries. Lines may end
everywhere but inside of a key. -/
def readEntries? : (fuel : Nat) -> (depth : Nat) -> Entries -> Text -> Option (Entries × Text)
  | 0, _, _, _ => none
  | fuel + 1, depth, entries, text =>
      match skipFiller false text with
      | '\x7d' :: following => some (entries, following)
      | start => do
          let (path, key, afterKey) <- readKey? nestingLimit start
          let '=' :: afterSign := skipFiller false afterKey | none
          let (value, rest) <- readValue? fuel depth (skipFiller false afterSign)
          let extended <- setDotted path key value entries
          match skipFiller false rest with
          | ',' :: more => readEntries? fuel depth extended more
          | '\x7d' :: following => return (extended, following)
          | _ => none

end

/-- The table of a document so far, and the words of the header that is open. -/
structure Progress where
  entries : Entries := []
  header : List String := []

/-- Reads one statement and the end of its line. -/
def readStatement? (fuel : Nat) (progress : Progress) (text : Text) : Option (Progress × Text) :=
  match text with
  | '[' :: '[' :: rest => do
      let (path, key, afterKey) <- readKey? nestingLimit rest
      let ']' :: ']' :: following := afterKey | none
      let entries <- openNext path key progress.entries
      return ({ entries, header := path ++ [key] }, <- endLine? following)
  | '[' :: rest => do
      let (path, key, afterKey) <- readKey? nestingLimit rest
      let ']' :: following := afterKey | none
      let entries <- openTable path key progress.entries
      return ({ entries, header := path ++ [key] }, <- endLine? following)
  | _ => do
      let (path, key, afterKey) <- readKey? nestingLimit text
      let '=' :: afterSign := afterKey | none
      let (value, following) <- readValue? fuel 0 (afterSign.dropWhile isSpace)
      let entries <- atHeader progress.header (setDotted path key value) progress.entries
      return ({ progress with entries }, <- endLine? following)

/-- Reads statements up to the end of a text. -/
def readStatements? : (fuel : Nat) -> Progress -> Text -> Option Entries
  | 0, _, _ => none
  | fuel + 1, progress, text =>
      match skipFiller false text with
      | [] => some progress.entries
      | start => do
          let (progress, following) <- readStatement? fuel progress start
          readStatements? fuel progress following

/-- Reads a TOML document, which may start with a byte order mark. Its lines end with a line
feed, with or without a carriage return. -/
def read? (source : Text) : Option Entries :=
  let unmarked := if source.head? == some '\ufeff' then source.tail else source
  if hasStrayReturn unmarked then
    none
  else
    let text := unmarked.filter fun character => character != '\r'
    readStatements? (text.length + 2) {} text

end SchemaMarkup.Toml
