/-!
# Text and blanks

`Text` is the form in which every line grammar reads its input: the characters of
a line, left to right. Positions that leave the library are counted in UTF-8 bytes,
and `Text.byteLength` is the only place where that count is made.

A blank is a character with the Unicode property White_Space. The property is
stable data of a standard, so the table lists its ranges and nothing else in the
library asks what a blank is.
-/

namespace SchemaMarkup

/-- The characters of a line or of a piece of a line. -/
abbrev Text := List Char

/-- The ranges of the Unicode property White_Space, ascending and apart. -/
def blankRanges : List (Nat × Nat) :=
  [(0x09, 0x0D), (0x20, 0x20), (0x85, 0x85), (0xA0, 0xA0), (0x1680, 0x1680),
   (0x2000, 0x200A), (0x2028, 0x2029), (0x202F, 0x202F), (0x205F, 0x205F),
   (0x3000, 0x3000)]

/-- Whether the character has the Unicode property White_Space. -/
def isBlank (character : Char) : Bool :=
  blankRanges.any fun range =>
    range.1 <= character.toNat && character.toNat <= range.2

/-- Every character that core counts as whitespace is blank. -/
theorem isBlank_of_isWhitespace {character : Char} (whitespace : character.isWhitespace = true) :
    isBlank character = true := by
  simp [Char.isWhitespace] at whitespace
  rcases whitespace with ((rfl | rfl) | rfl) | rfl <;> decide

namespace Text

/-- The number of bytes that the text takes in UTF-8. -/
def byteLength (text : Text) : Nat :=
  text.foldr (fun character length => character.utf8Size + length) 0

@[simp] theorem byteLength_nil : byteLength [] = 0 := rfl

@[simp] theorem byteLength_cons (character : Char) (text : Text) :
    byteLength (character :: text) = character.utf8Size + byteLength text := rfl

@[simp] theorem byteLength_append (left right : Text) :
    byteLength (left ++ right) = byteLength left + byteLength right := by
  induction left with
  | nil => simp
  | cons character rest inductionHypothesis =>
      rw [List.cons_append, byteLength_cons, byteLength_cons, inductionHypothesis, Nat.add_assoc]

/-- The text without the blanks it starts with. -/
def trimStart (text : Text) : Text :=
  text.dropWhile isBlank

/-- The text without the blanks it ends with. -/
def trimEnd (text : Text) : Text :=
  (text.reverse.dropWhile isBlank).reverse

/-- The text without the blanks at either end. -/
def trim (text : Text) : Text :=
  text.trimStart.trimEnd

/-- The trimmed text as a string, unless nothing but blanks is there. -/
def nonBlank? (text : Text) : Option String :=
  match text.trim with
  | [] => none
  | trimmed => some (String.ofList trimmed)

/-- The maximal runs of characters that are not blank. -/
def words (text : Text) : List Text :=
  let (first, later) := text.foldr step ([], [])
  close first later
where
  /-- Adds a finished word, unless it is empty. -/
  close (word : Text) (later : List Text) : List Text :=
    if word.isEmpty then later else word :: later
  /-- Reads one character before a word in progress and the words after it. -/
  step (character : Char) (read : Text × List Text) : Text × List Text :=
    if isBlank character then ([], close read.1 read.2) else (character :: read.1, read.2)

/-- Whether the text starts with the characters of a word. -/
def startsWith (text : Text) (word : String) : Bool :=
  word.toList.isPrefixOf text

/-- Whether a word occurs in the text as consecutive characters. -/
def containsWord (text : Text) (word : String) : Bool :=
  match text with
  | [] => startsWith [] word
  | character :: rest => startsWith (character :: rest) word || containsWord rest word

end Text

end SchemaMarkup
