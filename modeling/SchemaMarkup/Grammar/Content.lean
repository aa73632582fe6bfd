import SchemaMarkup.Text.Nesting

/-!
# Content of groups

    content   ::= ( quoted | bracketed | plain )*
    quoted    ::= mark ( '\' any | any but mark and '\' )* mark
    bracketed ::= opener content closer

What stands in the parentheses of a call or of a type is read one part at a time, and a group inside
of it is read the same way. The reader never goes back: the content ends at the first character with
which no part starts. So it counts no brackets, and looks for a closing bracket only where the
content of its own group has ended.

What has been read is a `Front` of the text, which carries the proof that it is one. That is why the
reader comes to an end, and why what it has read is always a slice of the text.
-/

namespace SchemaMarkup

/-- A front of a text that has been read, and the rest that follows it. -/
structure Front (text : Text) where
  taken : Text
  rest : Text
  whole : taken ++ rest = text

namespace Front

variable {text : Text}

/-- Nothing has been read. -/
def none (text : Text) : Front text where
  taken := []
  rest := text
  whole := rfl

/-- The front of a text with one more character before it. -/
def cons (character : Char) (front : Front text) : Front (character :: text) where
  taken := character :: front.taken
  rest := front.rest
  whole := congrArg (character :: ·) front.whole

/-- The front of a text and the front of what follows it in one. -/
def append (front : Front text) (later : Front front.rest) : Front text where
  taken := front.taken ++ later.taken
  rest := later.rest
  whole := by rw [List.append_assoc, later.whole, front.whole]

/-- What has been read and what follows it. -/
def parts (front : Front text) : Text × Text :=
  (front.taken, front.rest)

theorem length_rest_le (front : Front text) : front.rest.length <= text.length := by
  have lengths := congrArg List.length front.whole
  rw [List.length_append] at lengths
  omega

theorem length_of_rest (front : Front text) {mark : Char} {more : Text}
    (behind : front.rest = mark :: more) : more.length < text.length := by
  have shorter := front.length_rest_le
  rw [behind, List.length_cons] at shorter
  omega

/-- The front of a text, the mark that follows it and the front of what follows the mark in one. -/
def through (front : Front text) {mark : Char} {more : Text} (behind : front.rest = mark :: more)
    (later : Front more) : Front text where
  taken := front.taken ++ mark :: later.taken
  rest := later.rest
  whole := by rw [List.append_assoc, List.cons_append, later.whole, ← behind, front.whole]

end Front

namespace Text

/-- Reads the rest of a string up to its mark. -/
def takeString? (mark : Char) : (text : Text) -> Option (Front text)
  | [] => none
  | ['\\'] => none
  | '\\' :: escaped :: rest =>
      (takeString? mark rest).map fun string => (string.cons escaped).cons '\\'
  | character :: rest =>
      if character == mark then some ((Front.none rest).cons character)
      else (takeString? mark rest).map (Front.cons character)

mutual

/-- Reads the part that starts with a character: the rest of a string or of a group, or nothing
more if the character stands for itself. -/
def takePart? (isContent : Char -> Bool) (first : Char) (rest : Text) : Option (Front rest) :=
  if isQuote first then
    takeString? first rest
  else
    match closerOf? first with
    | some closer => takeGroup? closer rest
    | none => if isContent first then some (.none rest) else none
termination_by 3 * rest.length + 2

/-- Reads the rest of a group up to its closing bracket. -/
def takeGroup? (closer : Char) (text : Text) : Option (Front text) :=
  let inner := takeContent isPlain text
  match behind : inner.rest with
  | [] => none
  | next :: following =>
      if next == closer then some (inner.through behind (.none following)) else none
termination_by 3 * text.length + 1

/-- Reads parts as long as there are any. -/
def takeContent (isContent : Char -> Bool) : (text : Text) -> Front text
  | [] => .none []
  | first :: rest =>
      match takePart? isContent first rest with
      | some part =>
          have := part.length_rest_le
          (part.append (takeContent isContent part.rest)).cons first
      | none => .none (first :: rest)
termination_by text => 3 * text.length

end

/-- Reads the rest of a group whose opening bracket has been read: its content and what follows
its closing bracket. -/
def readGroup (opener : Char) (text : Text) : Option (Text × Text) :=
  let inner := takeContent isPlain text
  match inner.rest with
  | next :: following =>
      if closerOf? opener == some next then some (inner.taken, following) else none
  | [] => none

/-- Whether the character may stand for itself in an argument, where a comma is none. -/
def isArgumentCharacter (character : Char) : Bool :=
  isPlain character && character != ','

/-- Reads arguments with commas between them. There is at least one, but it may be empty. -/
def takeArguments (text : Text) : List Text × Front text :=
  let argument := takeContent isArgumentCharacter text
  match behind : argument.rest with
  | ',' :: more =>
      have := argument.length_of_rest behind
      let later := takeArguments more
      (argument.taken :: later.1, argument.through behind later.2)
  | _ => ([argument.taken], argument)
termination_by text.length

end Text

end SchemaMarkup
