import SchemaMarkup.Grammar.Call

/-!
# Annotations of a line

A line carries attributes in two regions. Framework attributes stand in square
brackets anywhere on the line, and each bracket gives way to a blank before the
rest of the line is read. Semantic attributes start at the first `@` that is at
top level and go on to the end of the line, where a quoted string may follow them
as a description.
-/

namespace SchemaMarkup.Text

/-- A line without its semantic attributes. -/
structure Annotated where
  /-- The text before the first `@`. -/
  before : Text
  attributes : List Attribute
  /-- The quoted string behind the attributes. -/
  quoted : Option String
deriving DecidableEq, Repr

/-- Takes the semantic attributes off the end of a line. -/
def splitSemantic (text : Text) : Except SyntaxFault Annotated :=
  match text.cutAt '@' with
  | none => .ok { before := text, attributes := [], quoted := none }
  | some cut => do
      let (region, quoted) := takeTrailingQuoted (cut.mark :: cut.following)
      let attributes <- region.callRun
      return { before := cut.before, attributes, quoted }

/-- The mark of the string that a reader is in after one more character. Such a string ends
at the next mark of its kind, even behind a backslash. -/
def plainStringAfter (string : Option Char) (character : Char) : Option Char :=
  match string with
  | some mark => if character == mark then none else some mark
  | none => if isQuote character then some character else none

/-- How many parentheses and braces are open after one more character. -/
def groupDepthAfter (string : Option Char) (depth : Nat) (character : Char) : Nat :=
  if string.isSome then depth
  else if character == '(' || character == '{' then depth + 1
  else if character == ')' || character == '}' then depth - 1
  else depth

/-- Splits at the first `[` outside of strings, parentheses and braces. -/
def splitAtBracket (text : Text) : Option (Text × Text) :=
  go none 0 text
where
  /-- Looks on inside a string, if there is a mark, and inside so many groups. -/
  go (string : Option Char) (depth : Nat) : Text -> Option (Text × Text)
    | [] => none
    | character :: rest =>
        if character == '[' && string.isNone && depth == 0 then
          some ([], rest)
        else
          (go (plainStringAfter string character) (groupDepthAfter string depth character) rest).map
            fun (before, following) => (character :: before, following)

/-- The split loses nothing but the bracket. -/
theorem splitAtBracket.go_append {string : Option Char} {depth : Nat}
    {text before following : Text} (found : go string depth text = some (before, following)) :
    before ++ '[' :: following = text := by
  induction text generalizing string depth before following with
  | nil => simp [go] at found
  | cons character rest inductionHypothesis =>
      simp only [go] at found
      split at found
      · simp_all
      · simp only [Option.map_eq_some_iff, Prod.exists, Prod.mk.injEq] at found
        obtain ⟨_, _, inside, rfl, rfl⟩ := found
        simp [inductionHypothesis inside]

theorem splitAtBracket_append {text before following : Text}
    (found : text.splitAtBracket = some (before, following)) :
    before ++ '[' :: following = text :=
  splitAtBracket.go_append found

/-- What follows the first bracketed group is shorter than the text. -/
theorem length_tail_of_splitAtBracket {text before following group closing : Text}
    (found : text.splitAtBracket = some (before, following))
    (closed : splitAtClose ('[' :: following) = .ok (group, closing)) :
    closing.tail.length < text.length := by
  have whole := congrArg List.length (splitAtBracket_append found)
  have parts := splitAtClose_length closed
  simp only [List.length_append, List.length_cons, List.length_tail] at *
  omega

/-- Takes every framework attribute out of a line that starts at a byte offset. -/
def extractFrameworkFrom (offset : Nat) (text : Text) :
    Except SyntaxFault (Text × List Attribute) :=
  match found : text.splitAtBracket with
  | none => .ok (text, [])
  | some (before, following) =>
      let opening := offset + before.byteLength
      match closed : splitAtClose ('[' :: following) with
      | .error (some mark) => .error (.unterminatedQuote mark opening)
      | .error none => .error (.unclosed '[' opening)
      | .ok (group, closing) => do
          have : closing.length - 1 < text.length := by
            simpa using length_tail_of_splitAtBracket found closed
          let inner : Text := Text.trim group.tail
          if inner.isEmpty then
            throw (.unexpectedText "[]")
          let calls <- inner.callList
          let (remaining, later) <-
            extractFrameworkFrom (opening + group.byteLength + 1) closing.tail
          return (before ++ ' ' :: remaining, calls ++ later)
termination_by text.length

/-- Takes every framework attribute out of a line. -/
def extractFramework (text : Text) : Except SyntaxFault (Text × List Attribute) :=
  text.extractFrameworkFrom 0

end SchemaMarkup.Text
