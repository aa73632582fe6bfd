import SchemaMarkup.Text.Balance
import SchemaMarkup.Text.Letters

/-!
# Cutting lines at top level

A dense line is taken apart by cutting it, again and again, at the first character
of some kind that is at top level. A cut loses nothing but the character it is
made at, so what stands in quotes or brackets is never torn.
-/

namespace SchemaMarkup

/-- A text divided at one of its characters. -/
structure Cut where
  before : Text
  mark : Char
  following : Text
deriving DecidableEq, Repr

namespace Text

/-- Cuts at the first top-level character for which `stop` holds. The test sees the
character before it, the character itself and the text after it. -/
def cutWhere (stop : Option Char -> Char -> Text -> Bool) (text : Text) : Option Cut :=
  go {} none text
where
  /-- Looks on for the place of the cut. -/
  go (nesting : Nesting) (previous : Option Char) : Text -> Option Cut
    | [] => none
    | character :: rest =>
        if nesting.seesTop character && stop previous character rest then
          some { before := [], mark := character, following := rest }
        else
          (go (nesting.after character) (some character) rest).map fun cut =>
            { cut with before := character :: cut.before }

/-- Cuts at the first top-level character of a class. -/
def cutAtAny (wanted : Char -> Bool) (text : Text) : Option Cut :=
  text.cutWhere fun _ character _ => wanted character

/-- Cuts at the first top-level occurrence of a character. -/
def cutAt (wanted : Char) (text : Text) : Option Cut :=
  text.cutAtAny (· == wanted)

/-- A cut loses nothing but its place: the parts make up the text again. -/
theorem cutWhere.go_append {stop : Option Char -> Char -> Text -> Bool} {nesting : Nesting}
    {previous : Option Char} {text : Text} {cut : Cut}
    (found : cutWhere.go stop nesting previous text = some cut) :
    cut.before ++ cut.mark :: cut.following = text := by
  induction text generalizing nesting previous cut with
  | nil => simp [go] at found
  | cons character rest inductionHypothesis =>
      simp only [go] at found
      split at found
      · simp only [Option.some.injEq] at found
        subst found
        rfl
      · simp only [Option.map_eq_some_iff] at found
        obtain ⟨inner, inside, rfl⟩ := found
        simp [inductionHypothesis inside]

theorem cutWhere_append {stop : Option Char -> Char -> Text -> Bool} {text : Text} {cut : Cut}
    (found : text.cutWhere stop = some cut) :
    cut.before ++ cut.mark :: cut.following = text :=
  cutWhere.go_append found

/-- The pieces between the top-level occurrences of a separator, as they stand. -/
def splitAt (separator : Char) (text : Text) : List Text :=
  go {} text
where
  /-- Splits on from a nesting; the first piece is the one in progress. -/
  go (nesting : Nesting) : Text -> List Text
    | [] => [[]]
    | character :: rest =>
        let later := go (nesting.after character) rest
        if nesting.seesTop character && character == separator then
          [] :: later
        else
          match later with
          | piece :: pieces => (character :: piece) :: pieces
          | [] => [[character]]

/-- The trimmed pieces between the top-level occurrences of a separator, blank ones left out. -/
def pieces (separator : Char) (text : Text) : List Text :=
  ((text.splitAt separator).map trim).filter fun piece => !piece.isEmpty

/-- Cuts at the first top-level `#` that is not part of a run of them. -/
def cutAtHash (text : Text) : Option Cut :=
  text.cutWhere fun previous character following =>
    character == '#' && previous != some '#' && following.head? != some '#'

/-- Takes a trailing `#description` off the text. -/
def splitDescription (text : Text) : Text × Option String :=
  match text.cutAtHash with
  | some cut => (cut.before, cut.following.nonBlank?)
  | none => (text, none)

/-- Replaces every `\"` by `"`. -/
def unescapeQuotes : Text -> Text
  | '\\' :: '"' :: rest => '"' :: unescapeQuotes rest
  | character :: rest => character :: unescapeQuotes rest
  | [] => []

/-- Splits before the last `"` that starts a string outside of brackets. -/
def splitAtLastString (text : Text) : Option (Text × Text) :=
  go {} text
where
  /-- Looks for such a mark in the rest of the text first. -/
  go (nesting : Nesting) : Text -> Option (Text × Text)
    | [] => none
    | character :: rest =>
        match go (nesting.after character) rest with
        | some (before, string) => some (character :: before, string)
        | none =>
            if nesting.isTop && character == '"' then some ([], character :: rest) else none

/-- Takes a trailing quoted string off the text and gives its contents, in which `\"`
stands for `"`. A text that does not end in one is left as it is. -/
def takeTrailingQuoted (text : Text) : Text × Option String :=
  let trimmed := text.trimEnd
  match trimmed.splitAtLastString with
  | some (before, _ :: string) =>
      if trimmed.getLast? == some '"' && (({} : Nesting).afterText trimmed).quoting == .outside
          && !string.isEmpty then
        (before, some (String.ofList (unescapeQuotes string.dropLast)))
      else
        (text, none)
  | _ => (text, none)

/-- Whether the trimmed text starts and ends with the mark, at two places. -/
def isEnclosedBy (mark : Char) (text : Text) : Bool :=
  2 <= text.length && text.head? == some mark && text.getLast? == some mark

/-- The trimmed text without one pair of double quotes around it. -/
def unquote (text : Text) : Text :=
  let trimmed := text.trim
  if trimmed.isEnclosedBy '"' then trimmed.tail.dropLast else trimmed

/-- The contents of an expression quoted by backticks. -/
def unquoteExpression? (text : Text) : Option Text :=
  let trimmed := text.trim
  if trimmed.isEnclosedBy '`' then some trimmed.tail.dropLast else none

/-- Splits `Name` or `Name(Label)`, where the name is an identifier. -/
def splitNameLabel? (text : Text) : Option (String × Option String) :=
  let trimmed := text.trim
  let name : Text := trim (trimmed.takeWhile (· != '('))
  match trimmed.dropWhile (· != '(') with
  | [] => if trimmed.isIdentifier then some (String.ofList trimmed, none) else none
  | _ :: label =>
      if label.getLast? == some ')' && name.isIdentifier then
        some (String.ofList name, nonBlank? (unquote label.dropLast))
      else
        none

/-- A character that a property key may have. -/
def isKeyCharacter (character : Char) : Bool :=
  character.isAlphanum || character == '_' || character == '-' || character == '.'

/-- Splits `key: value` or `key = value` at whichever sign comes first at top level. -/
def splitKeyValue? (text : Text) : Option (Text × Text) :=
  match text.cutAtAny (fun character => character == ':' || character == '=') with
  | some cut =>
      let key := cut.before.trim
      if !key.isEmpty && key.all isKeyCharacter then some (key, cut.following.trim) else none
  | none => none

/-- Reads a truth value: `true`, `yes`, `1`, `false`, `no` or `0`, with or without quotes. -/
def truth? (text : Text) : Option Bool :=
  let word := text.unquote
  if ["true", "yes", "1"].any word.spells then some true
  else if ["false", "no", "0"].any word.spells then some false
  else none

end Text

end SchemaMarkup
