import SchemaMarkup.Text.Nesting

/-!
# Balanced text

A text is balanced when every quoted string ends and every bracket is closed by
its own kind of closer, in order. `Text.checkBalance` says so or names the first
fault; `Text.splitAtClose` finds the end of a group without asking for the kinds.
-/

namespace SchemaMarkup

/-- Why a piece of a line cannot be read. Offsets are in bytes from the start of the piece. -/
inductive SyntaxFault where
  | unterminatedQuote (mark : Char) (offset : Nat)
  | unclosed (bracket : Char) (offset : Nat)
  | unexpected (bracket : Char) (offset : Nat)
  | unexpectedText (text : String)
deriving DecidableEq, Repr

/-- The wording of a fault. -/
def SyntaxFault.message : SyntaxFault -> String
  | .unterminatedQuote mark _ => s!"unterminated {mark} string"
  | .unclosed bracket _ => s!"'{bracket}' is never closed"
  | .unexpected bracket _ => s!"unexpected '{bracket}'"
  | .unexpectedText text => s!"unexpected '{text}'"

/-- The byte offsets at which the open quote and the open brackets of a reader started. -/
structure Openings where
  quote : Nat := 0
  /-- The open brackets, the innermost first. -/
  brackets : List Nat := []

/-- The openings after a reader has seen one more character at the offset. -/
def Openings.after (openings : Openings) (nesting : Nesting) (offset : Nat) (character : Char) :
    Openings :=
  match nesting.quoting with
  | .outside =>
      if isQuote character then { openings with quote := offset }
      else if isOpener character then { openings with brackets := offset :: openings.brackets }
      else if isCloser character then { openings with brackets := openings.brackets.tail }
      else openings
  | _ => openings

namespace Text

/-- Accepts a balanced text. The first closer that closes nothing or the wrong kind is
reported; without one, a string that does not end, and then the innermost open bracket. -/
def checkBalance (text : Text) : Except SyntaxFault Unit :=
  go {} {} 0 text
where
  /-- Checks on from a byte offset. -/
  go (nesting : Nesting) (openings : Openings) (offset : Nat) : Text -> Except SyntaxFault Unit
    | [] =>
        match nesting.quoting.mark? with
        | some mark => .error (.unterminatedQuote mark openings.quote)
        | none =>
            match nesting.brackets, openings.brackets with
            | bracket :: _, opening :: _ => .error (.unclosed bracket opening)
            | _, _ => .ok ()
    | character :: rest =>
        if nesting.rejects character then
          .error (.unexpected character offset)
        else
          go (nesting.after character) (openings.after nesting offset character)
            (offset + character.utf8Size) rest

/-- Whether the text is balanced. -/
def isBalanced (text : Text) : Bool :=
  text.checkBalance.isOk

/-- Splits before the bracket that closes the first group of the text, whatever its kind.
Without one, the quoted string that runs to the end is reported, or `none`. -/
def splitAtClose (text : Text) : Except (Option Char) (Text × Text) :=
  go {} text
where
  /-- Looks on for the closing bracket. -/
  go (nesting : Nesting) : Text -> Except (Option Char) (Text × Text)
    | [] => .error nesting.quoting.mark?
    | character :: rest =>
        if nesting.endsGroup character then
          .ok ([], character :: rest)
        else
          (go (nesting.after character) rest).map fun (before, closing) =>
            (character :: before, closing)

/-- The text from a byte offset on. -/
def dropBytes (offset : Nat) : Text -> Text
  | [] => []
  | character :: rest =>
      if offset = 0 then character :: rest else dropBytes (offset - character.utf8Size) rest

/-- The byte offset of the bracket that closes the group opened at a byte offset. -/
def closeOf (text : Text) (opening : Nat) : Except SyntaxFault Nat :=
  let group := text.dropBytes opening
  match group.splitAtClose with
  | .ok (before, _) => .ok (opening + before.byteLength)
  | .error (some mark) => .error (.unterminatedQuote mark opening)
  | .error none => .error (.unclosed (group.head?.getD '(') opening)

/-- What follows the contents of a group starts at its closing bracket. -/
theorem splitAtClose.go_length {nesting : Nesting} {text before closing : Text}
    (split : splitAtClose.go nesting text = .ok (before, closing)) :
    before.length + closing.length = text.length := by
  induction text generalizing nesting before closing with
  | nil => simp [go] at split
  | cons character rest inductionHypothesis =>
      simp only [go] at split
      split at split
      · simp only [Except.ok.injEq, Prod.mk.injEq] at split
        obtain ⟨rfl, rfl⟩ := split
        simp
      · cases inside : go (nesting.after character) rest with
        | error mark => simp [inside, Except.map] at split
        | ok parts =>
            obtain ⟨before', closing'⟩ := parts
            simp only [inside, Except.map, Except.ok.injEq, Prod.mk.injEq] at split
            obtain ⟨rfl, rfl⟩ := split
            have := inductionHypothesis inside
            simp only [List.length_cons]
            omega

theorem splitAtClose_length {text before closing : Text}
    (split : text.splitAtClose = .ok (before, closing)) :
    before.length + closing.length = text.length :=
  splitAtClose.go_length split

end Text

end SchemaMarkup
