import SchemaMarkup.Grammar.Content
import SchemaMarkup.Schema.Attribute

/-!
# Calls

    call ::= name ( '(' argument (',' argument)* ')' )?

Calls come in two forms: a run of `@call` between blanks and commas, and a list
`call, call` inside square brackets. Both are read from the grammar alone. Whether a
text is balanced is asked only of a text that was refused, and then that is what is
reported. Of balanced text that still does not fit, the report starts at the first
character that no call could have gone on with.
-/

namespace SchemaMarkup

/-- Whether the character may stand between the calls of a run. -/
def isCallSeparator (character : Char) : Bool :=
  character == ',' || isBlank character

/-- Dropping the front of a text never makes it longer. -/
theorem length_dropWhile_le (drops : Char -> Bool) (text : Text) :
    (text.dropWhile drops).length <= text.length :=
  (List.dropWhile_suffix drops).length_le

namespace Text

/-! ## One call -/

/-- Reads a call from the start of a text and gives what follows it. Parentheses that hold no
arguments are no part of the call. -/
def readCall? (text : Text) : Option (Attribute × Text) :=
  let name : Text := text.takeWhile isNameCharacter
  let afterName : Text := text.dropWhile isNameCharacter
  let bare : Attribute :=
    { name := String.ofList name, arguments := [], raw := String.ofList name }
  if name.isEmpty then
    none
  else
    match afterName with
    | '(' :: group =>
        let (arguments, list) := takeArguments group
        let filled := (arguments.map trim).filter fun argument => !argument.isEmpty
        match list.rest with
        | ')' :: following =>
            some ({ bare with
              arguments := filled.map String.ofList
              raw := String.ofList (name ++ '(' :: list.taken ++ [')']) }, following)
        | _ => some (bare, afterName)
    | _ => some (bare, afterName)

/-- What follows a call is shorter than the text it was read from. -/
theorem readCall?_length {text : Text} {call : Attribute} {following : Text}
    (read : text.readCall? = some (call, following)) : following.length < text.length := by
  have parts : (text.takeWhile isNameCharacter).length + (text.dropWhile isNameCharacter).length =
      text.length := by
    rw [← List.length_append, List.takeWhile_append_dropWhile]
  simp only [readCall?] at read
  split at read
  · simp at read
  · next named =>
      have positive : 0 < (text.takeWhile isNameCharacter).length := by
        cases name : text.takeWhile isNameCharacter
        · simp [name] at named
        · simp
      split at read
      · next group grouped =>
          split at read
          · next rest behind =>
              simp only [Option.some.injEq, Prod.mk.injEq] at read
              obtain ⟨_, rfl⟩ := read
              have shorter := (takeArguments group).2.length_rest_le
              rw [behind, List.length_cons] at shorter
              rw [grouped, List.length_cons] at parts
              omega
          · simp only [Option.some.injEq, Prod.mk.injEq] at read
            obtain ⟨_, rfl⟩ := read
            omega
      · simp only [Option.some.injEq, Prod.mk.injEq] at read
        obtain ⟨_, rfl⟩ := read
        omega

/-! ## Runs of calls -/

/-- What follows a call behind an `@` is shorter than the text before the `@`. -/
theorem length_of_separated_call {text rest following : Text} {sign : Char} {call : Attribute}
    (separated : text.dropWhile isCallSeparator = sign :: rest)
    (called : readCall? rest = some (call, following)) : following.length < text.length := by
  have shorter := length_dropWhile_le isCallSeparator text
  have follows := readCall?_length called
  rw [separated, List.length_cons] at shorter
  omega

/-- Reads a run of calls that each follow an `@`. Failing that, gives the text from the first
character that does not fit; behind an `@` without a name, what follows the `@`. -/
def readCallRun (text : Text) : Except Text (List Attribute) :=
  match separated : text.dropWhile isCallSeparator with
  | [] => .ok []
  | '@' :: rest =>
      match called : readCall? rest with
      | some (call, following) =>
          have := length_of_separated_call separated called
          (readCallRun following).map (call :: ·)
      | none => .error (if rest.isEmpty then ['@'] else rest)
  | stray => .error stray
termination_by text.length

/-! ## Lists of calls -/

/-- What follows a comma and the blanks around it is shorter than the text before them. -/
theorem length_of_comma {text rest : Text} (comma : text.trimStart = ',' :: rest) :
    (trimStart rest).length < text.length := by
  have shorter := length_dropWhile_le isBlank text
  have blanks := length_dropWhile_le isBlank rest
  rw [trimStart] at comma ⊢
  rw [comma, List.length_cons] at shorter
  omega

/-- Takes commas with blanks around them off a text. There has to be one. -/
def takeCommas? (text : Text) : Option Text :=
  match comma : text.trimStart with
  | ',' :: rest =>
      have := length_of_comma comma
      some ((takeCommas? (trimStart rest)).getD (trimStart rest))
  | _ => none
termination_by text.length

/-- Reads a call with blanks around it. -/
def readItem? (text : Text) : Option (Attribute × Text) :=
  text.trimStart.readCall?.map fun (call, following) => (call, following.trimStart)

theorem takeCommas?_length {text rest : Text} (taken : text.takeCommas? = some rest) :
    rest.length <= text.length := by
  fun_induction takeCommas? text generalizing rest with
  | case1 text more comma shorter inductionHypothesis =>
      cases again : takeCommas? (trimStart more) with
      | none =>
          simp only [again, Option.getD_none, Option.some.injEq] at taken
          subst taken
          exact Nat.le_of_lt shorter
      | some later =>
          simp only [again, Option.getD_some, Option.some.injEq] at taken
          subst taken
          exact Nat.le_trans (inductionHypothesis again) (Nat.le_of_lt shorter)
  | case2 => contradiction

theorem readItem?_length {text following : Text} {call : Attribute}
    (read : text.readItem? = some (call, following)) : following.length < text.length := by
  obtain ⟨⟨_, rest⟩, called, same⟩ := Option.map_eq_some_iff.mp read
  cases same
  have shorter := readCall?_length called
  have front := length_dropWhile_le isBlank text
  have behind := length_dropWhile_le isBlank rest
  rw [trimStart] at shorter ⊢
  omega

/-- Reads calls that each follow a comma, and gives what is left behind them. Commas that no call
follows are taken as well. -/
def readItems (text : Text) : List Attribute × Text :=
  match commas : text.takeCommas? with
  | none => ([], text)
  | some start =>
      match item : start.readItem? with
      | none => ([], start)
      | some (call, following) =>
          have := takeCommas?_length commas
          have := readItem?_length item
          let (calls, rest) := readItems following
          (call :: calls, rest)
termination_by text.length

/-- Reads at least one call, with commas between calls and, if need be, around them. Failing that,
gives the text from the first character that does not fit. -/
def readCallList (text : Text) : Except Text (List Attribute) :=
  let start : Text := text.takeCommas?.getD text
  match start.readItem? with
  | none => .error start
  | some (call, following) =>
      match readItems following with
      | (calls, []) => .ok (call :: calls)
      | (_, stray) => .error stray

/-! ## Faults -/

/-- The fault of text that does not fit: the text from there on, or all of the text when
nothing but blanks is left. -/
def misfit (text rest : Text) : SyntaxFault :=
  let found := if rest.trim.isEmpty then text.trim else rest.trim
  .unexpectedText (String.ofList found)

/-- The fault of a text that was refused at some rest. A text that is not balanced is reported
as such. -/
def refusal (text rest : Text) : SyntaxFault :=
  match text.checkBalance with
  | .error fault => fault
  | .ok () => text.misfit rest

/-- Reads a run of `@call` between blanks and commas. It may be empty. -/
def callRun (text : Text) : Except SyntaxFault (List Attribute) :=
  text.readCallRun.mapError text.refusal

/-- Reads at least one call, with commas between calls and, if need be, around them. -/
def callList (text : Text) : Except SyntaxFault (List Attribute) :=
  text.readCallList.mapError text.refusal

end Text

end SchemaMarkup
