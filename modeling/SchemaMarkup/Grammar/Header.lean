import SchemaMarkup.Diagnostic.SchemaError
import SchemaMarkup.Grammar.Annotation

/-!
# Entity headers

    Name(Label) ::interface : Base, Other @attribute(...) #description

The heading that opens a block. A kind mark may stand anywhere outside of quotes
and brackets. The description may stand before or behind the attributes.
-/

namespace SchemaMarkup

/-- The kind that a header spells out behind `::`. -/
inductive KindMark where
  | interface
  | enumeration
deriving DecidableEq, Repr

/-- Reads the word of a kind mark. -/
def KindMark.read? (word : Text) : Option KindMark :=
  if word == "interface".toList then some .interface
  else if word == "enum".toList then some .enumeration
  else none

/-- Whether a name is that of an interface in the legacy dialect: `I` and a capital letter. -/
def isInterfaceName (name : String) : Bool :=
  match name.toList with
  | 'I' :: second :: _ => second.isUpper
  | _ => false

/-- The kind of an entity by its name and the mark in its header. -/
def Dialect.entityKind (dialect : Dialect) (name : String) (mark : Option KindMark) :
    Except LineFault EntityKind :=
  match dialect, mark with
  | .current, none => .ok .model
  | .current, some .interface => .ok .interface
  | .current, some .enumeration => .ok .enumeration
  | .legacy, none => .ok (if isInterfaceName name then .interface else .model)
  | .legacy, some _ => .error (.unsupportedKindMark name)

/-- What the heading of a block says. -/
structure Header where
  kind : EntityKind
  name : String
  label : Option String
  inherits : List String
  attributes : List Attribute
  description : Option String
deriving DecidableEq, Repr

namespace Header

/-- Whether the header carries an attribute of the name. -/
def hasAttribute (header : Header) (name : String) : Bool :=
  header.attributes.any fun call => call.isNamed name

/-- Takes a kind mark out of a header and leaves a blank in its place. -/
def splitKindMark (text : Text) : Except LineFault (Text × Option KindMark) :=
  match text.cutWhere fun _ character following =>
      character == ':' && following.head? == some ':' with
  | none => .ok (text, none)
  | some cut =>
      let word : Text := cut.following.tail.takeWhile Char.isAlphanum
      let rest : Text := cut.following.tail.dropWhile Char.isAlphanum
      match KindMark.read? word with
      | some mark => .ok (cut.before ++ ' ' :: rest, some mark)
      | none => .error (.unknownKindMark (String.ofList word))

/-- Splits a header before its first `@`. -/
def splitAttributes (text : Text) : Text × Text :=
  match text.cutAt '@' with
  | some cut => (cut.before, cut.mark :: cut.following)
  | none => (text, [])

/-- Reads the name of an inherited entity. -/
def readParent (text : Text) : Except LineFault String :=
  if text.isIdentifier then .ok (String.ofList text)
  else .error (.invalidParentName (String.ofList text))

/-- Reads the heading of a block. Of several descriptions the one behind a `#` goes first, and
the one behind the attributes before the one in front of them. -/
def read (dialect : Dialect) (text : Text) : Except LineFault Header := do
  let (text, mark) <- splitKindMark text
  let (head, region) := splitAttributes text
  let (region, trailing) := region.splitDescription
  let (head, leading) := head.splitDescription
  let (region, quotedBehind) := region.takeTrailingQuoted
  asLineFault region.checkBalance
  let attributes <- asLineFault region.callRun
  asLineFault head.checkBalance
  let (head, quotedBefore) := head.takeTrailingQuoted
  let (named, parents) :=
    match head.cutAt ':' with
    | some cut => (cut.before, cut.following.pieces ',')
    | none => (head, [])
  match named.splitNameLabel? with
  | none => throw (.invalidEntityName (String.ofList named.trim))
  | some (name, label) =>
      let inherits <- parents.mapM readParent
      let kind <- dialect.entityKind name mark
      let description := ((trailing.or leading).or quotedBehind).or quotedBefore
      return { kind, name, label, inherits, attributes, description }

end Header

end SchemaMarkup
