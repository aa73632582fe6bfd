import SchemaMarkup.Grammar.Field
import SchemaMarkup.Proofs.Reading.LengthTexts

/-!
# Types as they are written

A type is written as its name, its length in parentheses and a `?` if it is nullable. What is
written so is read as it was: the text of a length as the length (`Text.readLength_render`), and the
whole as the type (`TypeExpression.read?_written`).
-/

namespace SchemaMarkup

/-! ## Lengths -/

namespace Length

/-- The text of a length stands in parentheses as it is. -/
theorem isBalanced_of_map_render {length : Option Length} {inner : Text}
    (isText : length.map (fun length => length.render.toList) = some inner) :
    inner.isBalanced = true := by
  obtain ⟨length, rfl, rfl⟩ := Option.map_eq_some_iff.mp isText
  have sealed : Text.Seals (fun _ => false) length.render.toList := by
    refine Text.seals_of_plain fun character listed => ⟨?_, rfl⟩
    rcases mem_render listed with isName | rfl
    · exact Text.isPlain_of_isNameCharacter isName
    · decide
  exact sealed.isBalanced

end Length

namespace Text

/-! ## Quotes -/

/-- A text is not enclosed by a mark that it does not hold. -/
theorem isEnclosedBy_of_not_mem {mark : Char} {text : Text} (noMark : mark ∉ text) :
    text.isEnclosedBy mark = false := by
  rw [← Bool.not_eq_true]
  intro enclosed
  simp only [isEnclosedBy, Bool.and_eq_true, beq_iff_eq] at enclosed
  exact noMark (List.mem_of_head? enclosed.1.2)

/-- A trimmed text without quotes has none to take off. -/
theorem unquote_of_not_mem {text : Text} (trimmed : text.trim = text) (noMark : '"' ∉ text) :
    text.unquote = text := by
  rw [unquote, trimmed, isEnclosedBy_of_not_mem noMark]
  rfl

theorem IsCallName.unquoted {name : Text} (named : IsCallName name) : name.unquote = name :=
  unquote_of_not_mem named.trimmed (named.not_mem (by decide))

theorem readLength_render (length : Length) : readLength length.render.toList = .ok length := by
  have noMark : '"' ∉ length.render.toList := by
    intro listed
    exact absurd (Length.mem_render listed) (by decide)
  rw [readLength, unquote_of_not_mem (trim_of_filled fun _ => Length.not_isBlank_of_mem_render)
    noMark, Length.read?_render]

/-! ## Types -/

/-- The contents in parentheses, if there are any. -/
def inParentheses (contents : Option Text) : Text :=
  contents.elim [] fun inner => '(' :: (inner ++ [')'])

/-- The mark of a nullable type. -/
def nullMark (nullable : Bool) : Text :=
  if nullable then ['?'] else []

end Text

namespace TypeExpression

theorem readInner_group {inner : Text} (balanced : inner.isBalanced = true) (rest : Text) :
    readInner ('(' :: (inner ++ ')' :: rest)) = (some inner, rest) := by
  have grouped : Text.readGroup '(' (inner ++ ')' :: rest) = some (inner, rest) :=
    (Text.readGroup_eq_some_iff rfl).mpr ⟨balanced, rfl⟩
  simp only [readInner, grouped]

/-- A type is read as it is written. -/
theorem read?_written {name : Text} (named : Text.IsCallName name) {contents : Option Text}
    (balanced : ∀ inner, contents = some inner → inner.isBalanced = true) (nullable : Bool) :
    read? (name ++ (Text.inParentheses contents ++ Text.nullMark nullable)) =
      some { name := String.ofList name, nullable, inner := contents, rest := [] } := by
  have ends : ∀ next, (Text.inParentheses contents ++ Text.nullMark nullable).head? = some next →
      isNameCharacter next = false := by
    cases contents <;> cases nullable <;> rintro _ ⟨⟩ <;> decide
  obtain ⟨taken, dropped⟩ := named.span ends
  simp only [read?, taken, dropped, List.isEmpty_iff, named.1, if_false]
  cases contents with
  | none => cases nullable <;> rfl
  | some inner =>
      have whole : Text.inParentheses (some inner) ++ Text.nullMark nullable =
          '(' :: (inner ++ ')' :: Text.nullMark nullable) := by
        simp [Text.inParentheses]
      have unmarked : readMark ('(' :: (inner ++ ')' :: Text.nullMark nullable)) =
          (false, '(' :: (inner ++ ')' :: Text.nullMark nullable)) := rfl
      rw [whole, unmarked, readInner_group (balanced inner rfl)]
      cases nullable <;> rfl

/-- What stands behind a name and a blank is no part of the type. -/
theorem read?_apart {name : Text} (named : Text.IsCallName name) (rest : Text) :
    read? (name ++ ' ' :: rest) = some {
      name := String.ofList name, nullable := false, inner := none
      rest := Text.trim (' ' :: rest) } := by
  obtain ⟨taken, dropped⟩ := @Text.IsCallName.span name (' ' :: rest) named (by rintro _ ⟨⟩; decide)
  simp only [read?, taken, dropped, List.isEmpty_iff, named.1, if_false]
  rfl

end TypeExpression

end SchemaMarkup
