import SchemaMarkup.Proofs.Reading.FrameworkTokens
import SchemaMarkup.Proofs.Text.GroupClosers

/-!
# Groups in square brackets

The framework attributes of a line are its groups in square brackets that open at top level:
`Grouped`. In a balanced line they are what is taken from it if the search for opening brackets
sees each square bracket that stands outside of the groups as it is, and it does if no string there
holds its own mark behind a backslash (`Text.extractFramework_replacesGroups`).
-/

namespace SchemaMarkup

namespace Text

open FrameworkToken

/-! ## Groups of a text -/

/-- The groups in square brackets that open at top level, each with the text before it, and the
rest behind them. -/
inductive Grouped : Text → List FrameworkToken → Text → Prop where
  | rest {text : Text} (none : OpensNone AtTop text) : Grouped text [] text
  | group {before inner later rest : Text} {groups : List FrameworkToken} (atTop : AtTop before)
      (isFirst : OpensNone AtTop before) (balanced : inner.isBalanced = true)
      (goesOn : Grouped later groups rest) :
      Grouped (before ++ '[' :: (inner ++ ']' :: later))
        ({ before, inner, closer := ']' } :: groups) rest

/-- The end of a group with balanced contents is found. -/
theorem splitAtClose_of_balanced {inner later : Text} (balanced : inner.isBalanced = true) :
    splitAtClose ('[' :: (inner ++ ']' :: later)) = .ok ('[' :: inner, ']' :: later) :=
  splitAtClose_of_wellNested rfl (isBalanced_iff_wellNested.mp balanced) later

/-- A balanced text has groups, and is balanced between them. -/
theorem exists_grouped {text : Text} (balanced : text.isBalanced = true) :
    ∃ groups rest, Grouped text groups rest := by
  induction length : text.length using Nat.strong_induction_on generalizing text with
  | _ size inductionHypothesis =>
      rcases opensNone_or_first AtTop text with none | ⟨before, following, rfl, atTop, isFirst⟩
      · exact ⟨[], text, .rest none⟩
      · have reads := (Nesting.readsToEnd_append.mp (isBalanced_iff.mp balanced)).2
        rw [show ({} : Nesting).afterText before = {} from atTop] at reads
        have inside : (({} : Nesting).under ['[']).ReadsToEnd following :=
          (Nesting.readsToEnd_cons.mp reads).2
        obtain ⟨inner, closer, later, rfl, readsInner, fitting, readsLater⟩ :=
          exists_close_of_readsToEnd inside
        obtain rfl : ']' = closer := Option.some.inj fitting
        obtain ⟨groups, rest, grouped⟩ := inductionHypothesis later.length
          (by rw [← length]; simp; omega) (isBalanced_iff.mpr readsLater) rfl
        exact ⟨_, rest, .group atTop isFirst (isBalanced_iff.mpr readsInner) grouped⟩

/-- A text is divided into groups in one way. -/
theorem Grouped.unique {text rest last : Text} {groups others : List FrameworkToken}
    (grouped : Grouped text groups rest) (other : Grouped text others last) :
    groups = others ∧ rest = last := by
  induction grouped generalizing others last with
  | rest none =>
      cases other with
      | rest _ => exact ⟨rfl, rfl⟩
      | group atTop _ _ _ => exact absurd atTop (none _ _ rfl)
  | @group before inner later rest groups atTop isFirst balanced _ inductionHypothesis =>
      generalize whole : before ++ '[' :: (inner ++ ']' :: later) = text at other
      cases other with
      | rest none => exact absurd atTop (none _ _ whole.symm)
      | group atTopToo isFirstToo balancedToo goesOn =>
          obtain ⟨rfl, same⟩ := first_unique whole atTop isFirst atTopToo isFirstToo
          have closes := @splitAtClose_of_balanced inner later balanced
          rw [same, splitAtClose_of_balanced balancedToo] at closes
          cases closes
          obtain ⟨rfl, rfl⟩ := inductionHypothesis goesOn
          exact ⟨rfl, rfl⟩

/-! ## Groups and tokens -/

/-- The pieces of a line that the search goes over: each up to the opening bracket of a group, and
the rest. -/
def searched (groups : List FrameworkToken) (rest : Text) : List Text :=
  groups.map (fun group => group.before ++ ['[']) ++ [rest]

/-- The groups of a line are its tokens if the search sees the brackets outside of them. -/
theorem taken_iff_of_grouped {text rest : Text} {groups : List FrameworkToken}
    (grouped : Grouped text groups rest) :
    Taken text groups rest ↔ ∀ piece ∈ searched groups rest, SeesBrackets piece := by
  induction grouped with
  | @rest text none =>
      have taken_iff : Taken text [] text ↔ text.splitAtBracket = Option.none :=
        ⟨fun taken => by cases taken; assumption, .rest⟩
      rw [taken_iff, splitAtBracket_eq_none_iff, ← seesBrackets_iff_of_none none]
      simp [searched]
  | @group before inner later rest groups atTop isFirst balanced _ inductionHypothesis =>
      have pieces : searched ({ before, inner, closer := ']' } :: groups) rest =
          (before ++ ['[']) :: searched groups rest := rfl
      rw [pieces, List.forall_mem_cons, ← inductionHypothesis, seesBrackets_concat,
        seesBrackets_iff_of_none isFirst]
      have found_iff := @splitAtBracket_eq_some_iff (before ++ '[' :: (inner ++ ']' :: later))
        before (inner ++ ']' :: later)
      have closes := @splitAtClose_of_balanced inner later balanced
      constructor
      · intro taken
        cases taken with
        | @token _ following behind _ _ _ opens closesToo goesOn =>
            obtain rfl : following = inner ++ ']' :: later := by
              simpa using splitAtBracket_append opens
            cases closes.symm.trans closesToo
            obtain ⟨_, seesAtTop, noneSeen⟩ := found_iff.mp opens
            exact ⟨⟨noneSeen, iff_of_true seesAtTop atTop⟩, goesOn⟩
      · rintro ⟨⟨noneSeen, seesAtTop⟩, goesOn⟩
        exact .token (found_iff.mpr ⟨rfl, seesAtTop.mpr atTop, noneSeen⟩) closes goesOn

/-- A bracket that gives way to a blank at one place does not do so at another. -/
theorem blank_unique {before other following behind left right : Text}
    (brackets : before ++ '[' :: following = other ++ '[' :: behind)
    (blanks : before ++ ' ' :: left = other ++ ' ' :: right) :
    before = other ∧ following = behind ∧ left = right := by
  rcases append_cons_cases brackets with ⟨rfl, same⟩ | ⟨gap, rfl⟩ | ⟨gap, rfl⟩
  · exact ⟨rfl, same, by simpa using blanks⟩
  · simp at blanks
  · simp at blanks

/-- A line that is left with blanks for its groups has these as its tokens. -/
theorem taken_of_blanked_eq {text rest last : Text} {groups tokens : List FrameworkToken}
    (grouped : Grouped text groups rest) (taken : Taken text tokens last)
    (same : blanked tokens last = blanked groups rest) : Taken text groups rest := by
  induction grouped generalizing tokens last with
  | rest none =>
      cases taken with
      | rest noneFound => exact .rest noneFound
      | token opens _ _ =>
          rw [blanked_cons, blanked_nil, ← splitAtBracket_append opens] at same
          simp at same
  | @group before inner later rest groups atTop isFirst balanced _ inductionHypothesis =>
      cases taken with
      | rest noneFound => simp at same
      | @token _ following behind _ token _ opens closes goesOn =>
          obtain ⟨tokenBefore, tokenInner, tokenCloser⟩ := token
          rw [blanked_cons, blanked_cons] at same
          obtain ⟨rfl, rfl, sameLater⟩ := blank_unique (splitAtBracket_append opens) same
          have closesToo := @splitAtClose_of_balanced inner later balanced
          cases closesToo.symm.trans closes
          exact .token opens closesToo (inductionHypothesis goesOn sameLater)

/-- In a balanced line without escaped marks outside of its groups, the search sees the brackets
outside of them. -/
theorem seesBrackets_searched {text rest : Text} {groups : List FrameworkToken}
    (balanced : text.isBalanced = true) (grouped : Grouped text groups rest)
    (unescaped : ∀ piece ∈ searched groups rest, ¬EscapesMark piece) :
    ∀ piece ∈ searched groups rest, SeesBrackets piece := by
  induction grouped with
  | @rest text none =>
      have accepted := (isBalanced_iff.mp balanced).1
      simp only [searched, List.map_nil, List.nil_append, List.forall_mem_singleton] at unescaped ⊢
      exact (seesBrackets_of_unescaped accepted none unescaped).1
  | @group before inner later rest groups atTop isFirst balancedInner _ inductionHypothesis =>
      let group : FrameworkToken := { before, inner, closer := ']' }
      have whole : before ++ '[' :: (inner ++ ']' :: later) = before ++ (group.body ++ later) := by
        simp [body, group]
      rw [whole, isBalanced_iff, Nesting.readsToEnd_append,
        show ({} : Nesting).afterText before = {} from atTop, Nesting.readsToEnd_append,
        (@body_of_outside group [] balancedInner rfl).2] at balanced
      obtain ⟨accepted, _, readsLater⟩ := balanced
      have pieces : searched (group :: groups) rest =
          (before ++ ['[']) :: searched groups rest := rfl
      rw [pieces, List.forall_mem_cons] at unescaped ⊢
      have unescapedBefore : ¬EscapesMark before := by
        rintro ⟨front, mark, back, rfl, escapes⟩
        exact unescaped.1 ⟨front, mark, back ++ ['['], by simp, escapes⟩
      exact ⟨seesBrackets_concat.mpr (seesBrackets_of_unescaped accepted isFirst unescapedBefore),
        inductionHypothesis (isBalanced_iff.mpr readsLater) unescaped.2⟩

/-- Taking out framework attributes reads the contents of some groups, and puts a blank in the place
of each of them. -/
structure ReplacesGroups (groups : List FrameworkToken) (rest remaining : Text)
    (attributes : List Attribute) : Prop where
  remaining : remaining = blanked groups rest
  attributes : ∃ calls, groups.mapM FrameworkToken.calls = .ok calls ∧ attributes = calls.flatten

/-- A balanced line is divided into groups in square brackets at top level. They are what is taken
from it if the search sees the brackets outside of them as they are; it does in a line in which
no string outside of the groups holds its own mark behind a backslash. -/
theorem extractFramework_replacesGroups {text remaining : Text} {attributes : List Attribute}
    (balanced : text.isBalanced = true)
    (succeeds : text.extractFramework = .ok (remaining, attributes)) :
    ∃ groups rest, Grouped text groups rest ∧
      (∀ others last, Grouped text others last → others = groups ∧ last = rest) ∧
      (ReplacesGroups groups rest remaining attributes ↔
        ∀ piece ∈ searched groups rest, SeesBrackets piece) ∧
      ((∀ piece ∈ searched groups rest, ¬EscapesMark piece) →
        ReplacesGroups groups rest remaining attributes) := by
  obtain ⟨groups, rest, grouped⟩ := exists_grouped balanced
  obtain ⟨tokens, last, calls, taken, areRead, rfl, rfl⟩ := extractFramework_eq_ok_iff.mp succeeds
  have replaces_iff : ReplacesGroups groups rest (blanked tokens last) calls.flatten ↔
      ∀ piece ∈ searched groups rest, SeesBrackets piece := by
    rw [← taken_iff_of_grouped grouped]
    constructor
    · exact fun replaces => taken_of_blanked_eq grouped taken replaces.remaining
    · intro takesGroups
      obtain ⟨rfl, rfl⟩ := taken.unique takesGroups
      exact ⟨rfl, calls, areRead, rfl⟩
  refine ⟨groups, rest, grouped, fun others last other => other.unique grouped, replaces_iff, ?_⟩
  exact fun unescaped => replaces_iff.mpr (seesBrackets_searched balanced grouped unescaped)

/-- A line with brackets in a string, in parentheses and in groups. -/
def groupedLine : Text :=
  "tag: text = \"[\" [Max(9), Check(\"]\")] @a([b])".toList

/-- Only the group at top level is taken from the line. -/
theorem groupedLine_replacesGroups :
    groupedLine.extractFramework = .ok ("tag: text = \"[\"   @a([b])".toList,
        [⟨"Max", ["9"], "Max(9)"⟩, ⟨"Check", ["\"]\""], "Check(\"]\")"⟩]) ∧
      ∃ groups rest, Grouped groupedLine groups rest ∧
        (ReplacesGroups groups rest "tag: text = \"[\"   @a([b])".toList
            [⟨"Max", ["9"], "Max(9)"⟩, ⟨"Check", ["\"]\""], "Check(\"]\")"⟩] ↔
          ∀ piece ∈ searched groups rest, SeesBrackets piece) := by
  have succeeds : groupedLine.extractFramework = .ok ("tag: text = \"[\"   @a([b])".toList,
      [⟨"Max", ["9"], "Max(9)"⟩, ⟨"Check", ["\"]\""], "Check(\"]\")"⟩]) := by
    decide +kernel
  obtain ⟨groups, rest, grouped, _, replaces_iff, _⟩ :=
    extractFramework_replacesGroups (by decide +kernel) succeeds
  exact ⟨succeeds, groups, rest, grouped, replaces_iff⟩

/-- A string holds its own mark, and a group follows it. -/
def escapedLine : Text :=
  "Name: string = \"a\\\"b\" [Required]".toList

/-- The group behind the string is not taken from the line. -/
theorem escapedLine_keepsGroup :
    escapedLine.isBalanced = true ∧ escapedLine.extractFramework = .ok (escapedLine, []) ∧
      ∃ group, Grouped escapedLine [group] [] ∧ ¬ReplacesGroups [group] [] escapedLine [] := by
  let before : Text := "Name: string = \"a\\\"b\" ".toList
  let inner : Text := "Required".toList
  have whole : escapedLine = before ++ '[' :: (inner ++ ']' :: []) := by decide
  have atTop : ({} : Nesting).afterText before = {} := by decide
  have noBracket : ∀ text : Text, '[' ∉ text → OpensNone AtTop text := by
    rintro _ absent front back rfl
    exact absurd (List.mem_append_right _ List.mem_cons_self) absent
  refine ⟨by decide +kernel, by decide +kernel, { before, inner, closer := ']' }, ?_, ?_⟩
  · rw [whole]
    exact .group atTop (noBracket before (by decide)) (by decide +kernel)
      (.rest (noBracket [] (by decide)))
  · intro replaces
    exact absurd replaces.remaining (by decide)

end Text

end SchemaMarkup
