import SchemaMarkup.Grammar.Annotation
import SchemaMarkup.Proofs.Reading.CallLists

/-!
# Framework attributes of a line

Taking the framework attributes out of a line divides it into tokens, each some text and a group
in square brackets behind it, and a rest. What comes of the line is told by the tokens alone:
their contents are read as calls, and a blank stands for each group (`extractFramework_eq_ok_iff`).
How the groups are found is another matter: `Taken` is what two scanners find, one for the opening
and one for the closing bracket.
-/

namespace SchemaMarkup

/-- Some text of a line and the framework attributes behind it. -/
structure FrameworkToken where
  before : Text
  /-- What stands between the brackets. -/
  inner : Text
  closer : Char
deriving DecidableEq, Repr

namespace FrameworkToken

/-- The group from its opening to its closing bracket. -/
def body (token : FrameworkToken) : Text :=
  '[' :: token.inner ++ [token.closer]

/-- The attributes of the group. -/
def calls (token : FrameworkToken) : Except SyntaxFault (List Attribute) :=
  token.inner.trim.callList

/-- The line that tokens and a rest make up. -/
def written (tokens : List FrameworkToken) (rest : Text) : Text :=
  tokens.flatMap (fun token => token.before ++ token.body) ++ rest

/-- The line with a blank for each group. -/
def blanked (tokens : List FrameworkToken) (rest : Text) : Text :=
  tokens.flatMap (fun token => token.before ++ [' ']) ++ rest

@[simp] theorem written_nil (rest : Text) : written [] rest = rest := rfl

@[simp] theorem blanked_nil (rest : Text) : blanked [] rest = rest := rfl

@[simp] theorem written_cons (token : FrameworkToken) (later : List FrameworkToken) (rest : Text) :
    written (token :: later) rest = token.before ++ (token.body ++ written later rest) := by
  simp [written]

@[simp] theorem blanked_cons (token : FrameworkToken) (later : List FrameworkToken) (rest : Text) :
    blanked (token :: later) rest = token.before ++ ' ' :: blanked later rest := by
  simp [blanked]

/-- Outside of strings a group with balanced contents leads to where it started. It is let through
if it is closed by a bracket of its kind. -/
theorem body_of_outside {token : FrameworkToken} {outer : List Char}
    (balanced : token.inner.isBalanced = true) (closes : isCloser token.closer = true) :
    (({ brackets := outer } : Nesting).accepts token.body = true ↔ token.closer = ']') ∧
      ({ brackets := outer } : Nesting).afterText token.body = { brackets := outer } := by
  obtain ⟨accepted, atTop⟩ := Text.isBalanced_iff.mp balanced
  obtain ⟨acceptedInside, staysInside⟩ := Nesting.afterText_under accepted ('[' :: outer)
  rw [atTop] at staysInside
  obtain ⟨fitting_iff, closed⟩ := @Text.after_of_isCloser '[' token.closer closes outer
  have opened : ({ brackets := outer } : Nesting).rejects '[' = false ∧
      ({ brackets := outer } : Nesting).after '[' = ({} : Nesting).under ('[' :: outer) :=
    ⟨rfl, rfl⟩
  have inside : ({} : Nesting).under ('[' :: outer) = { brackets := '[' :: outer } := rfl
  constructor
  · rw [body, List.cons_append, Nesting.accepts_cons, opened.1, opened.2, Nesting.accepts_append,
      acceptedInside, staysInside, inside, Nesting.accepts_cons, Nesting.accepts_nil]
    simp only [Bool.not_false, Bool.true_and, Bool.and_true, Bool.not_eq_true', fitting_iff]
    rw [closerOf?, Option.some.injEq, eq_comm]
  · rw [body, List.cons_append, Nesting.afterText_cons, opened.2, Nesting.afterText_append,
      staysInside, inside, Nesting.afterText_cons, closed, Nesting.afterText_nil]

end FrameworkToken

namespace Text

open FrameworkToken

/-- The tokens that are found in a line, and the rest behind them. -/
inductive Taken : Text → List FrameworkToken → Text → Prop where
  | rest {text : Text} (none : text.splitAtBracket = none) : Taken text [] text
  | token {text following later rest : Text} {token : FrameworkToken}
      {tokens : List FrameworkToken} (opens : text.splitAtBracket = some (token.before, following))
      (closes : splitAtClose ('[' :: following) = .ok ('[' :: token.inner, token.closer :: later))
      (goesOn : Taken later tokens rest) : Taken text (token :: tokens) rest

/-- The contents of a group end before its closing bracket. -/
theorem splitAtClose_cons {following group closing : Text}
    (closes : splitAtClose ('[' :: following) = .ok (group, closing)) :
    ∃ inner closer later, group = '[' :: inner ∧ closing = closer :: later ∧
      isCloser closer = true ∧ following = inner ++ closer :: later := by
  obtain ⟨closer, later, rfl, isClosing, whole⟩ := splitAtClose.go_eq_ok closes
  rw [splitAtClose, splitAtClose.go, if_neg (by decide)] at closes
  obtain ⟨⟨inner, _⟩, _, same⟩ := map_eq_ok_iff.mp closes
  obtain ⟨rfl, rfl⟩ := Prod.mk.inj same
  exact ⟨inner, closer, later, rfl, rfl, isClosing, List.cons.inj whole |>.2⟩

theorem taken_iff_of_none {text rest : Text} {tokens : List FrameworkToken}
    (none : text.splitAtBracket = none) : Taken text tokens rest ↔ tokens = [] ∧ rest = text := by
  constructor
  · rintro (_ | ⟨opens, _, _⟩)
    · exact ⟨rfl, rfl⟩
    · exact absurd (none.symm.trans opens) nofun
  · rintro ⟨rfl, rfl⟩
    exact .rest none

theorem taken_iff_of_some {text before following rest : Text} {tokens : List FrameworkToken}
    (found : text.splitAtBracket = some (before, following)) :
    Taken text tokens rest ↔ ∃ inner closer later others,
      splitAtClose ('[' :: following) = .ok ('[' :: inner, closer :: later) ∧
        tokens = { before, inner, closer } :: others ∧ Taken later others rest := by
  constructor
  · rintro (none | ⟨opens, closes, goesOn⟩)
    · exact absurd (none.symm.trans found) nofun
    · obtain ⟨rfl, rfl⟩ := Prod.mk.inj (Option.some.inj (opens.symm.trans found))
      exact ⟨_, _, _, _, closes, rfl, goesOn⟩
  · rintro ⟨inner, closer, later, others, closes, rfl, goesOn⟩
    exact .token found closes goesOn

/-- A list of calls holds a call. -/
theorem callList_nil (calls : List Attribute) : callList [] ≠ .ok calls := by
  intro areRead
  obtain ⟨filled, spell⟩ := callList_eq_ok_iff.mp areRead
  exact filled (List.forall₂_nil_left_iff.mp spell)

/-- Taking the framework attributes out of a line reads the contents of its tokens and puts a blank
in the place of each group. -/
theorem extractFrameworkFrom_eq_ok_iff {offset : Nat} {text remaining : Text}
    {attributes : List Attribute} :
    text.extractFrameworkFrom offset = .ok (remaining, attributes) ↔
      ∃ tokens rest calls, Taken text tokens rest ∧ tokens.mapM FrameworkToken.calls = .ok calls ∧
        remaining = blanked tokens rest ∧ attributes = calls.flatten := by
  fun_induction extractFrameworkFrom offset text generalizing remaining attributes with
  | case1 offset text none =>
      simp only [taken_iff_of_none none, Except.ok.injEq, Prod.mk.injEq]
      constructor
      · rintro ⟨rfl, rfl⟩
        exact ⟨[], text, [], ⟨rfl, rfl⟩, rfl, rfl, rfl⟩
      · rintro ⟨tokens, rest, calls, ⟨rfl, rfl⟩, areRead, rfl, rfl⟩
        rw [List.mapM_nil, pure_eq_ok_iff] at areRead
        exact ⟨rfl, by rw [← areRead]; rfl⟩
  | case2 offset text before following found opening mark =>
      rename_i unclosed
      simp [taken_iff_of_some found, unclosed]
  | case3 offset text before following found opening =>
      rename_i unclosed
      simp [taken_iff_of_some found, unclosed]
  | case4 offset text before following found opening group closing closed shorter contents next =>
      rename_i blank inductionHypothesis
      obtain ⟨inner, closer, later, rfl, rfl, _, _⟩ := splitAtClose_cons closed
      have isBlank : Text.trim inner = [] := List.isEmpty_iff.mp blank
      simp only [throw_eq_ok_iff, bind_eq_ok_iff, false_and, exists_false, false_iff]
      rintro ⟨tokens, rest, calls, taken, areRead, _⟩
      obtain ⟨_, _, _, others, closes, rfl, _⟩ := (taken_iff_of_some found).mp taken
      cases closed.symm.trans closes
      rw [List.mapM_cons, bind_eq_ok_iff] at areRead
      obtain ⟨here, isRead, _⟩ := areRead
      exact callList_nil here (isBlank ▸ isRead)
  | case5 offset text before following found opening group closing closed shorter contents next =>
      rename_i filled inductionHypothesis
      obtain ⟨inner, closer, later, rfl, rfl, _, _⟩ := splitAtClose_cons closed
      simp only [List.tail_cons] at inductionHypothesis
      simp only [next, bind_eq_ok_iff, pure_eq_ok_iff, Prod.exists, Prod.mk.injEq, List.tail_cons,
        inductionHypothesis, taken_iff_of_some found, closed]
      constructor
      · rintro ⟨here, isRead, _, _, ⟨tokens, rest, calls, taken, areRead, rfl, rfl⟩, rfl, rfl⟩
        refine ⟨_, rest, here :: calls, ⟨inner, closer, later, tokens, rfl, rfl, taken⟩, ?_,
          by rw [blanked_cons], rfl⟩
        rw [List.mapM_cons, bind_eq_ok_iff]
        exact ⟨here, isRead, by rw [areRead]; rfl⟩
      · rintro ⟨_, rest, _, ⟨_, _, _, others, same, rfl, taken⟩, areRead, rfl, rfl⟩
        cases same
        simp only [List.mapM_cons, bind_eq_ok_iff, pure_eq_ok_iff] at areRead
        obtain ⟨here, isRead, calls, areRead, rfl⟩ := areRead
        exact ⟨here, isRead, _, _, ⟨others, rest, calls, taken, areRead, rfl, rfl⟩,
          by rw [blanked_cons], rfl⟩

theorem extractFramework_eq_ok_iff {text remaining : Text} {attributes : List Attribute} :
    text.extractFramework = .ok (remaining, attributes) ↔
      ∃ tokens rest calls, Taken text tokens rest ∧ tokens.mapM FrameworkToken.calls = .ok calls ∧
        remaining = blanked tokens rest ∧ attributes = calls.flatten :=
  extractFrameworkFrom_eq_ok_iff

/-- Tokens and rest make up the line, and each token is closed by a closing bracket. -/
theorem Taken.whole {text rest : Text} {tokens : List FrameworkToken}
    (taken : Taken text tokens rest) :
    text = written tokens rest ∧ ∀ token ∈ tokens, isCloser token.closer = true := by
  induction taken with
  | rest => exact ⟨rfl, fun _ listed => absurd listed List.not_mem_nil⟩
  | @token text following later rest token tokens opens closes _ inductionHypothesis =>
      obtain ⟨inner, closer, behind, isInner, isBehind, closing, rfl⟩ := splitAtClose_cons closes
      obtain ⟨rfl, rfl⟩ : token.inner = inner ∧ token.closer = closer :=
        ⟨(List.cons.inj isInner).2, (List.cons.inj isBehind).1⟩
      obtain rfl := (List.cons.inj isBehind).2
      refine ⟨?_, List.forall_mem_cons.mpr ⟨closing, inductionHypothesis.2⟩⟩
      rw [written_cons, ← inductionHypothesis.1, ← splitAtBracket_append opens, body]
      simp

/-- A line is divided into tokens in one way. -/
theorem Taken.unique {text rest last : Text} {tokens others : List FrameworkToken}
    (taken : Taken text tokens rest) (other : Taken text others last) :
    tokens = others ∧ rest = last := by
  induction taken generalizing others last with
  | rest none =>
      obtain ⟨rfl, rfl⟩ := (taken_iff_of_none none).mp other
      exact ⟨rfl, rfl⟩
  | token opens closes _ inductionHypothesis =>
      obtain ⟨_, _, _, tail, closesToo, rfl, goesOn⟩ := (taken_iff_of_some opens).mp other
      cases closes.symm.trans closesToo
      obtain ⟨rfl, rfl⟩ := inductionHypothesis goesOn
      exact ⟨rfl, rfl⟩

/-- The contents of groups that hold calls are balanced. -/
theorem isBalanced_of_mapM_calls {tokens : List FrameworkToken} {calls : List (List Attribute)}
    (areRead : tokens.mapM FrameworkToken.calls = .ok calls) :
    ∀ token ∈ tokens, token.inner.isBalanced = true := by
  intro token listed
  obtain ⟨here, _, isRead⟩ := exists_of_forall₂_of_mem (mapM_eq_ok_iff.mp areRead).flip listed
  exact isBalanced_of_trim (isBalanced_of_callList isRead)

end Text

end SchemaMarkup
