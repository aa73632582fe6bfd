import SchemaMarkup.Proofs.Text.BalanceGrammar

/-!
# The closing brackets of groups

The end of a group is found by counting brackets from its opening one, and their kinds are not
looked at. In a balanced text this finds the bracket that belongs to it, at any depth
(`Text.closeOf_of_isBalanced`): what follows an opening bracket is well nested up to a closing
bracket that closes nothing in it, or else the text would break (`Text.LeavesOpen.exists_closer`).
-/

namespace SchemaMarkup

namespace Text

variable {text front inner rest back : Text} {bracket closer : Char} {outer : List Char}

/-! ## Behind an opening bracket -/

/-- A string that is open at the end of a text is open there whatever brackets are around it. -/
theorem LeavesOpen.append_endsInString (leavesOpen : front.LeavesOpen outer)
    (endsInString : rest.EndsInString) : EndsInString (front ++ rest) := by
  obtain ⟨mark, offset, breaks⟩ := endsInString
  cases breaks with
  | unended before isMark runsOn =>
      rw [← List.append_assoc]
      exact ⟨_, _, .unended (leavesOpen.append before) isMark runsOn⟩

/-- A balanced text leaves nothing open. -/
theorem LeavesOpen.eq_nil_of_isBalanced (leavesOpen : text.LeavesOpen outer)
    (balanced : text.isBalanced = true) : outer = [] :=
  congrArg Nesting.brackets (leavesOpen.reads.2.symm.trans (isBalanced_iff.mp balanced).2)

/-- In a balanced text an open bracket is closed by its own kind, behind well-nested text. -/
theorem LeavesOpen.exists_closer (leavesOpen : front.LeavesOpen (bracket :: outer))
    (balanced : isBalanced (front ++ rest) = true) :
    ∃ (inner back : Text) (closer : Char), rest = inner ++ closer :: back ∧ inner.WellNested ∧
      closerOf? bracket = some closer := by
  have reads := isBalanced_iff.mp balanced
  rcases rest.leavesOpen_or_breaks with ⟨brackets, leavesLater⟩ | endsInString | misclosed
  · have noneOpen := (leavesOpen.append leavesLater).eq_nil_of_isBalanced balanced
    simp at noneOpen
  · have inside := (leavesOpen.append_endsInString endsInString).reads.2
    rw [reads.2] at inside
    contradiction
  · obtain ⟨closer, offset, breaks⟩ := misclosed
    cases breaks with
    | @misclosed inner back brackets _ before closes unfit =>
        -- The closing bracket fits in the whole text, so it closes what is open in front of the
        -- rest.
        have fits : (brackets ++ bracket :: outer).head?.bind closerOf? = some closer := by
          by_contra unfitToo
          have misclosed : IsMisclosed (front ++ inner ++ closer :: back) :=
            ⟨_, _, .misclosed (leavesOpen.append before) closes unfitToo⟩
          rw [IsMisclosed, List.append_assoc] at misclosed
          exact absurd reads.1 (by rw [IsMisclosed.reads misclosed]; decide)
        cases brackets with
        | nil => exact ⟨inner, back, closer, rfl, leavesOpen_nil_iff.mp before, fits⟩
        | cons innermost others => exact absurd fits unfit

/-! ## Counting brackets -/

theorem dropBytes_append (front rest : Text) :
    dropBytes front.byteLength (front ++ rest) = rest := by
  induction front with
  | nil => cases rest <;> simp [dropBytes]
  | cons character later inductionHypothesis =>
      have positive : 0 < character.utf8Size := character.utf8Size_pos
      rw [List.cons_append, byteLength_cons, dropBytes, if_neg (by omega), Nat.add_sub_cancel_left,
        inductionHypothesis]

/-- The end of a group with well-nested contents is found. -/
theorem splitAtClose_of_wellNested (closes : closerOf? bracket = some closer)
    (nested : inner.WellNested) (back : Text) :
    splitAtClose (bracket :: (inner ++ closer :: back)) =
      .ok (bracket :: inner, closer :: back) := by
  have inside : splitAtClose.go (({} : Nesting).under [bracket]) (inner ++ closer :: back) =
      .ok (inner, closer :: back) :=
    splitAtClose.go_under nested.reads (isCloser_of_closerOf? closes)
  have opens : isOpener bracket = true := Option.isSome_iff_exists.mpr ⟨closer, closes⟩
  have goesOn : ¬({} : Nesting).endsGroup bracket = true := by
    rcases closerOf?_cases closes with ⟨rfl, _⟩ | ⟨rfl, _⟩ | ⟨rfl, _⟩ <;> decide
  rw [splitAtClose, splitAtClose.go, if_neg goesOn, (after_of_isOpener opens []).2,
    show ({ brackets := [bracket] } : Nesting) = ({} : Nesting).under [bracket] from rfl, inside]
  rfl

theorem closeOf_of_wellNested (front : Text) (closes : closerOf? bracket = some closer)
    (nested : inner.WellNested) (back : Text) :
    closeOf (front ++ bracket :: (inner ++ closer :: back)) front.byteLength =
      .ok (byteLength (front ++ bracket :: inner)) := by
  simp only [closeOf, dropBytes_append, splitAtClose_of_wellNested closes nested,
    byteLength_append]

/-- In a balanced text every opening bracket outside of strings has the closing bracket that is
found for it: it is of the same kind, what stands between the two is balanced, and so is the text
without the group. -/
theorem closeOf_of_isBalanced (balanced : isBalanced (front ++ bracket :: rest) = true)
    (outside : ¬front.EndsInString) (opens : isOpener bracket = true) :
    ∃ (inner back : Text) (closer : Char), rest = inner ++ closer :: back ∧
      closerOf? bracket = some closer ∧
      closeOf (front ++ bracket :: rest) front.byteLength =
        .ok (byteLength (front ++ bracket :: inner)) ∧
      inner.isBalanced = true ∧ isBalanced (front ++ back) = true := by
  have reads := isBalanced_iff.mp balanced
  have accepted : ({} : Nesting).accepts front = true := (Nesting.readsToEnd_append.mp reads).1
  obtain ⟨outer, before⟩ := (leavesOpen_or_endsInString accepted).resolve_right outside
  have opened : LeavesOpen (front ++ [bracket]) (bracket :: outer) := .opened before opens .nil
  have regrouped : front ++ bracket :: rest = (front ++ [bracket]) ++ rest := by simp
  obtain ⟨inner, back, closer, rfl, nested, closes⟩ :=
    opened.exists_closer (by rwa [← regrouped])
  refine ⟨inner, back, closer, rfl, closes, closeOf_of_wellNested front closes nested back,
    isBalanced_iff_wellNested.mpr nested, ?_⟩
  -- The group leads back to the brackets that are open in front of it.
  have group := before.append_nested (.group closes nested .nil)
  have whole : front ++ bracket :: (inner ++ closer :: back) =
      (front ++ bracket :: (inner ++ [closer])) ++ back := by simp
  rw [whole, Nesting.readsToEnd_append, group.reads.2] at reads
  rw [isBalanced_iff, Nesting.readsToEnd_append, before.reads.2]
  exact ⟨before.reads.1, reads.2⟩

/-- What stands in front of a list inside of a call, and what follows its opening bracket: the list
holds a string with closing brackets, and a group of another kind. -/
def callFront : Text :=
  "check(len(x), ".toList

def callRest : Text :=
  "\")]\", (a)]) @b".toList

/-- The closing bracket of the list is found behind the string and the group. -/
theorem callFront_closes :
    isBalanced (callFront ++ '[' :: callRest) = true ∧ ¬callFront.EndsInString ∧
      isOpener '[' = true ∧
      ∃ (inner back : Text) (closer : Char), callRest = inner ++ closer :: back ∧
        closerOf? '[' = some closer ∧
        closeOf (callFront ++ '[' :: callRest) callFront.byteLength =
          .ok (byteLength (callFront ++ '[' :: inner)) ∧
        inner.isBalanced = true ∧ isBalanced (callFront ++ back) = true := by
  have balanced : isBalanced (callFront ++ '[' :: callRest) = true := by decide +kernel
  have outside : ¬callFront.EndsInString := by decide +kernel
  exact ⟨balanced, outside, rfl, closeOf_of_isBalanced balanced outside rfl⟩

end Text

end SchemaMarkup
