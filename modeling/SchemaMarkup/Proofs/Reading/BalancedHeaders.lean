import SchemaMarkup.Proofs.Text.TrailingStrings

/-!
# Balance of headers

A header is checked for balance in two parts, in front of its attributes and from these on. The
first part is checked as it stands. The second one is checked without the string that ends it, and
where a bracket is open at the end of the header, that string holds the bracket. So a header that is
read leaves no string open, but it may leave a bracket open, and it is balanced if it does not.
-/

namespace SchemaMarkup

namespace Text

/-- A reader does not tell the two texts apart, neither on the way nor at the end. -/
structure ReadsLike (text other : Text) : Prop where
  accepts : ({} : Nesting).accepts text = ({} : Nesting).accepts other
  leads : ({} : Nesting).afterText text = ({} : Nesting).afterText other

theorem ReadsLike.isBalanced_iff {text other : Text} (alike : ReadsLike text other) :
    text.isBalanced = true ↔ other.isBalanced = true := by
  rw [Text.isBalanced_iff, Text.isBalanced_iff, Nesting.ReadsToEnd, Nesting.ReadsToEnd,
    alike.accepts, alike.leads]

/-- Plain text at top level may give way to other plain text. -/
theorem readsLike_of_plain {front middle other : Text} (rest : Text)
    (atTop : ({} : Nesting).afterText front = {})
    (plain : ∀ character ∈ middle, isPlain character = true)
    (plainToo : ∀ character ∈ other, isPlain character = true) :
    ReadsLike (front ++ (middle ++ rest)) (front ++ (other ++ rest)) := by
  obtain ⟨accepted, stays⟩ := @reads_of_plain {} middle rfl plain
  obtain ⟨acceptedToo, staysToo⟩ := @reads_of_plain {} other rfl plainToo
  constructor
  · simp only [Nesting.accepts_append, atTop, accepted, stays, acceptedToo, staysToo]
  · simp only [Nesting.afterText_append, atTop, stays, staysToo]

end Text

namespace Header

open Text

theorem isPlain_of_isAlphanum {character : Char} (isWord : character.isAlphanum = true) :
    isPlain character = true :=
  isPlain_of_isNameCharacter (by simp [isNameCharacter, isWord])

/-- The kind mark of a header is plain text at top level, and a blank is left in its place. -/
theorem readsLike_of_splitKindMark {text rest : Text} {mark : Option KindMark}
    (isSplit : splitKindMark text = .ok (rest, mark)) :
    ReadsLike text rest ∧ ∀ character, character ∈ rest → character = ' ' ∨ character ∈ text := by
  rw [splitKindMark] at isSplit
  split at isSplit
  · cases isSplit
    exact ⟨⟨rfl, rfl⟩, fun character listed => .inr listed⟩
  · next cut found =>
      obtain ⟨_, stops⟩ := stop_of_cutWhere found
      obtain ⟨isColon, follows⟩ := Bool.and_eq_true_iff.mp stops
      obtain ⟨tail, following⟩ := List.head?_eq_some_iff.mp (eq_of_beq follows)
      have whole := cutWhere_append found
      rw [eq_of_beq isColon, following,
        ← @List.takeWhile_append_dropWhile _ Char.isAlphanum tail] at whole
      simp only [following, List.tail_cons] at isSplit
      split at isSplit
      · next kind isKind =>
          cases isSplit
          have word : ∀ character ∈ ':' :: ':' :: tail.takeWhile Char.isAlphanum,
              isPlain character = true := by
            intro character listed
            rcases List.mem_cons.mp listed with rfl | listed
            · rfl
            · rcases List.mem_cons.mp listed with rfl | listed
              · rfl
              · exact isPlain_of_isAlphanum (List.mem_takeWhile_imp listed)
          rw [← whole]
          refine ⟨?_, fun character listed => ?_⟩
          · exact @readsLike_of_plain cut.before
              (':' :: ':' :: tail.takeWhile Char.isAlphanum) [' ']
              (tail.dropWhile Char.isAlphanum) (atTop_of_cutWhere found) word
              (List.all_eq_true.mp (by decide))
          · simp only [List.mem_append, List.mem_cons] at listed ⊢
            tauto
      · contradiction

theorem splitAttributes_append (text : Text) :
    (splitAttributes text).1 ++ (splitAttributes text).2 = text := by
  rw [splitAttributes]
  split
  · next cut found => exact cutWhere_append found
  · exact List.append_nil text

/-- What stands in front of the attributes of a header that is read is balanced, and what stands
from there on is balanced without the string at its end, which is a description. -/
theorem balanced_parts_of_read {dialect : Dialect} {text : Text} {header : Header}
    (noHash : '#' ∉ text) (isRead : Header.read dialect text = .ok header) :
    ∃ head region, ReadsLike text (head ++ region) ∧ head.isBalanced = true ∧
      region.takeTrailingQuoted.1.isBalanced = true ∧
      ('@' ∉ text → region = []) ∧
      (header.description = none → region.takeTrailingQuoted.2 = none) := by
  simp only [Header.read, bind_eq_ok_iff, asLineFault, mapError_eq_ok_iff] at isRead
  obtain ⟨⟨marked, mark⟩, isSplit, _, checkedRegion, calls, _, _, checkedHead, isRead⟩ := isRead
  obtain ⟨alike, within⟩ := readsLike_of_splitKindMark isSplit
  have whole := splitAttributes_append marked
  have noHashLeft : '#' ∉ marked := fun listed =>
    (within '#' listed).elim (fun isBlank => absurd isBlank (by decide)) noHash
  rw [← whole, List.mem_append, not_or] at noHashLeft
  simp only [splitDescription_of_not_mem noHashLeft.1, splitDescription_of_not_mem noHashLeft.2]
    at checkedRegion checkedHead isRead
  refine ⟨(splitAttributes marked).1, (splitAttributes marked).2, whole.symm ▸ alike,
    by rw [isBalanced, checkedHead]; rfl, by rw [isBalanced, checkedRegion]; rfl, ?_, ?_⟩
  · intro noSign
    rw [splitAttributes]
    split
    · next cut found =>
        obtain ⟨_, isSign⟩ := stop_of_cutWhere found
        have listed : '@' ∈ marked := by
          rw [← cutWhere_append found, eq_of_beq isSign]
          exact List.mem_append_right _ List.mem_cons_self
        exact ((within '@' listed).elim (fun isBlank => absurd isBlank (by decide)) noSign).elim
    · rfl
  · intro noDescription
    split at isRead
    · simp only [throw_eq_ok_iff] at isRead
    · simp only [bind_eq_ok_iff, pure_eq_ok_iff] at isRead
      obtain ⟨_, _, _, _, rfl⟩ := isRead
      simp only [Option.none_or, Option.or_eq_none_iff] at noDescription
      exact noDescription.1

/-- A header without `#` that is read leaves no string open, and is balanced if it leaves no bracket
open. It leaves none open if it holds no `@`, or if it has no description. -/
theorem isBalanced_iff_brackets_of_read {dialect : Dialect} {text : Text} {header : Header}
    (noHash : '#' ∉ text) (isRead : Header.read dialect text = .ok header) :
    (text.isBalanced = true ↔ (({} : Nesting).afterText text).brackets = []) ∧
      (({} : Nesting).afterText text).quoting = .outside ∧
      ('@' ∉ text ∨ header.description = none → text.isBalanced = true) := by
  obtain ⟨head, region, alike, balancedHead, balancedRegion, unsigned, undescribed⟩ :=
    balanced_parts_of_read noHash isRead
  obtain ⟨balanced_iff, outside⟩ := isBalanced_iff_of_takeTrailingQuoted balancedRegion
  have atTop := (isBalanced_iff.mp balancedHead).2
  have sameBalance : text.isBalanced = true ↔ region.isBalanced = true := by
    rw [alike.isBalanced_iff, isBalanced_iff, isBalanced_iff, Nesting.readsToEnd_append, atTop]
    exact and_iff_right (isBalanced_iff.mp balancedHead).1
  rw [sameBalance, balanced_iff, alike.leads, Nesting.afterText_append, atTop]
  refine ⟨Iff.rfl, outside, ?_⟩
  rintro (noSign | noDescription)
  · rw [unsigned noSign]
    rfl
  · rw [takeTrailingQuoted_of_none (undescribed noDescription)] at balancedRegion
    exact balanced_iff.mp balancedRegion

/-- A header with attributes and a description. -/
def describedHeader : Text :=
  "Order(Total) ::interface : Base @table(\"a)b\", [x]) \"Orders\"".toList

/-- The header leaves no bracket open. -/
theorem describedHeader_balanced :
    ∃ header, Header.read .current describedHeader = .ok header ∧
      describedHeader.isBalanced = true ∧
      (describedHeader.isBalanced = true ↔
        (({} : Nesting).afterText describedHeader).brackets = []) := by
  have succeeds : (Header.read .current describedHeader).map
      (fun header => (header.name, header.description)) = .ok ("Order", some "Orders") := by
    decide +kernel
  obtain ⟨header, isRead, _⟩ := map_eq_ok_iff.mp succeeds
  obtain ⟨balanced_iff, _⟩ := isBalanced_iff_brackets_of_read (by decide) isRead
  exact ⟨header, isRead, by decide +kernel, balanced_iff⟩

/-- A header that ends with a string in an open bracket, behind a string at top level. -/
def openHeader : Text :=
  "A @b \"c\" (\"d\"".toList

/-- The header is read in both dialects, and it is not balanced. -/
theorem openHeader_accepted :
    '#' ∉ openHeader ∧ (∀ dialect, (Header.read dialect openHeader).isOk = true) ∧
      openHeader.checkBalance = .error (.unclosed '(' 9) := by
  refine ⟨by decide, ?_, by decide +kernel⟩
  rintro (_ | _) <;> decide +kernel

end Header

end SchemaMarkup
