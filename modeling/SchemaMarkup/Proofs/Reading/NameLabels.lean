import SchemaMarkup.Proofs.Reading.CallSpelling
import SchemaMarkup.Proofs.Reading.Identifiers
import SchemaMarkup.Proofs.Text.Fronts
import SchemaMarkup.Proofs.Text.OuterBlanks

/-!
# Names and their labels

A name may carry a label in parentheses. `Text.splitNameLabel?` divides such a text at its first
parenthesis and takes what is left for the group of the label, as long as the text ends with a
parenthesis. In a balanced text the group may then be one that is closed at the very end
(`Text.ClosesAtEnd`), or the first of several (`Text.ClosesEarly`), which are taken for one.
-/

namespace SchemaMarkup

namespace Text

/-- The trimmed text is a name, blanks, and a group in parentheses. -/
def HasGroup (text : Text) (name : String) (inner : Text) : Prop :=
  IsIdentifier name ∧ ∃ gap : Text, (∀ character ∈ gap, isBlank character = true) ∧
    text.trim = name.toList ++ gap ++ '(' :: (inner ++ [')'])

/-- The text declares a name, alone or with a label in a group of an admitted kind. -/
inductive Declares (admits : Text → Prop) (text : Text) (name : String) :
    Option String → Prop where
  | alone (isName : IsIdentifier name) (whole : text.trim = name.toList) :
      Declares admits text name none
  | labelled {inner : Text} (group : text.HasGroup name inner) (admitted : admits inner) :
      Declares admits text name (nonBlank? inner.unquote)

/-- A parenthesis in front of the text is not closed before its end. -/
def ClosesAtEnd (inner : Text) : Prop :=
  inner.isBalanced = true

instance (inner : Text) : Decidable inner.ClosesAtEnd :=
  inferInstanceAs (Decidable (inner.isBalanced = true))

/-- A parenthesis in front of the text is closed inside of it. -/
def ClosesEarly (inner : Text) : Prop :=
  ∃ first later, first.isBalanced = true ∧ inner = first ++ ')' :: later

variable {admits : Text → Prop} {text inner gap : Text} {name : String} {label : Option String}

/-! ## The first parenthesis -/

theorem isIdentifier_toList (isName : IsIdentifier name) : isIdentifier name.toList = true :=
  isIdentifier_iff.mpr (by rwa [String.ofList_toList])

theorem isCallName_toList (isName : IsIdentifier name) : IsCallName name.toList :=
  isCallName_of_isIdentifier (isIdentifier_toList isName)

/-- A name and the blanks behind it are plain. -/
theorem isPlain_of_mem_name (isName : IsIdentifier name)
    (blank : ∀ character ∈ gap, isBlank character = true) :
    ∀ character ∈ name.toList ++ gap, isPlain character = true := by
  intro character listed
  rcases List.mem_append.mp listed with inName | inGap
  · exact isPlain_of_isNameCharacter ((isCallName_toList isName).2 character inName)
  · exact isPlain_of_isBlank (blank character inGap)

theorem bne_parenthesis_of_isPlain {character : Char} (plain : isPlain character = true) :
    (character != '(') = true := by
  rw [bne_iff_ne]
  rintro rfl
  exact absurd plain (by decide)

/-- The front of a trimmed text starts with no blank. -/
theorem trimStart_of_append {front rest : Text} (trimmed : text.trim = front ++ rest) :
    front.trimStart = front := by
  refine trimStart_eq_self fun first isFirst => @isBlank_head_trim text first ?_
  rw [trimmed, List.head?_append, isFirst]
  rfl

/-- A group is found by its first parenthesis, where a name has been trimmed in front of it. -/
theorem hasGroup_iff :
    text.HasGroup name inner ↔ IsIdentifier name ∧
      trim (text.trim.takeWhile (· != '(')) = name.toList ∧
      text.trim.dropWhile (· != '(') = '(' :: (inner ++ [')']) := by
  refine and_congr_right fun isName => ⟨?_, ?_⟩
  · rintro ⟨gap, blank, whole⟩
    have noGroup : ∀ character ∈ name.toList ++ gap, (character != '(') = true :=
      fun character listed =>
        bne_parenthesis_of_isPlain (isPlain_of_mem_name isName blank character listed)
    rw [whole, List.takeWhile_append_of_pos noGroup, List.dropWhile_append_of_pos noGroup,
      List.takeWhile_cons_of_neg (by decide), List.append_nil, trim_append_blank _ blank,
      (isCallName_toList isName).trimmed]
    exact ⟨rfl, rfl⟩
  · rintro ⟨before, behind⟩
    have divided := @List.takeWhile_append_dropWhile _ (· != '(') text.trim
    obtain ⟨gap, wholeFront, blank⟩ := exists_trimEnd_append (text.trim.takeWhile (· != '('))
    rw [trim, trimStart_of_append divided.symm] at before
    refine ⟨gap, blank, ?_⟩
    rw [← before, ← wholeFront, ← behind, divided]

/-- The name and the contents of a group are fixed by the text. -/
theorem HasGroup.unique {other : String} {otherInner : Text} (group : text.HasGroup name inner)
    (otherGroup : text.HasGroup other otherInner) : name = other ∧ inner = otherInner := by
  obtain ⟨_, before, behind⟩ := hasGroup_iff.mp group
  obtain ⟨_, otherBefore, otherBehind⟩ := hasGroup_iff.mp otherGroup
  rw [behind] at otherBehind
  exact ⟨String.toList_injective (before.symm.trans otherBefore),
    List.append_cancel_right (List.cons.inj otherBehind).2⟩

/-- A text that has a group is declared with that group only. -/
theorem Declares.admits_of_hasGroup {other : String}
    (declares : text.Declares admits name label) (group : text.HasGroup other inner) :
    admits inner := by
  cases declares with
  | alone isName whole =>
      obtain ⟨_, gap, _, wholeGroup⟩ := group
      have listed : '(' ∈ name.toList := by rw [← whole, wholeGroup]; simp
      exact absurd listed ((isCallName_toList isName).not_mem (by decide))
  | labelled ownGroup admitted => rwa [(group.unique ownGroup).2]

theorem Declares.imp {other : Text → Prop} (declares : text.Declares admits name label)
    (weaker : ∀ inner, text.HasGroup name inner → admits inner → other inner) :
    text.Declares other name label := by
  cases declares with
  | alone isName whole => exact .alone isName whole
  | labelled group admitted => exact .labelled group (weaker _ group admitted)

/-! ## What is split -/

/-- A text is split exactly if it is a name, or a name in front of its first parenthesis and ends
with a parenthesis. What stands between the two parentheses is then the label. -/
theorem splitNameLabel?_eq_some_iff :
    text.splitNameLabel? = some (name, label) ↔ text.Declares (fun _ => True) name label := by
  constructor
  · intro isSplit
    have isName := isIdentifier_splitNameLabel? isSplit
    simp only [splitNameLabel?] at isSplit
    split at isSplit
    · split at isSplit
      · cases isSplit
        exact .alone isName String.toList_ofList.symm
      · contradiction
    · next first group behind =>
        split at isSplit
        · next ends =>
            cases isSplit
            obtain rfl : first = '(' := by
              have stops := List.head?_dropWhile_not (· != '(') text.trim
              simpa [behind] using stops
            obtain ⟨inner, rfl⟩ :=
              List.getLast?_eq_some_iff.mp (eq_of_beq (Bool.and_eq_true_iff.mp ends).1)
            rw [List.dropLast_concat]
            exact .labelled
              (hasGroup_iff.mpr ⟨isName, String.toList_ofList.symm, behind⟩) trivial
        · contradiction
  · rintro (⟨isName, whole⟩ | ⟨group, _⟩)
    · have noGroup : ∀ character ∈ name.toList, (character != '(') = true :=
        fun character listed => bne_parenthesis_of_isPlain <| isPlain_of_isNameCharacter <|
          (isCallName_toList isName).2 character listed
      simp [splitNameLabel?, whole, List.dropWhile_eq_nil_iff.mpr noGroup,
        isIdentifier_toList isName]
    · obtain ⟨isName, before, behind⟩ := hasGroup_iff.mp group
      simp [splitNameLabel?, before, behind, isIdentifier_toList isName]

/-! ## Groups of balanced texts -/

/-- In a balanced text a group is closed at the end or before. -/
theorem HasGroup.closes (group : text.HasGroup name inner) (balanced : text.isBalanced = true) :
    inner.ClosesAtEnd ∨ inner.ClosesEarly := by
  obtain ⟨isName, gap, blank, whole⟩ := group
  -- A name and blanks are passed at top level, so the group is read from its parenthesis on.
  have reads := isBalanced_iff.mp (isBalanced_trim balanced)
  have stays := (@reads_of_plain {} _ rfl (isPlain_of_mem_name isName blank)).2
  rw [whole, Nesting.readsToEnd_append, stays, Nesting.readsToEnd_cons] at reads
  have inside : (({} : Nesting).under ['(']).ReadsToEnd (inner ++ [')']) := reads.2.2
  obtain ⟨first, closer, later, divided, readsFirst, fitting, _⟩ :=
    exists_close_of_readsToEnd inside
  obtain rfl : ')' = closer := Option.some.inj fitting
  rcases List.eq_nil_or_concat' later with rfl | ⟨between, last, rfl⟩
  · obtain ⟨rfl, _⟩ := List.append_inj' divided rfl
    exact .inl (isBalanced_iff.mpr readsFirst)
  · rw [← List.cons_append, ← List.append_assoc] at divided
    obtain ⟨rfl, _⟩ := List.append_inj' divided rfl
    exact .inr ⟨first, between, isBalanced_iff.mpr readsFirst, rfl⟩

/-- A group is not closed both at the end and before. -/
theorem ClosesAtEnd.not_closesEarly (atEnd : inner.ClosesAtEnd) : ¬inner.ClosesEarly := by
  rintro ⟨first, later, balanced, rfl⟩
  have reads := isBalanced_iff.mp atEnd
  rw [Nesting.readsToEnd_append, (isBalanced_iff.mp balanced).2, Nesting.readsToEnd_cons] at reads
  exact absurd reads.2.1 (by decide)

/-- A balanced text is split exactly if it is a name, or a name in front of a group that is closed
at the end or before. To be split then means to have a single group, exactly as long as the text is
none whose group is closed early. -/
theorem splitNameLabel?_of_isBalanced (balanced : text.isBalanced = true) :
    (∀ name label, text.splitNameLabel? = some (name, label) ↔
        text.Declares (fun inner => inner.ClosesAtEnd ∨ inner.ClosesEarly) name label) ∧
      ((∀ name label, text.splitNameLabel? = some (name, label) ↔
          text.Declares ClosesAtEnd name label) ↔
        ¬∃ name inner, text.HasGroup name inner ∧ inner.ClosesEarly) := by
  have split_iff : ∀ name label, text.splitNameLabel? = some (name, label) ↔
      text.Declares (fun inner => inner.ClosesAtEnd ∨ inner.ClosesEarly) name label :=
    fun name label => splitNameLabel?_eq_some_iff.trans
      ⟨fun declares => declares.imp fun _ group _ => group.closes balanced,
        fun declares => declares.imp fun _ _ _ => trivial⟩
  refine ⟨split_iff, ?_, ?_⟩
  · rintro single ⟨name, inner, group, early⟩
    have isSplit := splitNameLabel?_eq_some_iff.mpr (.labelled group trivial)
    have atEnd := ((single _ _).mp isSplit).admits_of_hasGroup group
    exact atEnd.not_closesEarly early
  · intro noneEarly name label
    refine (split_iff name label).trans ⟨fun declares => declares.imp ?_, fun declares =>
      declares.imp fun _ _ atEnd => .inl atEnd⟩
    intro inner group closes
    exact closes.resolve_right fun early => noneEarly ⟨name, inner, group, early⟩

/-- A name with a label in which a parenthesis is quoted and others are nested. -/
def annotatedTotal : Text :=
  " Total ((net) \")\" of tax)".toList

/-- The one group of this text is the label. -/
theorem annotatedTotal_splits :
    annotatedTotal.isBalanced = true ∧
      annotatedTotal.splitNameLabel? = some ("Total", some "(net) \")\" of tax") ∧
      ∀ name label, annotatedTotal.splitNameLabel? = some (name, label) ↔
        annotatedTotal.Declares ClosesAtEnd name label := by
  have balanced : annotatedTotal.isBalanced = true := by decide +kernel
  refine ⟨balanced, by decide +kernel, (splitNameLabel?_of_isBalanced balanced).2.mpr ?_⟩
  rintro ⟨name, inner, group, early⟩
  have whole : annotatedTotal.HasGroup "Total" "(net) \")\" of tax".toList :=
    hasGroup_iff.mpr ⟨isIdentifier_iff.mp (by decide +kernel), by decide +kernel⟩
  rw [(group.unique whole).2] at early
  have atEnd : ClosesAtEnd "(net) \")\" of tax".toList := by decide +kernel
  exact atEnd.not_closesEarly early

/-- A name and two groups. -/
def twoGroups : Text :=
  "a(b)(c)".toList

/-- Two groups are taken for one, with a label that is not balanced. -/
theorem twoGroups_split :
    ¬(twoGroups.isBalanced = true →
      ∀ name label, twoGroups.splitNameLabel? = some (name, label) ↔
        twoGroups.Declares ClosesAtEnd name label) := by
  intro single
  have isSplit : twoGroups.splitNameLabel? = some ("a", some "b)(c") := by decide +kernel
  have group : twoGroups.HasGroup "a" "b)(c".toList :=
    hasGroup_iff.mpr ⟨isIdentifier_iff.mp (by decide +kernel), by decide +kernel⟩
  have atEnd := ((single (by decide +kernel) _ _).mp isSplit).admits_of_hasGroup group
  exact absurd atEnd (by decide +kernel)

end Text

end SchemaMarkup
