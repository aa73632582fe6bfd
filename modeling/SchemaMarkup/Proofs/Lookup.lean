import SchemaMarkup.Schema.Document

/-!
# Lookup by name

A name finds the item that has it as written, and else the first one that has it in any case.
What is found depends on the names of the items alone, and on their order only where two
names differ in nothing but case.
-/

namespace SchemaMarkup

/-- Names that are equal up to case are equal up to case to the same names. -/
theorem equalIgnoringCase_congr {left right : String} (alike : equalIgnoringCase left right = true)
    (name : String) : equalIgnoringCase left name = equalIgnoringCase right name := by
  rw [equalIgnoringCase_iff] at alike
  rw [Bool.eq_iff_iff, equalIgnoringCase_iff, equalIgnoringCase_iff, alike]

variable {Item Other : Type}

/-- What is found has the name up to case. -/
theorem equalIgnoringCase_of_findNamed? {nameOf : Item → String} {items : List Item}
    {name : String} {item : Item} (found : findNamed? nameOf items name = some item) :
    equalIgnoringCase (nameOf item) name = true := by
  rcases Option.or_eq_some_iff.mp found with exact | ⟨_, inAnyCase⟩
  · have same : nameOf item = name := by simpa using List.find?_some exact
    rw [same, equalIgnoringCase_self]
  · simpa using List.find?_some inAnyCase

/-- Images are found by the names that they have. -/
theorem findNamed?_map (change : Item → Other) (nameOf : Other → String) (items : List Item)
    (name : String) :
    findNamed? nameOf (items.map change) name =
      (findNamed? (fun item => nameOf (change item)) items name).map change := by
  simp only [findNamed?, List.find?_map, Function.comp_def]
  cases items.find? fun item => nameOf (change item) == name <;> simp

/-- Where no two names are equal up to case, an item is found by every spelling of its name. -/
theorem findNamed?_eq_some_iff {nameOf : Item → String} {items : List Item}
    (apart : ∀ one ∈ items, ∀ other ∈ items,
      equalIgnoringCase (nameOf one) (nameOf other) = true → one = other)
    {name : String} {item : Item} :
    findNamed? nameOf items name = some item ↔
      item ∈ items ∧ equalIgnoringCase (nameOf item) name = true := by
  have listed_of_found : ∀ {found}, findNamed? nameOf items name = some found → found ∈ items := by
    intro found isFound
    rcases Option.or_eq_some_iff.mp isFound with exact | ⟨_, inAnyCase⟩
    · exact List.mem_of_find?_eq_some exact
    · exact List.mem_of_find?_eq_some inAnyCase
  constructor
  · exact fun isFound => ⟨listed_of_found isFound, equalIgnoringCase_of_findNamed? isFound⟩
  · rintro ⟨listed, alike⟩
    cases isFound : findNamed? nameOf items name with
    | none =>
        have missing := (Option.or_eq_none_iff.mp isFound).2
        exact absurd alike (List.find?_eq_none.mp missing item listed)
    | some found =>
        have foundAlike := equalIgnoringCase_of_findNamed? isFound
        rw [equalIgnoringCase_iff] at alike foundAlike
        have namesakes : equalIgnoringCase (nameOf found) (nameOf item) = true := by
          rw [equalIgnoringCase_iff, foundAlike, alike]
        rw [apart found (listed_of_found isFound) item listed namesakes]

/-- Where no two items both answer, the answer does not depend on the order of the items. -/
theorem findSome?_eq_of_perm {answer : Item → Option Other} {items others : List Item}
    (perm : items.Perm others)
    (apart : items.Pairwise fun one other => answer one = none ∨ answer other = none) :
    items.findSome? answer = others.findSome? answer := by
  induction perm with
  | nil => rfl
  | cons item _ inductionHypothesis =>
      rw [List.findSome?_cons, List.findSome?_cons, inductionHypothesis apart.of_cons]
  | swap one other rest =>
      have first := List.rel_of_pairwise_cons apart List.mem_cons_self
      rcases first with none | none
      all_goals simp only [List.findSome?_cons, none]
  | trans same _ inductionHypothesis inductionHypothesisLater =>
      rw [inductionHypothesis apart, inductionHypothesisLater]
      exact (same.pairwise_iff Or.symm).mp apart

end SchemaMarkup
