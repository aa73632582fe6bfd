import Mathlib.Data.List.Nodup

/-!
# First occurrences

The list without later repeats, `List.eraseDups`, as the parents of a member and the
names of merged fields use it: what it does to filters, to appended lists and to lists
of lists.
-/

namespace SchemaMarkup

variable {Item Other : Type} [DecidableEq Item] [DecidableEq Other]

/-- Dropping repeats and filtering can be done in either order. -/
theorem eraseDups_filter (keep : Item → Bool) (items : List Item) :
    (items.filter keep).eraseDups = items.eraseDups.filter keep := by
  induction length : items.length using Nat.strongRecOn generalizing items with
  | _ count inductionHypothesis =>
      cases items with
      | nil => rfl
      | cons first rest =>
          have shorter : (rest.filter fun item => !item == first).length < count := by
            have bounded := List.length_filter_le (fun item => !item == first) rest
            simp only [List.length_cons] at length
            omega
          rw [List.eraseDups_cons, List.filter_cons, List.filter_cons,
            ← inductionHypothesis _ shorter _ rfl, List.filter_filter]
          cases kept : keep first with
          | true =>
              rw [if_pos rfl, if_pos rfl, List.eraseDups_cons, List.filter_filter]
              simp only [Bool.and_comm]
          | false =>
              -- A dropped first item takes nothing with it that the filter would keep.
              rw [if_neg Bool.false_ne_true, if_neg Bool.false_ne_true]
              congr 1
              apply List.filter_congr
              intro item _
              by_cases same : item = first
              · simp [same, kept]
              · simp [same]

/-- A list without later repeats has no repeats. -/
theorem nodup_eraseDups (items : List Item) : items.eraseDups.Nodup := by
  induction items with
  | nil => exact List.nodup_nil
  | cons first rest inductionHypothesis =>
      rw [List.eraseDups_cons, List.nodup_cons, eraseDups_filter]
      exact ⟨by simp, inductionHypothesis.filter _⟩

/-- Nothing is dropped from a list without repeats. -/
theorem eraseDups_of_nodup {items : List Item} (distinct : items.Nodup) :
    items.eraseDups = items := by
  induction items with
  | nil => rfl
  | cons first rest inductionHypothesis =>
      obtain ⟨absent, distinctRest⟩ := List.nodup_cons.mp distinct
      have unchanged : rest.filter (fun item => !item == first) = rest := by
        apply List.filter_eq_self.mpr
        intro item listed
        have different : item ≠ first := fun same => absent (same ▸ listed)
        simp [different]
      rw [List.eraseDups_cons, unchanged, inductionHypothesis distinctRest]

/-- Images repeat where their items do, if no two items have one image. -/
theorem eraseDups_map_of_injective {change : Item → Other} (injective : Function.Injective change)
    (items : List Item) : (items.map change).eraseDups = items.eraseDups.map change := by
  induction items with
  | nil => rfl
  | cons first rest inductionHypothesis =>
      have sameTest : (fun item => !item == change first) ∘ change =
          fun item => !item == first := by
        funext item
        by_cases same : item = first
        · simp [same]
        · simp [same, injective.ne same]
      rw [List.map_cons, List.eraseDups_cons, List.eraseDups_cons, List.map_cons, eraseDups_filter,
        eraseDups_filter, inductionHypothesis, List.filter_map, sameTest]

/-- Of two lists in a row, the second adds what the first does not hold. -/
theorem eraseDups_append_eq (left right : List Item) :
    (left ++ right).eraseDups =
      left.eraseDups ++ right.eraseDups.filter (fun item => !left.contains item) := by
  rw [List.eraseDups_append, ← eraseDups_filter]
  rfl

/-- Dropping repeats a second time changes nothing. -/
theorem eraseDups_eraseDups (items : List Item) : items.eraseDups.eraseDups = items.eraseDups :=
  eraseDups_of_nodup (nodup_eraseDups items)

/-- One more item counts if it is new. -/
theorem eraseDups_concat (items : List Item) (item : Item) :
    (items ++ [item]).eraseDups =
      if item ∈ items then items.eraseDups else items.eraseDups ++ [item] := by
  rw [eraseDups_append_eq]
  by_cases known : item ∈ items
  · simp [known, List.eraseDups_cons]
  · simp [known, List.eraseDups_cons]

/-- Items that are all held before add nothing. -/
theorem eraseDups_append_of_subset {left right : List Item} (held : right ⊆ left) :
    (left ++ right).eraseDups = left.eraseDups := by
  have nothing : right.eraseDups.filter (fun item => !left.contains item) = [] := by
    rw [List.filter_eq_nil_iff]
    intro item listed
    simpa using held (List.mem_eraseDups.mp listed)
  rw [eraseDups_append_eq, nothing, List.append_nil]

/-- What comes first matters only up to repeats. -/
theorem eraseDups_append_congr_left {left other : List Item}
    (same : left.eraseDups = other.eraseDups) (right : List Item) :
    (left ++ right).eraseDups = (other ++ right).eraseDups := by
  rw [eraseDups_append_eq, eraseDups_append_eq, same]
  congr 1
  apply List.filter_congr
  intro item _
  have members : item ∈ left ↔ item ∈ other := by
    rw [← List.mem_eraseDups, same, List.mem_eraseDups]
  simp [members]

/-- What comes last matters only up to repeats. -/
theorem eraseDups_append_congr_right (left : List Item) {right other : List Item}
    (same : right.eraseDups = other.eraseDups) :
    (left ++ right).eraseDups = (left ++ other).eraseDups := by
  rw [eraseDups_append_eq, same, ← eraseDups_append_eq]

end SchemaMarkup
