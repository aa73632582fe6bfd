import SchemaMarkup.Proofs.Outcome
import SchemaMarkup.Proofs.Reading.SpokenLines

/-!
# Value lines

An item of an enumeration declares a value, unless it is a directive; the lines nested under it
refine the value and do not rename it. `Enumeration.addValue_eq_ok_iff` says what such an item adds
to an enumeration, and `Enumeration.Progress.add_cases` that no other entry adds a value.
-/

namespace SchemaMarkup

namespace EnumValue

/-- A line nested under a value does not rename it. -/
theorem name_refine {declared refined : EnumValue} {line : Line}
    (run : declared.refine line = .ok refined) : refined.name = declared.name := by
  rw [refine] at run
  split at run
  · cases run
    rfl
  · split at run
    · rw [atLocation_eq_ok_iff] at run
      simp only [setProperty] at run
      repeat' split at run
      all_goals cases run
      all_goals rfl
    · contradiction

end EnumValue

/-- Whether an entry of an enumeration declares a value. -/
def Entry.declaresValue : Entry → Bool
  | .item _ line _ => line.content.head? != some '@'
  | _ => false

/-- The group behind an entry that stands in some group. -/
def Entry.groupAfter (group : Option String) : Entry → Option String
  | .sectionHeading line => line.content.nonBlank?
  | _ => group

namespace Enumeration

/-- Two states of one enumeration: it has kept what its header says of it. -/
structure SameHead (enumeration next : Enumeration) : Prop where
  name : next.name = enumeration.name
  location : next.location = enumeration.location

theorem SameHead.refl (enumeration : Enumeration) : enumeration.SameHead enumeration :=
  ⟨rfl, rfl⟩

theorem SameHead.trans {first second third : Enumeration} (before : first.SameHead second)
    (after : second.SameHead third) : first.SameHead third :=
  ⟨after.name.trans before.name, after.location.trans before.location⟩

/-- Two states of one enumeration: it has kept its values as well. -/
structure SameValues (enumeration next : Enumeration) : Prop
    extends enumeration.SameHead next where
  values : next.values = enumeration.values

theorem SameValues.trans {first second third : Enumeration} (before : first.SameValues second)
    (after : second.SameValues third) : first.SameValues third :=
  ⟨before.toSameHead.trans after.toSameHead, after.values.trans before.values⟩

variable {enumeration next : Enumeration}

/-- An item adds the value that its lines tell, if that has a new name. -/
theorem addValue_eq_ok_iff {group : Option String} {line : Line} {nested : List Line} :
    enumeration.addValue group line nested = .ok next ↔
      ∃ declared value, EnumValue.read line.content = .ok declared ∧
        nested.foldlM EnumValue.refine { declared with group := declared.group.or group } =
          .ok value ∧
        value.name ∉ enumeration.values.map EnumValue.name ∧
        next = { enumeration with values := enumeration.values ++ [value] } := by
  simp only [addValue, bind_eq_ok_iff, atLocation_eq_ok_iff]
  constructor
  · rintro ⟨declared, isRead, value, isRefined, run⟩
    split at run
    · simp only [bind_eq_ok_iff, throw_eq_ok_iff, false_and, exists_false] at run
    · next isNew =>
        exact ⟨declared, value, isRead, isRefined, by simpa using isNew,
          (pure_eq_ok_iff.mp run).symm⟩
  · rintro ⟨declared, value, isRead, isRefined, isNew, rfl⟩
    refine ⟨declared, isRead, value, isRefined, ?_⟩
    rw [if_neg (by simpa using isNew)]
    rfl

theorem sameValues_addLoose {line : Line} (run : enumeration.addLoose line = .ok next) :
    enumeration.SameValues next := by
  rw [addLoose] at run
  split at run
  · exact Except.ok.inj run ▸ ⟨⟨rfl, rfl⟩, rfl⟩
  · contradiction

theorem sameValues_addAttributes {line : Line}
    (run : enumeration.addAttributes line = .ok next) : enumeration.SameValues next := by
  simp only [addAttributes, atLocation_eq_ok_iff, bind_eq_ok_iff, pure_eq_ok_iff] at run
  obtain ⟨_, _, rfl⟩ := run
  exact ⟨⟨rfl, rfl⟩, rfl⟩

/-- A heading leads to another group, and no other entry does. -/
theorem Progress.group_add {progress next : Progress} {entry : Entry}
    (run : progress.add entry = .ok next) : next.group = entry.groupAfter progress.group := by
  cases entry with
  | sectionHeading line => exact Except.ok.inj run ▸ rfl
  | quote line =>
      simp only [add, bind_eq_ok_iff, pure_eq_ok_iff] at run
      obtain ⟨_, _, rfl⟩ := run
      rfl
  | item depth line nested =>
      simp only [add] at run
      split at run
      · simp only [bind_eq_ok_iff, throw_eq_ok_iff, false_and, exists_false] at run
      · split at run
        all_goals
          simp only [bind_eq_ok_iff, pure_eq_ok_iff] at run
        · obtain ⟨_, _, _, _, rfl⟩ := run
          rfl
        · obtain ⟨_, _, rfl⟩ := run
          rfl

/-- An entry declares a value or leaves the values as they are. -/
theorem Progress.add_cases {progress next : Progress} {entry : Entry}
    (run : progress.add entry = .ok next) :
    (∃ depth line nested, entry = .item depth line nested ∧ depth ≤ 1 ∧
      entry.declaresValue = true ∧
      progress.enumeration.addValue progress.group line nested = .ok next.enumeration) ∨
    entry.declaresValue = false ∧ progress.enumeration.SameValues next.enumeration := by
  cases entry with
  | sectionHeading line => exact .inr ⟨rfl, Except.ok.inj run ▸ ⟨⟨rfl, rfl⟩, rfl⟩⟩
  | quote line =>
      simp only [add, bind_eq_ok_iff, pure_eq_ok_iff] at run
      obtain ⟨enumeration, added, rfl⟩ := run
      exact .inr ⟨rfl, sameValues_addLoose added⟩
  | item depth line nested =>
      simp only [add] at run
      split at run
      · simp only [bind_eq_ok_iff, throw_eq_ok_iff, false_and, exists_false] at run
      · next shallow =>
          split at run
          · next directive =>
              simp only [bind_eq_ok_iff, pure_eq_ok_iff] at run
              obtain ⟨attributed, isAttributed, enumeration, added, rfl⟩ := run
              have same := sameValues_addAttributes isAttributed
              refine .inr ⟨by simpa [Entry.declaresValue] using directive, ?_⟩
              exact foldlM_keeps (progress.enumeration.SameValues ·)
                (fun _ _ _ step kept => kept.trans (sameValues_addLoose step)) added same
          · next noDirective =>
              simp only [bind_eq_ok_iff, pure_eq_ok_iff] at run
              obtain ⟨enumeration, added, rfl⟩ := run
              exact .inl ⟨depth, line, nested, rfl, Nat.le_of_not_lt shallow,
                by simpa [Entry.declaresValue] using noDirective, added⟩

theorem sameHead_addValue {group : Option String} {line : Line} {nested : List Line}
    (run : enumeration.addValue group line nested = .ok next) : enumeration.SameHead next := by
  obtain ⟨_, _, _, _, _, rfl⟩ := addValue_eq_ok_iff.mp run
  exact ⟨rfl, rfl⟩

theorem Progress.sameHead_add {progress next : Progress} {entry : Entry}
    (run : progress.add entry = .ok next) :
    progress.enumeration.SameHead next.enumeration := by
  rcases Progress.add_cases run with ⟨_, _, _, _, _, _, declares⟩ | ⟨_, same⟩
  · exact sameHead_addValue declares
  · exact same.toSameHead

/-- An enumeration is read from a header that inherits nothing, entry by entry. -/
theorem read_eq_ok_iff {header : Header} {location : Location} {entries : List Entry} :
    Enumeration.read header location entries = .ok enumeration ↔
      header.inherits = [] ∧ ∃ progress, entries.foldlM Progress.add { enumeration := {
        name := header.name
        label := header.label
        description := header.description
        attributes := header.attributes
        location } } = .ok progress ∧ progress.enumeration = enumeration := by
  simp only [Enumeration.read]
  cases header.inherits with
  | nil => simp only [bind_eq_ok_iff, pure_eq_ok_iff, true_and]
  | cons parent later =>
      simp only [bind_eq_ok_iff, throw_eq_ok_iff, false_and, exists_false, reduceCtorEq]

/-- An enumeration has the name that its header declares, and its place. -/
theorem sameHead_read {header : Header} {location : Location} {entries : List Entry}
    (run : Enumeration.read header location entries = .ok enumeration) :
    SameHead { name := header.name, location } enumeration := by
  obtain ⟨_, progress, added, rfl⟩ := read_eq_ok_iff.mp run
  exact foldlM_keeps (fun progress : Progress => SameHead _ progress.enumeration)
    (fun _ _ _ step kept => kept.trans (Progress.sameHead_add step)) added ⟨rfl, rfl⟩

end Enumeration

end SchemaMarkup
