import SchemaMarkup.Proofs.Reading.Identifiers
import SchemaMarkup.Proofs.Text.GroupContent

/-!
# Spelling of calls

A text spells a call if it is a name, or a name and balanced arguments in parentheses right behind
it: `Text.Spells`. The reader of calls takes a call off a text if the text starts with what spells
one and does not go on with it (`Text.readCall?_of_spells`, `Text.spells_of_readCall?`). What
spells a call is trimmed and balanced, and shows no separator, so lists and runs of calls are never
divided inside of a call.
-/

namespace SchemaMarkup

theorem not_isBlank_of_isNameCharacter {character : Char}
    (isName : isNameCharacter character = true) : isBlank character = false := by
  have within : 33 ≤ character.toNat ∧ character.toNat ≤ 126 := by
    rw [isNameCharacter_iff, StartsIdentifier] at isName
    rcases isName with (upper | lower | rfl) | digit | rfl
    · simp [Char.le_def, UInt32.le_iff_toNat_le] at upper
      omega
    · simp [Char.le_def, UInt32.le_iff_toNat_le] at lower
      omega
    · decide
    · simp [Char.le_def, UInt32.le_iff_toNat_le] at digit
      omega
    · decide
  simp [isBlank, blankRanges]
  omega

theorem not_isNameCharacter_of_isBlank {character : Char} (blank : isBlank character = true) :
    isNameCharacter character = false := by
  rw [← Bool.not_eq_true]
  intro isName
  exact absurd blank (by simp [not_isBlank_of_isNameCharacter isName])

/-- A sign that no name has is none of its characters. -/
theorem beq_of_isNameCharacter {sign character : Char} (apart : isNameCharacter sign = false)
    (isName : isNameCharacter character = true) : (character == sign) = false := by
  rw [beq_eq_false_iff_ne]
  rintro rfl
  exact absurd (isName.symm.trans apart) (by decide)

namespace Text

/-- A name that a call can have. -/
def IsCallName (name : Text) : Prop :=
  name ≠ [] ∧ ∀ character ∈ name, isNameCharacter character = true

instance (name : Text) : Decidable (IsCallName name) :=
  decidable_of_iff ((!name.isEmpty && name.all isNameCharacter) = true) (by simp [IsCallName])

/-- The call that a text spells. Its raw text is the text as it is. -/
inductive Spells : Text → Attribute → Prop where
  | name {name : Text} (named : IsCallName name) :
      Spells name { name := String.ofList name, arguments := [], raw := String.ofList name }
  | applied {name inner : Text} (named : IsCallName name) (balanced : inner.isBalanced = true) :
      Spells (name ++ '(' :: (inner ++ [')'])) {
        name := String.ofList name
        arguments := (inner.pieces ',').map String.ofList
        raw := String.ofList (name ++ '(' :: (inner ++ [')'])) }

/-! ## What spells a call -/

/-- A name starts with a name character. -/
theorem IsCallName.exists_first {name : Text} (named : IsCallName name) :
    ∃ first rest, name = first :: rest ∧ isNameCharacter first = true := by
  obtain ⟨filled, all⟩ := named
  obtain ⟨first, rest, rfl⟩ := List.exists_cons_of_ne_nil filled
  exact ⟨first, rest, rfl, all first List.mem_cons_self⟩

/-- Identifiers are names that a call can have. -/
theorem isCallName_of_isIdentifier {name : Text} (identifier : name.isIdentifier = true) :
    IsCallName name := by
  cases name with
  | nil => contradiction
  | cons first rest =>
      obtain ⟨starts, goesOn⟩ := Bool.and_eq_true_iff.mp identifier
      refine ⟨List.cons_ne_nil first rest, List.forall_mem_cons.mpr ⟨?_, ?_⟩⟩
      · rcases Bool.or_eq_true_iff.mp starts with letter | underscore
        · simp [isNameCharacter, Char.isAlphanum, letter]
        · simp [isNameCharacter, underscore]
      · exact List.all_eq_true.mp goesOn

theorem IsCallName.trimmed {name : Text} (named : IsCallName name) : name.trim = name :=
  trim_of_filled fun character listed => not_isBlank_of_isNameCharacter (named.2 character listed)

theorem IsCallName.trimStart_append {name : Text} (named : IsCallName name) (rest : Text) :
    trimStart (name ++ rest) = name ++ rest := by
  obtain ⟨first, later, rfl, isName⟩ := named.exists_first
  exact List.dropWhile_cons_of_neg (by simp [not_isBlank_of_isNameCharacter isName])

/-- A sign that no name has is in none. -/
theorem IsCallName.not_mem {name : Text} (named : IsCallName name) {sign : Char}
    (apart : isNameCharacter sign = false) : sign ∉ name := fun listed =>
  absurd ((named.2 sign listed).symm.trans apart) (by decide)

theorem IsCallName.seals {name : Text} (named : IsCallName name) {wanted : Char → Bool}
    (unwanted : ∀ character, isNameCharacter character = true → wanted character = false) :
    Seals wanted name :=
  seals_of_plain fun character listed =>
    ⟨isPlain_of_isNameCharacter (named.2 character listed), unwanted _ (named.2 character listed)⟩

namespace Spells

variable {text : Text} {call : Attribute}

theorem raw (spells : text.Spells call) : call.raw.toList = text := by
  cases spells with
  | name _ => exact String.toList_ofList
  | applied _ _ => exact String.toList_ofList

/-- What spells a call starts with a name character. -/
theorem exists_first (spells : text.Spells call) :
    ∃ first rest, text = first :: rest ∧ isNameCharacter first = true := by
  cases spells with
  | name named => exact named.exists_first
  | applied named _ =>
      obtain ⟨first, rest, rfl, isName⟩ := named.exists_first
      exact ⟨first, _, rfl, isName⟩

/-- What spells a call shows name characters and a parenthesis only. -/
theorem seals (spells : text.Spells call) {wanted : Char → Bool}
    (unwanted : ∀ character, isNameCharacter character = true → wanted character = false)
    (noGroup : wanted '(' = false) : Seals wanted text := by
  cases spells with
  | name named => exact named.seals unwanted
  | applied named balanced => exact (named.seals unwanted).append (.group rfl noGroup balanced)

theorem ends (spells : text.Spells call) {last : Char} (isLast : text.getLast? = some last) :
    isNameCharacter last = true ∨ last = ')' := by
  cases spells with
  | name named => exact .inl (named.2 last (List.mem_of_getLast? isLast))
  | applied _ _ =>
      rw [List.getLast?_append, ← List.cons_append, List.getLast?_append] at isLast
      cases isLast
      exact .inr rfl

/-- What spells a call has no blanks at its ends. -/
theorem trimmed (spells : text.Spells call) : text.trim = text := by
  apply trim_eq_self
  · obtain ⟨first, rest, rfl, isName⟩ := spells.exists_first
    rintro _ ⟨⟩
    exact not_isBlank_of_isNameCharacter isName
  · intro last isLast
    rcases spells.ends isLast with isName | rfl
    · exact not_isBlank_of_isNameCharacter isName
    · decide

end Spells

/-! ## Reading a call -/

/-- A text goes on with a call where it starts with a name character or a parenthesis. -/
def GoesOn (text : Text) : Prop :=
  ∃ next, text.head? = some next ∧ (isNameCharacter next = true ∨ next = '(')

theorem not_goesOn_nil : ¬GoesOn [] := by
  rintro ⟨next, starts, _⟩
  contradiction

theorem not_goesOn_cons {next : Char} {rest : Text} (noName : isNameCharacter next = false)
    (noGroup : next ≠ '(') : ¬GoesOn (next :: rest) := by
  rintro ⟨_, ⟨⟩, isName | isGroup⟩
  · exact absurd (isName.symm.trans noName) (by decide)
  · exact noGroup isGroup

/-- What is kept at the start of a text ends with the text, if nothing that is kept follows. -/
theorem span_append {keeps : Char → Bool} (text : Text) {rest : Text}
    (ends : ∀ next, rest.head? = some next → keeps next = false) :
    (text ++ rest).takeWhile keeps = text.takeWhile keeps ∧
      (text ++ rest).dropWhile keeps = text.dropWhile keeps ++ rest := by
  have noneKept : rest.takeWhile keeps = [] ∧ rest.dropWhile keeps = rest := by
    cases rest with
    | nil => exact ⟨rfl, rfl⟩
    | cons next later =>
        have notKept : ¬keeps next = true := by simp [ends next rfl]
        exact ⟨List.takeWhile_cons_of_neg notKept, List.dropWhile_cons_of_neg notKept⟩
  constructor
  · rw [List.takeWhile_append, noneKept.1]
    split
    · next whole =>
        rw [List.append_nil]
        exact ((List.takeWhile_prefix keeps).eq_of_length whole).symm
    · rfl
  · rw [List.dropWhile_append, noneKept.2]
    split
    · next none => rw [List.isEmpty_iff.mp none, List.nil_append]
    · rfl

/-- A name is read up to the first character that is not of it. -/
theorem IsCallName.span {name rest : Text} (named : IsCallName name)
    (ends : ∀ next, rest.head? = some next → isNameCharacter next = false) :
    (name ++ rest).takeWhile isNameCharacter = name ∧
      (name ++ rest).dropWhile isNameCharacter = rest := by
  have whole : name.takeWhile isNameCharacter = name := List.takeWhile_eq_self_iff.mpr named.2
  have none : name.dropWhile isNameCharacter = [] := List.dropWhile_eq_nil_iff.mpr named.2
  rw [(span_append name ends).1, (span_append name ends).2, whole, none]
  exact ⟨rfl, rfl⟩

/-- A call is a name, with the pieces of a balanced group as its arguments if one follows. -/
theorem readCall?_eq (text : Text) :
    text.readCall? =
      let name : Text := text.takeWhile isNameCharacter
      let afterName : Text := text.dropWhile isNameCharacter
      let bare : Attribute :=
        { name := String.ofList name, arguments := [], raw := String.ofList name }
      if name.isEmpty then none
      else
        match afterName with
        | '(' :: group =>
            match readGroup '(' group with
            | some (inner, following) =>
                some ({ bare with
                  arguments := (inner.pieces ',').map String.ofList
                  raw := String.ofList (name ++ '(' :: inner ++ [')']) }, following)
            | none => some (bare, afterName)
        | _ => some (bare, afterName) := by
  simp only [readCall?]
  refine if_congr Iff.rfl rfl ?_
  generalize text.dropWhile isNameCharacter = afterName
  by_cases opens : ∃ group, afterName = '(' :: group
  · obtain ⟨group, rfl⟩ := opens
    cases grouped : readGroup '(' group with
    | some read =>
        obtain ⟨inner, following⟩ := read
        obtain ⟨balanced, rfl⟩ := (readGroup_eq_some_iff rfl).mp grouped
        obtain ⟨divided, parts⟩ := takeArguments_of_isBalanced balanced following
        obtain ⟨taken, behind⟩ := Prod.mk.inj parts
        simp only [divided, taken, behind, grouped, pieces]
    | none =>
        simp only [grouped]
        split
        · next following behind =>
            have parts : (takeArguments group).2.parts =
                ((takeArguments group).2.taken, ')' :: following) := by rw [Front.parts, behind]
            rw [(readGroup_eq_some_iff rfl).mpr (takeArguments_eq_iff.mp parts)] at grouped
            contradiction
        · rfl
  · have noGroup : ∀ group, afterName ≠ '(' :: group := not_exists.mp opens
    simp

/-- A call is read where a text spells it and does not go on with it. -/
theorem readCall?_of_spells {text following : Text} {call : Attribute} (spells : text.Spells call)
    (ends : ¬following.GoesOn) : readCall? (text ++ following) = some (call, following) := by
  cases spells with
  | name named =>
      obtain ⟨taken, dropped⟩ := named.span fun next starts =>
        Bool.eq_false_iff.mpr fun isName => ends ⟨next, starts, .inl isName⟩
      simp only [readCall?_eq, taken, dropped, List.isEmpty_iff, named.1, if_false]
      split
      · exact absurd ⟨'(', rfl, .inr rfl⟩ ends
      · rfl
  | @applied name inner named balanced =>
      have grouped : readGroup '(' (inner ++ ')' :: following) = some (inner, following) :=
        (readGroup_eq_some_iff rfl).mpr ⟨balanced, rfl⟩
      have whole : name ++ '(' :: (inner ++ [')']) ++ following =
          name ++ '(' :: (inner ++ ')' :: following) := by
        simp
      obtain ⟨taken, dropped⟩ := @IsCallName.span name ('(' :: (inner ++ ')' :: following)) named
        (by rintro _ ⟨⟩; decide)
      rw [whole]
      simp [readCall?_eq, taken, dropped, named.1, grouped]

/-- What is read as a call spells it. -/
theorem spells_of_readCall? {text following : Text} {call : Attribute}
    (isRead : text.readCall? = some (call, following)) :
    ∃ spelled, text = spelled ++ following ∧ spelled.Spells call := by
  have whole : text.takeWhile isNameCharacter ++ text.dropWhile isNameCharacter = text :=
    List.takeWhile_append_dropWhile
  simp only [readCall?_eq] at isRead
  split at isRead
  · contradiction
  · next filled =>
      have named : IsCallName (text.takeWhile isNameCharacter) :=
        ⟨by simpa using filled, fun _ listed => List.mem_takeWhile_imp listed⟩
      split at isRead
      · next group afterName =>
          split at isRead
          · next inner rest inGroup =>
              obtain ⟨balanced, rfl⟩ := (readGroup_eq_some_iff rfl).mp inGroup
              cases isRead
              refine ⟨text.takeWhile isNameCharacter ++ '(' :: (inner ++ [')']), ?_, ?_⟩
              · rw [afterName] at whole
                simp [whole]
              · simpa using Spells.applied named balanced
          · cases isRead
            exact ⟨_, whole.symm, .name named⟩
      · cases isRead
        exact ⟨_, whole.symm, .name named⟩

/-- A text spells the call that is read from all of it. -/
theorem spells_iff {text : Text} {call : Attribute} :
    text.Spells call ↔ text.readCall? = some (call, []) := by
  constructor
  · intro spells
    have isRead := readCall?_of_spells spells not_goesOn_nil
    rwa [List.append_nil] at isRead
  · intro isRead
    obtain ⟨spelled, rfl, spells⟩ := spells_of_readCall? isRead
    rwa [List.append_nil]

instance (text : Text) (call : Attribute) : Decidable (text.Spells call) :=
  decidable_of_iff _ spells_iff.symm

/-- A text spells one call at most. -/
theorem Spells.unique {text : Text} {call other : Attribute} (spells : text.Spells call)
    (spellsOther : text.Spells other) : call = other := by
  cases (spells_iff.mp spells).symm.trans (spells_iff.mp spellsOther)
  rfl

end Text

end SchemaMarkup
