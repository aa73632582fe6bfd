import Mathlib.Data.List.Induction
import Mathlib.Data.Nat.Digits.Defs
import SchemaMarkup.Text.Numeral

/-!
# What numerals denote

`Numeral.Denotes` says of a text which number it stands for: the text is made of digits, behind a
`+` or alone, and the number is the one that these denote by their places. The reader adds up the
digits from the left, and takes what comes out as long as it fits 32 bits
(`Numeral.read?_eq_some_iff`). Leading zeros are digits like others, so every number has many
numerals; the one that is printed is among them (`Numeral.denotes_toDigits`).
-/

namespace SchemaMarkup.Numeral

variable {text : Text} {number : UInt32} {digits : List (Fin 10)} {character : Char}

/-- The characters of some digits, the most significant digit first. -/
def spell (digits : List (Fin 10)) : Text :=
  digits.map fun digit : Fin 10 => Nat.digitChar digit

/-- The number that some digits denote in base ten. -/
def denoted (digits : List (Fin 10)) : Nat :=
  Nat.ofDigits 10 (digits.reverse.map Fin.val)

/-- A text of at least one digit, behind a `+` or alone, stands for the number that the digits
denote. -/
inductive Denotes : Text → Nat → Prop where
  | plain {digits : List (Fin 10)} (filled : digits ≠ []) :
      Denotes (spell digits) (denoted digits)
  | signed {digits : List (Fin 10)} (filled : digits ≠ []) :
      Denotes ('+' :: spell digits) (denoted digits)

/-- A text stands for a number that fits 32 bits. -/
def IsNumeral (text : Text) : Prop :=
  ∃ number, Denotes text number ∧ number ≤ 4294967295

/-! ## Digits -/

theorem denoted_concat (digits : List (Fin 10)) (digit : Fin 10) :
    denoted (digits ++ [digit]) = 10 * denoted digits + digit := by
  rw [denoted, List.reverse_append, List.reverse_singleton, List.singleton_append, List.map_cons,
    Nat.ofDigits_cons, denoted, Nat.add_comm]

theorem digitValue_digitChar (digit : Fin 10) : digitValue (Nat.digitChar digit) = digit := by
  revert digit
  decide

/-- The digits of a text are added up to the number that they denote. -/
theorem value_spell (digits : List (Fin 10)) : value (spell digits) = denoted digits := by
  induction digits using List.reverseRecOn with
  | nil => rfl
  | append_singleton digits digit inductionHypothesis =>
      have split : spell (digits ++ [digit]) = spell digits ++ [Nat.digitChar digit] :=
        List.map_append
      rw [denoted_concat, ← inductionHypothesis, split, value, List.foldl_append, ← value,
        List.foldl_cons, List.foldl_nil, digitValue_digitChar]

theorem isDigit_of_mem_spell (listed : character ∈ spell digits) : character.isDigit = true := by
  obtain ⟨digit, -, rfl⟩ := List.mem_map.mp listed
  rw [Nat.isDigit_digitChar, decide_eq_true digit.isLt]

theorem exists_digitChar (isDigit : character.isDigit = true) :
    ∃ digit : Fin 10, Nat.digitChar digit = character := by
  have range : 48 ≤ character.toNat ∧ character.toNat ≤ 57 := Char.isDigit_iff_toNat.mp isDigit
  have bounded : character.toNat - 48 < 10 := by omega
  refine ⟨⟨character.toNat - 48, bounded⟩, Char.toNat_inj.mp ?_⟩
  rw [Nat.toNat_digitChar_of_lt_ten bounded]
  exact Nat.add_sub_cancel' range.1

/-- What is made of digit characters is the text of some digits. -/
theorem exists_spell (digital : ∀ character ∈ text, character.isDigit = true) :
    ∃ digits, spell digits = text := by
  induction text with
  | nil => exact ⟨[], rfl⟩
  | cons first rest inductionHypothesis =>
      obtain ⟨digit, isFirst⟩ := exists_digitChar (digital first List.mem_cons_self)
      obtain ⟨digits, isRest⟩ := inductionHypothesis fun character listed =>
        digital character (List.mem_cons_of_mem _ listed)
      exact ⟨digit :: digits, congrArg₂ List.cons isFirst isRest⟩

/-! ## Reading -/

theorem unsigned_spell (digits : List (Fin 10)) : unsigned (spell digits) = spell digits := by
  unfold unsigned
  split
  · next rest signed =>
      have listed : '+' ∈ spell digits := signed ▸ List.mem_cons_self
      exact absurd (isDigit_of_mem_spell listed) (by decide)
  · rfl

/-- A text denotes a number if there are digits behind its sign, which denote it. -/
theorem denotes_iff {number : Nat} :
    Denotes text number ↔
      ∃ digits, digits ≠ [] ∧ unsigned text = spell digits ∧ denoted digits = number := by
  constructor
  · rintro (⟨filled⟩ | ⟨filled⟩)
    · exact ⟨_, filled, unsigned_spell _, rfl⟩
    · exact ⟨_, filled, rfl, rfl⟩
  · rintro ⟨digits, filled, isText, rfl⟩
    unfold unsigned at isText
    split at isText
    · exact isText ▸ .signed filled
    · exact isText ▸ .plain filled

/-- The reader takes the numerals of numbers that fit, as these numbers. -/
theorem read?_eq_some_iff : read? text = some number ↔ Denotes text number.toNat := by
  rw [denotes_iff]
  constructor
  · intro isRead
    simp only [read?, Option.ite_none_right_eq_some, Bool.and_eq_true, decide_eq_true_eq,
      List.all_eq_true, Option.some.injEq, Bool.not_eq_true', List.isEmpty_eq_false_iff] at isRead
    obtain ⟨⟨⟨filled, digital⟩, fits⟩, isNumber⟩ := isRead
    obtain ⟨digits, isText⟩ := exists_spell digital
    refine ⟨digits, ?_, isText.symm, ?_⟩
    · rintro rfl
      exact filled isText.symm
    · rw [← value_spell, isText, ← isNumber, UInt32.toNat_ofNat_of_lt' fits]
  · rintro ⟨digits, filled, isText, denotes⟩
    have nonempty : (!(spell digits).isEmpty) = true := by
      simpa [spell] using filled
    have digital : (spell digits).all Char.isDigit = true :=
      List.all_eq_true.mpr fun _ => isDigit_of_mem_spell
    simp only [read?, isText, value_spell, denotes, nonempty, digital,
      decide_eq_true number.toNat_lt_size, Bool.and_self, if_true, UInt32.ofNat_toNat]

/-- The digits that are printed for a number denote it. -/
theorem denotes_toDigits (number : Nat) : Denotes (Nat.toDigits 10 number) number := by
  have digital : ∀ character ∈ Nat.toDigits 10 number, character.isDigit = true :=
    fun _ listed => Nat.isDigit_of_mem_toDigits (by decide) (by decide) listed
  obtain ⟨digits, isText⟩ := exists_spell digital
  have denotes : denoted digits = number := by
    rw [← value_spell, isText]
    exact Nat.ofDigitChars_toDigits (by decide) (by decide)
  have filled : digits ≠ [] := by
    rintro rfl
    exact Nat.toDigits_ne_nil isText.symm
  rw [← isText, ← denotes]
  exact .plain filled

/-- Numbers of 32 bits are those up to the bound, and have a type of their own. -/
theorem isNumeral_iff : IsNumeral text ↔ ∃ number : UInt32, Denotes text number.toNat := by
  constructor
  · rintro ⟨number, denotes, fits⟩
    refine ⟨UInt32.ofNat number, ?_⟩
    rwa [UInt32.toNat_ofNat_of_lt' (Nat.lt_succ_of_le fits)]
  · rintro ⟨number, denotes⟩
    exact ⟨number.toNat, denotes, Nat.le_of_lt_succ number.toNat_lt_size⟩

/-! ## Characters -/

/-- A numeral is made of digits and of the sign. -/
theorem Denotes.not_mem {number : Nat} (denotes : Denotes text number)
    (noDigit : character.isDigit = false) (noSign : character ≠ '+') : character ∉ text := by
  have notSpelt : ∀ digits, character ∉ spell digits := fun digits listed => by
    rw [isDigit_of_mem_spell listed] at noDigit
    contradiction
  cases denotes with
  | plain => exact notSpelt _
  | signed => exact List.not_mem_cons_of_ne_of_not_mem noSign (notSpelt _)

/-- A numeral has no letters, so it is the same in lower case. -/
theorem Denotes.lowered {number : Nat} (denotes : Denotes text number) :
    text.map Char.toLower = text := by
  have spelt : ∀ digits, (spell digits).map Char.toLower = spell digits := by
    intro digits
    have lowered : ∀ digit : Fin 10, (Nat.digitChar digit).toLower = Nat.digitChar digit := by
      decide
    rw [spell, List.map_map]
    exact List.map_congr_left fun digit _ => lowered digit
  cases denotes with
  | plain => exact spelt _
  | signed => exact congrArg _ (spelt _)

end SchemaMarkup.Numeral
