import Mathlib.Data.List.DropRight
import Mathlib.Data.List.Forall2
import SchemaMarkup.Proofs.Outcome
import SchemaMarkup.Proofs.Reading.CallSpelling

/-!
# Lists and runs of calls

A list of calls is read one call at a time, and a run of calls too. Both readers agree with the
splitter: a list is read if each piece between its top-level commas spells a call
(`Text.readCallList_eq_ok_iff`). The raw texts of the calls that were read stand in the text in
order (`Text.StandIn`). They can be written as a list or as a run again, and the calls are read
from it as they were (`Text.callList_intercalate`, `Text.callRun_intercalate`).
-/

namespace SchemaMarkup

namespace Text

/-! ## Ends of calls -/

/-- Where nothing but blanks is left, or a comma is next. -/
def EndsItem (text : Text) : Prop :=
  text.trimStart = [] ∨ ∃ more, text.trimStart = ',' :: more

/-- What ends an item does not go on with a call. -/
theorem EndsItem.not_goesOn {text : Text} (ends : text.EndsItem) : ¬text.GoesOn := by
  cases text with
  | nil => exact not_goesOn_nil
  | cons next rest =>
      by_cases blank : isBlank next = true
      · apply not_goesOn_cons
        · rw [← Bool.not_eq_true]
          intro isName
          exact absurd (blank.symm.trans (not_isBlank_of_isNameCharacter isName)) (by decide)
        · rintro rfl
          exact absurd blank (by decide)
      · rw [EndsItem, trimStart, List.dropWhile_cons_of_neg blank] at ends
        obtain none | ⟨more, comma⟩ := ends
        · contradiction
        · cases comma
          exact not_goesOn_cons (by decide) (by decide)

/-- Separators in front of a list add no piece to it. -/
theorem pieces_dropWhile (text : Text) :
    pieces ',' (text.dropWhile isCallSeparator) = text.pieces ',' := by
  induction text with
  | nil => rfl
  | cons character rest inductionHypothesis =>
      by_cases separates : isCallSeparator character = true
      · rw [List.dropWhile_cons_of_pos separates, inductionHypothesis]
        by_cases comma : character = ','
        · rw [comma, pieces_cons_separator rest (by decide)]
        · have blank : isBlank character = true := by
            simpa [isCallSeparator, comma] using separates
          rw [pieces_cons_blank rest blank comma]
      · rw [List.dropWhile_cons_of_neg separates]

/-- A text that starts with no separator starts with its first piece, which a comma or the end
follows. -/
theorem exists_first_piece {first : Char} {rest : Text}
    (starts : isCallSeparator first = false) :
    ∃ piece others, ∃ following : Text, pieces ',' (first :: rest) = piece :: others ∧
      first :: rest = piece ++ following ∧ following.EndsItem := by
  obtain ⟨notComma, filled⟩ := Bool.or_eq_false_iff.mp starts
  -- The first piece ends at the first comma at top level, if there is one.
  rcases hidden_or_first ',' {} (first :: rest) with hidden | ⟨front, later, whole, hidden, atTop⟩
  · obtain ⟨notBlank, blanks, whole, blank⟩ := @exists_trim_append first rest filled
    refine ⟨trim (first :: rest), [], blanks, ?_, whole, .inl ?_⟩
    · rw [pieces_of_hidden hidden, if_neg notBlank]
    · exact List.dropWhile_eq_nil_iff.mpr blank
  · cases front with
    | nil =>
        obtain ⟨rfl, _⟩ := List.cons.inj whole
        contradiction
    | cons _ front =>
        obtain ⟨rfl, _⟩ := List.cons.inj whole
        obtain ⟨notBlank, blanks, shape, blank⟩ := @exists_trim_append first front filled
        rw [whole]
        refine ⟨trim (first :: front), pieces ',' later, blanks ++ ',' :: later, ?_, ?_,
          .inr ⟨later, ?_⟩⟩
        · rw [pieces_append later hidden atTop (by decide), pieces_of_hidden hidden,
            if_neg notBlank]
          rfl
        · rw [← List.append_assoc, ← shape]
        · exact trimStart_of_blank _ blank

/-- The pieces of a text that starts with what spells a call: the call alone where the text ends,
and the call before the pieces behind the comma. -/
theorem Spells.pieces {text following : Text} {call : Attribute} (spells : text.Spells call) :
    (following.trimStart = [] → Text.pieces ',' (text ++ following) = [text]) ∧
      ∀ more, following.trimStart = ',' :: more →
        Text.pieces ',' (text ++ following) = text :: Text.pieces ',' more := by
  obtain ⟨blanks, whole, blank⟩ := exists_trimStart_append following
  have sealed : Seals (· == ',') (text ++ blanks) :=
    (spells.seals (fun _ => beq_of_isNameCharacter (by decide)) rfl).append
      (seals_of_blank (by decide) blank)
  have alone : Text.pieces ',' (text ++ blanks) = [text] := by
    obtain ⟨first, rest, shape, _⟩ := spells.exists_first
    rw [pieces_of_hidden sealed.hides, trim_append_blank text blank, spells.trimmed,
      if_neg (by simp [shape])]
  constructor
  · intro ends
    rw [whole, ends, List.append_nil, alone]
  · intro more comma
    rw [whole, comma, ← List.append_assoc,
      pieces_append more sealed.hides sealed.reads.2 (by decide), alone]
    rfl

/-! ## Lists of calls -/

/-- Where a text does not start with a comma, the separators in front of it are blanks. -/
theorem dropWhile_of_noComma {text : Text} (noComma : ∀ more, text.trimStart ≠ ',' :: more) :
    text.dropWhile isCallSeparator = text.trimStart := by
  induction text with
  | nil => rfl
  | cons character rest inductionHypothesis =>
      by_cases blank : isBlank character = true
      · have separates : isCallSeparator character = true := by simp [isCallSeparator, blank]
        rw [trimStart, List.dropWhile_cons_of_pos blank] at noComma ⊢
        rw [List.dropWhile_cons_of_pos separates]
        exact inductionHypothesis noComma
      · rw [trimStart, List.dropWhile_cons_of_neg blank] at noComma ⊢
        refine List.dropWhile_cons_of_neg ?_
        have notComma : character ≠ ',' := fun comma => noComma rest (by rw [comma])
        simp [isCallSeparator, blank, notComma]

/-- The separators in front of a text are its blanks and the separators behind them. -/
theorem dropWhile_trimStart (text : Text) :
    text.trimStart.dropWhile isCallSeparator = text.dropWhile isCallSeparator := by
  induction text with
  | nil => rfl
  | cons character rest inductionHypothesis =>
      by_cases blank : isBlank character = true
      · have separates : isCallSeparator character = true := by simp [isCallSeparator, blank]
        rw [trimStart, List.dropWhile_cons_of_pos blank, List.dropWhile_cons_of_pos separates]
        exact inductionHypothesis
      · rw [trimStart, List.dropWhile_cons_of_neg blank]

/-- Commas are taken off a text together with all separators around them. -/
theorem takeCommas?_spec (text : Text) :
    (text.takeCommas? = none → ∀ more, text.trimStart ≠ ',' :: more) ∧
      ∀ start, text.takeCommas? = some start →
        start = text.dropWhile isCallSeparator ∧ ∃ more, text.trimStart = ',' :: more := by
  fun_induction takeCommas? text with
  | case1 text rest comma shorter inductionHypothesis =>
      have passed : text.dropWhile isCallSeparator = rest.dropWhile isCallSeparator := by
        rw [← dropWhile_trimStart, comma]
        rfl
      refine ⟨fun none => by contradiction, ?_⟩
      rintro start ⟨⟩
      refine ⟨?_, rest, comma⟩
      rw [passed, ← dropWhile_trimStart rest]
      cases again : takeCommas? (trimStart rest) with
      | none =>
          rw [dropWhile_of_noComma (inductionHypothesis.1 again)]
          exact (List.dropWhile_idempotent isBlank _).symm
      | some later => exact (inductionHypothesis.2 later again).1
  | case2 text noComma => exact ⟨fun _ => noComma, fun _ taken => by contradiction⟩

/-- A text without separators in front, or nothing. -/
theorem eq_nil_or_cons_of_dropWhile (text : Text) :
    text.dropWhile isCallSeparator = [] ∨ ∃ first rest,
      text.dropWhile isCallSeparator = first :: rest ∧ isCallSeparator first = false := by
  cases start : text.dropWhile isCallSeparator with
  | nil => exact .inl rfl
  | cons first rest =>
      have notDropped := List.head?_dropWhile_not isCallSeparator text
      rw [start] at notDropped
      exact .inr ⟨first, rest, rfl, by simpa using notDropped⟩

/-- Behind the commas in front of a text nothing but blanks comes before the first item. -/
theorem dropWhile_behind_commas (text : Text) :
    (text.takeCommas?.getD text).dropWhile isCallSeparator =
        (text.takeCommas?.getD text).trimStart ∧
      pieces ',' (text.takeCommas?.getD text) = text.pieces ',' := by
  cases taken : text.takeCommas? with
  | none => exact ⟨dropWhile_of_noComma ((takeCommas?_spec text).1 taken), rfl⟩
  | some start =>
      obtain ⟨rfl, _⟩ := (takeCommas?_spec text).2 start taken
      refine ⟨?_, pieces_dropWhile text⟩
      rw [Option.getD_some]
      rcases eq_nil_or_cons_of_dropWhile text with nothing | ⟨first, rest, isStart, starts⟩
      · rw [nothing]
        rfl
      · have filled : ¬isBlank first = true := by simp [(Bool.or_eq_false_iff.mp starts).2]
        rw [isStart, trimStart, List.dropWhile_cons_of_neg filled,
          List.dropWhile_cons_of_neg (by simp [starts])]

/-- A call is read from the start of a list whose pieces spell calls, up to the end of its item. -/
theorem exists_call_of_pieces {first : Char} {rest : Text} {calls : List Attribute}
    (starts : isCallSeparator first = false)
    (spell : List.Forall₂ Spells (pieces ',' (first :: rest)) calls) :
    ∃ call, ∃ following : Text, readCall? (first :: rest) = some (call, following) ∧
      following.EndsItem := by
  obtain ⟨piece, others, following, isFirst, whole, ends⟩ := exists_first_piece starts
  rw [isFirst] at spell
  obtain ⟨call, later, spells, _, rfl⟩ := List.forall₂_cons_left_iff.mp spell
  exact ⟨call, following, by rw [whole, readCall?_of_spells spells ends.not_goesOn], ends⟩

/-- A list whose first item is read is a list of that call and of those that follow it, each behind
a comma. -/
theorem spell_iff_of_item {start following : Text} {call : Attribute} {calls : List Attribute}
    (apart : start.dropWhile isCallSeparator = start.trimStart)
    (item : start.readItem? = some (call, following)) :
    List.Forall₂ Spells (start.pieces ',') calls ↔ ∃ others, calls = call :: others ∧
      (following = [] ∧ others = [] ∨
        ∃ more, following = ',' :: more ∧ List.Forall₂ Spells (pieces ',' more) others) := by
  obtain ⟨⟨_, behind⟩, called, same⟩ := Option.map_eq_some_iff.mp item
  cases same
  obtain ⟨spelled, isStart, spells⟩ := spells_of_readCall? called
  rw [← pieces_dropWhile, apart, isStart]
  constructor
  · intro spell
    obtain ⟨first, rest, shape, isName⟩ := spells.exists_first
    have starts : isCallSeparator first = false := by
      simp [isCallSeparator, not_isBlank_of_isNameCharacter isName,
        beq_of_isNameCharacter (by decide : isNameCharacter ',' = false) isName]
    have whole : spelled ++ behind = first :: (rest ++ behind) := by rw [shape, List.cons_append]
    have spellHere := spell
    rw [whole] at spellHere
    obtain ⟨found, following, calledHere, ends⟩ := exists_call_of_pieces starts spellHere
    rw [← whole, ← isStart, called] at calledHere
    cases calledHere
    rcases ends with ends | ⟨more, comma⟩
    · rw [spells.pieces.1 ends] at spell
      obtain ⟨other, others, spellsOther, none, rfl⟩ := List.forall₂_cons_left_iff.mp spell
      rw [spells.unique spellsOther]
      exact ⟨others, rfl, .inl ⟨ends, List.forall₂_nil_left_iff.mp none⟩⟩
    · rw [spells.pieces.2 more comma] at spell
      obtain ⟨other, others, spellsOther, later, rfl⟩ := List.forall₂_cons_left_iff.mp spell
      rw [spells.unique spellsOther]
      exact ⟨others, rfl, .inr ⟨more, comma, later⟩⟩
  · rintro ⟨others, rfl, ⟨ends, rfl⟩ | ⟨more, comma, later⟩⟩
    · rw [spells.pieces.1 ends]
      exact .cons spells .nil
    · rw [spells.pieces.2 more comma]
      exact .cons spells later

/-- Where no item is read there is no list but the empty one. -/
theorem spell_iff_of_noItem {start : Text} {calls : List Attribute}
    (apart : start.dropWhile isCallSeparator = start.trimStart)
    (noItem : start.readItem? = none) :
    List.Forall₂ Spells (start.pieces ',') calls ↔ start.trimStart = [] ∧ calls = [] := by
  rw [← pieces_dropWhile, ← apart]
  rcases eq_nil_or_cons_of_dropWhile start with nothing | ⟨first, rest, isStart, starts⟩
  · simp [nothing]
  · rw [isStart]
    refine ⟨fun spell => ?_, fun ⟨empty, _⟩ => by contradiction⟩
    obtain ⟨call, following, called, _⟩ := exists_call_of_pieces starts spell
    rw [readItem?, ← apart, isStart, called] at noItem
    contradiction

/-- Behind the commas that a text starts with, its pieces are those of what is left of it. -/
theorem spell_iff_of_commas {text start : Text} {calls : List Attribute}
    (trimmed : text.trimStart = text) (commas : text.takeCommas? = some start) :
    (text = [] ∧ calls = [] ∨
      ∃ more, text = ',' :: more ∧ List.Forall₂ Spells (pieces ',' more) calls) ↔
        List.Forall₂ Spells (start.pieces ',') calls := by
  obtain ⟨_, more, comma⟩ := (takeCommas?_spec text).2 start commas
  have behind := (dropWhile_behind_commas text).2
  rw [commas, Option.getD_some] at behind
  rw [trimmed] at comma
  subst comma
  rw [behind, pieces_cons_separator more (by decide)]
  simp

/-- What is left behind commas and behind items starts with no blank. -/
theorem trimStart_of_takeCommas? {text start : Text} (commas : text.takeCommas? = some start) :
    start.dropWhile isCallSeparator = start.trimStart ∧ start.trimStart = start := by
  have apart := (dropWhile_behind_commas text).1
  obtain ⟨rfl, _⟩ := (takeCommas?_spec text).2 start commas
  rw [commas, Option.getD_some] at apart
  exact ⟨apart, apart.symm.trans (List.dropWhile_idempotent isCallSeparator _)⟩

theorem trimStart_of_readItem? {text following : Text} {call : Attribute}
    (item : text.readItem? = some (call, following)) : following.trimStart = following := by
  obtain ⟨_, _, same⟩ := Option.map_eq_some_iff.mp item
  cases same
  exact List.dropWhile_idempotent isBlank _

/-- All of a text is read behind an item if it is empty, or a comma and a list that may be empty. -/
theorem readItems_eq_nil_iff {text : Text} {calls : List Attribute}
    (trimmed : text.trimStart = text) :
    text.readItems = (calls, []) ↔ text = [] ∧ calls = [] ∨
      ∃ more, text = ',' :: more ∧ List.Forall₂ Spells (pieces ',' more) calls := by
  fun_induction readItems text generalizing calls with
  | case1 text commas =>
      have noComma := (takeCommas?_spec text).1 commas
      rw [trimmed] at noComma
      simp only [Prod.mk.injEq, noComma, false_and, exists_false, or_false]
      rw [and_comm, @eq_comm _ calls]
  | case2 text start commas noItem =>
      obtain ⟨apart, trimmedStart⟩ := trimStart_of_takeCommas? commas
      rw [spell_iff_of_commas trimmed commas, spell_iff_of_noItem apart noItem, trimmedStart,
        Prod.mk.injEq, and_comm, @eq_comm _ calls]
  | case3 text start commas call following item _ _ others rest isRest inductionHypothesis =>
      obtain ⟨apart, _⟩ := trimStart_of_takeCommas? commas
      rw [spell_iff_of_commas trimmed commas, spell_iff_of_item apart item]
      simp only [← inductionHypothesis (trimStart_of_readItem? item), isRest, Prod.mk.injEq]
      constructor
      · rintro ⟨rfl, rfl⟩
        exact ⟨others, rfl, rfl, rfl⟩
      · rintro ⟨_, rfl, rfl, rfl⟩
        exact ⟨rfl, rfl⟩

/-- Calls are read from a list if there are any and each piece between its commas spells one. -/
theorem readCallList_eq_ok_iff {text : Text} {calls : List Attribute} :
    text.readCallList = .ok calls ↔
      calls ≠ [] ∧ List.Forall₂ Spells (text.pieces ',') calls := by
  obtain ⟨apart, samePieces⟩ := dropWhile_behind_commas text
  rw [← samePieces, readCallList]
  split
  · next noItem =>
      rw [spell_iff_of_noItem apart noItem]
      simp +contextual
  · next call following item =>
      rw [spell_iff_of_item apart item]
      simp only [← readItems_eq_nil_iff (trimStart_of_readItem? item)]
      split
      · next others areRead =>
          rw [areRead]
          constructor
          · rintro ⟨⟩
            exact ⟨List.cons_ne_nil _ _, others, rfl, rfl⟩
          · rintro ⟨_, _, rfl, same⟩
            cases same
            rfl
      · next others stray filled areRead =>
          refine ⟨fun isRead => by contradiction, ?_⟩
          rintro ⟨_, _, _, same⟩
          rw [areRead, Prod.mk.injEq] at same
          exact absurd same.2 filled

/-- A text is balanced if its pieces are. -/
theorem isBalanced_of_pieces {text : Text}
    (balanced : ∀ piece ∈ text.pieces ',', piece.isBalanced = true) : text.isBalanced = true := by
  rcases hidden_or_first ',' {} text with hidden | ⟨front, later, rfl, hidden, atTop⟩
  · apply isBalanced_of_trim
    rw [pieces_of_hidden hidden] at balanced
    split at balanced
    · next blank => rw [blank]; rfl
    · exact balanced _ (List.mem_singleton_self _)
  · rw [pieces_append later hidden atTop (by decide), List.forall_mem_append] at balanced
    have before := isBalanced_iff_wellNested.mp (isBalanced_of_pieces balanced.1)
    have behind := isBalanced_iff_wellNested.mp (isBalanced_of_pieces balanced.2)
    exact isBalanced_iff_wellNested.mpr (before.append (.plain (by decide) behind))
termination_by text.length

/-- Calls are read from a list if there are any and each piece of the text spells one. -/
theorem callList_eq_ok_iff {text : Text} {calls : List Attribute} :
    text.callList = .ok calls ↔
      calls ≠ [] ∧ List.Forall₂ Spells (text.pieces ',') calls :=
  mapError_eq_ok_iff.trans readCallList_eq_ok_iff

/-- A text from which a list of calls is read is balanced. -/
theorem isBalanced_of_callList {text : Text} {calls : List Attribute}
    (areRead : text.callList = .ok calls) : text.isBalanced = true := by
  refine isBalanced_of_pieces fun piece listed => ?_
  obtain ⟨call, spells⟩ :=
    exists_forall₂_iff.mp ⟨calls, (callList_eq_ok_iff.mp areRead).2⟩ piece listed
  exact (@Spells.seals _ _ spells (fun _ => false) (fun _ _ => rfl) rfl).isBalanced

/-- The reader of lists agrees with the splitter: a text is a list of calls if it is balanced, has
a piece, and each of its pieces is a name or a name with balanced arguments. The calls are those
that the pieces spell, in their order. -/
theorem callList_agrees_with_pieces (text : Text) :
    ((∃ calls, text.callList = .ok calls) ↔
      text.isBalanced = true ∧ text.pieces ',' ≠ [] ∧
        ∀ piece ∈ text.pieces ',', ∃ call, Spells piece call) ∧
    ∀ calls, text.callList = .ok calls ↔
      text.isBalanced = true ∧ text.pieces ',' ≠ [] ∧
        List.Forall₂ Spells (text.pieces ',') calls := by
  have filled_iff : ∀ {calls}, List.Forall₂ Spells (text.pieces ',') calls →
      (calls ≠ [] ↔ text.pieces ',' ≠ []) := fun spell => by
    rw [← List.length_pos_iff, ← List.length_pos_iff, spell.length_eq]
  have isRead_iff : ∀ calls, text.callList = .ok calls ↔
      text.isBalanced = true ∧ text.pieces ',' ≠ [] ∧
        List.Forall₂ Spells (text.pieces ',') calls := by
    intro calls
    constructor
    · intro areRead
      obtain ⟨filled, spell⟩ := callList_eq_ok_iff.mp areRead
      exact ⟨isBalanced_of_callList areRead, (filled_iff spell).mp filled, spell⟩
    · rintro ⟨_, filled, spell⟩
      exact callList_eq_ok_iff.mpr ⟨(filled_iff spell).mpr filled, spell⟩
  refine ⟨?_, isRead_iff⟩
  simp only [isRead_iff, exists_and_left, exists_forall₂_iff]

/-- A list with a comma in a string, a blank piece and blanks around its calls. -/
def spacedList : Text :=
  " max(10, \"a,b)\") ,, db.type([x]) ".toList

/-- The calls of the list. -/
def spacedCalls : List Attribute :=
  [{ name := "max", arguments := ["10", "\"a,b)\""], raw := "max(10, \"a,b)\")" },
    { name := "db.type", arguments := ["[x]"], raw := "db.type([x])" }]

theorem spacedList_spells :
    spacedList.isBalanced = true ∧ List.Forall₂ Spells (spacedList.pieces ',') spacedCalls ∧
      spacedList.callList = .ok spacedCalls := by
  have balanced : spacedList.isBalanced = true := by decide +kernel
  have spell : List.Forall₂ Spells (spacedList.pieces ',') spacedCalls := by decide +kernel
  exact ⟨balanced, spell,
    ((callList_agrees_with_pieces spacedList).2 _).mpr ⟨balanced, by decide +kernel, spell⟩⟩

/-! ## Raw texts -/

/-- The texts stand in a text, one behind the other. -/
inductive Slices : List Text → Text → Prop where
  | nil (text : Text) : Slices [] text
  | cons (gap : Text) {slice following : Text} {slices : List Text}
      (later : Slices slices following) : Slices (slice :: slices) (gap ++ (slice ++ following))

theorem Slices.behind {slices : List Text} {text : Text} (slicing : Slices slices text)
    (gap : Text) : Slices slices (gap ++ text) := by
  cases slicing with
  | nil => exact .nil _
  | cons first later =>
      rw [← List.append_assoc]
      exact .cons (gap ++ first) later

/-- The raw texts of calls. -/
def rawTexts (calls : List Attribute) : List Text :=
  calls.map fun call => call.raw.toList

/-- The calls are spelled by their raw texts, and these stand in the text in order. -/
structure StandIn (calls : List Attribute) (text : Text) : Prop where
  spelled : ∀ call ∈ calls, Spells call.raw.toList call
  slices : Slices (rawTexts calls) text

namespace StandIn

theorem nil (text : Text) : StandIn [] text :=
  ⟨by simp, .nil text⟩

theorem behind {calls : List Attribute} {text : Text} (standing : StandIn calls text)
    (gap : Text) : StandIn calls (gap ++ text) :=
  ⟨standing.spelled, standing.slices.behind gap⟩

theorem of_dropWhile {calls : List Attribute} {text : Text} {drops : Char → Bool}
    (standing : StandIn calls (text.dropWhile drops)) : StandIn calls text := by
  have whole := standing.behind (text.takeWhile drops)
  rwa [List.takeWhile_append_dropWhile] at whole

/-- A call stands in the text that it is read from, before those that stand behind it. -/
theorem cons {text following : Text} {call : Attribute} {calls : List Attribute}
    (called : readCall? text = some (call, following)) (later : StandIn calls following) :
    StandIn (call :: calls) text := by
  obtain ⟨spelled, rfl, spells⟩ := spells_of_readCall? called
  have isRaw := spells.raw
  subst isRaw
  exact ⟨List.forall_mem_cons.mpr ⟨spells, later.spelled⟩, .cons [] later.slices⟩

theorem item {text following : Text} {call : Attribute} {calls : List Attribute}
    (item : readItem? text = some (call, following)) (later : StandIn calls following) :
    StandIn (call :: calls) text := by
  obtain ⟨⟨_, behind⟩, called, same⟩ := Option.map_eq_some_iff.mp item
  cases same
  exact .of_dropWhile (.cons called (.of_dropWhile later))

end StandIn

theorem standIn_of_readItems {text rest : Text} {calls : List Attribute}
    (areRead : text.readItems = (calls, rest)) : StandIn calls text := by
  fun_induction readItems text generalizing calls rest with
  | case1 text =>
      cases areRead
      exact .nil text
  | case2 text =>
      cases areRead
      exact .nil text
  | case3 text start commas call following item _ _ others rest isRest inductionHypothesis =>
      cases areRead
      obtain ⟨rfl, _⟩ := (takeCommas?_spec text).2 start commas
      exact .of_dropWhile (.item item (inductionHypothesis isRest))

theorem standIn_of_readCallRun {text : Text} {calls : List Attribute}
    (areRead : text.readCallRun = .ok calls) : StandIn calls text := by
  fun_induction readCallRun text generalizing calls
  case case1 text _ =>
    cases areRead
    exact .nil text
  case case2 rest separated call following called _ inductionHypothesis =>
    obtain ⟨others, areReadLater, rfl⟩ := map_eq_ok_iff.mp areRead
    have behindSign := (StandIn.cons called (inductionHypothesis areReadLater)).behind ['@']
    rw [List.singleton_append, ← separated] at behindSign
    exact .of_dropWhile behindSign
  case case3 => contradiction
  case case4 => contradiction

/-- Calls that were read from a list stand in it. -/
theorem standIn_of_callList {text : Text} {calls : List Attribute}
    (areRead : text.callList = .ok calls) : StandIn calls text := by
  rw [callList, mapError_eq_ok_iff, readCallList] at areRead
  have behindCommas : StandIn calls (text.takeCommas?.getD text) → StandIn calls text := by
    cases taken : text.takeCommas? with
    | none => exact id
    | some start =>
        obtain ⟨rfl, _⟩ := (takeCommas?_spec text).2 start taken
        exact .of_dropWhile
  apply behindCommas
  split at areRead
  · contradiction
  · next call following item =>
      split at areRead
      · next others areReadLater =>
          cases areRead
          exact .item item (standIn_of_readItems areReadLater)
      · contradiction

theorem isPlain_of_isCallSeparator {character : Char}
    (separates : isCallSeparator character = true) : isPlain character = true := by
  rcases Bool.or_eq_true_iff.mp separates with comma | blank
  · rw [eq_of_beq comma]
    rfl
  · exact isPlain_of_isBlank blank

/-- A text from which a run of calls is read is balanced. -/
theorem isBalanced_of_readCallRun {text : Text} {calls : List Attribute}
    (areRead : text.readCallRun = .ok calls) : text.isBalanced = true := by
  -- What stands before the first call is plain, and so is its sign.
  have separators : ∀ {text : Text}, Seals (fun _ => false) (text.takeWhile isCallSeparator) :=
    seals_of_plain fun character listed =>
      ⟨isPlain_of_isCallSeparator (List.mem_takeWhile_imp listed), rfl⟩
  have sealed : Seals (fun _ => false) text := by
    fun_induction readCallRun text generalizing calls with
    | case1 text nothing =>
        have whole := List.takeWhile_append_dropWhile (p := isCallSeparator) (l := text)
        rw [nothing, List.append_nil] at whole
        exact whole ▸ separators
    | case2 text rest separated call following called _ inductionHypothesis =>
        obtain ⟨others, areReadLater, rfl⟩ := map_eq_ok_iff.mp areRead
        obtain ⟨spelled, rfl, spells⟩ := spells_of_readCall? called
        have whole := List.takeWhile_append_dropWhile (p := isCallSeparator) (l := text)
        rw [separated] at whole
        have sealedCall := @Spells.seals _ _ spells (fun _ => false) (fun _ _ => rfl) rfl
        rw [← whole]
        exact separators.append
          (.cons (by decide) rfl (sealedCall.append (inductionHypothesis areReadLater)))
    | case3 => contradiction
    | case4 => contradiction
  exact sealed.isBalanced

/-- A check of balance in front of a run of calls changes nothing: what it refuses is refused by the
grammar, and for the same fault. -/
theorem checkBalance_bind_callRun (text : Text) :
    (text.checkBalance >>= fun _ => text.callRun) = text.callRun := by
  cases checked : text.checkBalance with
  | ok _ => rfl
  | error fault =>
      cases isRead : text.readCallRun with
      | ok calls =>
          have balanced := checkBalance_eq_ok_iff.mpr (isBalanced_of_readCallRun isRead)
          exact absurd (checked.symm.trans balanced) (by simp)
      | error rest =>
          rw [callRun, isRead]
          simp only [Except.mapError, refusal, checked]
          rfl

/-- A run of calls is read from the grammar alone. -/
theorem callRun_eq_ok_iff {text : Text} {calls : List Attribute} :
    text.callRun = .ok calls ↔ text.readCallRun = .ok calls :=
  mapError_eq_ok_iff

/-! ## Calls written again -/

variable {calls : List Attribute}

/-- Raw texts show name characters and parentheses only. -/
theorem seals_of_mem_rawTexts (spelled : ∀ call ∈ calls, Spells call.raw.toList call)
    {wanted : Char → Bool}
    (unwanted : ∀ character, isNameCharacter character = true → wanted character = false)
    (noGroup : wanted '(' = false) {item : Text} (listed : item ∈ rawTexts calls) :
    Seals wanted item := by
  obtain ⟨call, isCall, rfl⟩ := List.mem_map.mp listed
  exact (spelled call isCall).seals unwanted noGroup

theorem trimmed_of_mem_rawTexts (spelled : ∀ call ∈ calls, Spells call.raw.toList call)
    {item : Text} (listed : item ∈ rawTexts calls) : item.trim = item ∧ item ≠ [] := by
  obtain ⟨call, isCall, rfl⟩ := List.mem_map.mp listed
  obtain ⟨first, rest, whole, _⟩ := (spelled call isCall).exists_first
  exact ⟨(spelled call isCall).trimmed, by simp [whole]⟩

/-- Calls are read from a list of their raw texts. -/
theorem callList_intercalate (spelled : ∀ call ∈ calls, Spells call.raw.toList call)
    (filled : calls ≠ []) {blanks : Text}
    (blank : ∀ character ∈ blanks, isBlank character = true) :
    callList (List.intercalate (',' :: blanks) (rawTexts calls)) = .ok calls := by
  have noComma : ∀ character, isBlank character = true → character ≠ ',' := by
    rintro character isBlankHere rfl
    exact absurd isBlankHere (by decide)
  have items : pieces ',' (List.intercalate (',' :: blanks) (rawTexts calls)) = rawTexts calls := by
    refine pieces_intercalate (by decide) (fun character listed => ?_) (fun item listed => ?_)
    · exact ⟨blank character listed, noComma character (blank character listed)⟩
    · exact ⟨seals_of_mem_rawTexts spelled (fun _ => beq_of_isNameCharacter (by decide)) rfl listed,
        trimmed_of_mem_rawTexts spelled listed⟩
  rw [callList_eq_ok_iff, items, rawTexts, List.forall₂_map_left_iff, List.forall₂_same]
  exact ⟨filled, spelled⟩

/-- A run of calls ends where nothing but separators is left. -/
theorem readCallRun_of_separators {text : Text}
    (separated : text.dropWhile isCallSeparator = []) : text.readCallRun = .ok [] := by
  rw [readCallRun]
  split
  · rfl
  · next other => exact absurd (separated.symm.trans other) (by simp)
  · next filled _ => exact (filled separated).elim

/-- What follows an `@` in a run is a call or refused. -/
theorem readCallRun_of_sign {text rest : Text}
    (separated : text.dropWhile isCallSeparator = '@' :: rest) :
    text.readCallRun = match rest.readCall? with
      | some (call, following) => following.readCallRun.map (call :: ·)
      | none => .error (if rest.isEmpty then ['@'] else rest) := by
  rw [readCallRun]
  split
  · next none => exact absurd (separated.symm.trans none) (by simp)
  · next found =>
      cases separated.symm.trans found
      split
      · next called => simp only [called]
      · next noCall => simp only [noCall]
  · next noSign => exact (noSign _ separated).elim

/-- A run of calls holds nothing but calls behind an `@`. -/
theorem readCallRun_of_stray {text rest : Text} {first : Char} (other : first ≠ '@')
    (separated : text.dropWhile isCallSeparator = first :: rest) :
    text.readCallRun = .error (first :: rest) := by
  rw [readCallRun]
  split
  · next none => exact absurd (separated.symm.trans none) (by simp)
  · next found => exact absurd (List.cons.inj (separated.symm.trans found)).1 other
  · rw [separated]

theorem readCallRun_of_blank {blanks : Text}
    (blank : ∀ character ∈ blanks, isBlank character = true) : blanks.readCallRun = .ok [] :=
  readCallRun_of_separators <| List.dropWhile_eq_nil_iff.mpr fun character listed => by
    rw [isCallSeparator, blank character listed, Bool.or_true]

/-- A blank in front of a run of calls is passed over. -/
theorem readCallRun_cons_blank (text : Text) : readCallRun (' ' :: text) = text.readCallRun := by
  rw [readCallRun]
  conv_rhs => rw [readCallRun]
  rfl

/-- A call behind an `@` is read before the rest of the run. -/
theorem readCallRun_cons {raw rest : Text} {call : Attribute} (spells : raw.Spells call)
    (ends : ¬rest.GoesOn) :
    readCallRun ('@' :: (raw ++ rest)) = rest.readCallRun.map (call :: ·) := by
  rw [@readCallRun_of_sign ('@' :: (raw ++ rest)) (raw ++ rest) rfl,
    readCall?_of_spells spells ends]

/-- Calls are read from a run of their raw texts and the blanks behind it. -/
theorem readCallRun_intercalate (spelled : ∀ call ∈ calls, Spells call.raw.toList call)
    {blanks : Text} (blank : ∀ character ∈ blanks, isBlank character = true) :
    readCallRun (List.intercalate [' '] ((rawTexts calls).map ('@' :: ·)) ++ blanks) =
      .ok calls := by
  induction calls with
  | nil => exact readCallRun_of_blank blank
  | cons call others inductionHypothesis =>
      obtain ⟨spells, spelledLater⟩ := List.forall_mem_cons.mp spelled
      have later := inductionHypothesis spelledLater
      cases others with
      | nil =>
          have ends : EndsItem blanks := .inl (List.dropWhile_eq_nil_iff.mpr blank)
          rw [rawTexts, List.map_singleton, List.map_singleton, List.intercalate_singleton,
            List.cons_append, readCallRun_cons spells ends.not_goesOn, readCallRun_of_blank blank]
          rfl
      | cons next rest =>
          have behind := readCallRun_cons spells (@not_goesOn_cons ' '
            (List.intercalate [' '] ((rawTexts (next :: rest)).map ('@' :: ·)) ++ blanks) rfl
            (by decide))
          rw [readCallRun_cons_blank, later] at behind
          rw [rawTexts, List.map_cons, List.map_cons, List.map_cons, List.map_cons,
            List.intercalate_cons_cons, List.append_assoc, List.append_assoc]
          exact behind

theorem callRun_intercalate (spelled : ∀ call ∈ calls, Spells call.raw.toList call)
    {blanks : Text} (blank : ∀ character ∈ blanks, isBlank character = true) :
    callRun (List.intercalate [' '] ((rawTexts calls).map ('@' :: ·)) ++ blanks) = .ok calls :=
  callRun_eq_ok_iff.mpr (readCallRun_intercalate spelled blank)

/-- The raw texts of calls that were read stand in the text in order, and the calls are read again
as they were from a list and from a run of them. -/
theorem calls_of_rawTexts {text : Text} (filled : calls ≠ [])
    (areRead : text.callList = .ok calls ∨ text.callRun = .ok calls) :
    callList (List.intercalate [','] (rawTexts calls)) = .ok calls ∧
      callRun (List.intercalate [' '] ((rawTexts calls).map ('@' :: ·))) = .ok calls ∧
      Slices (rawTexts calls) text := by
  have standing : StandIn calls text := by
    rcases areRead with isList | isRun
    · exact standIn_of_callList isList
    · exact standIn_of_readCallRun (callRun_eq_ok_iff.mp isRun)
  have run := @callRun_intercalate calls standing.spelled [] (by simp)
  rw [List.append_nil] at run
  exact ⟨callList_intercalate standing.spelled filled (by simp), run, standing.slices⟩

/-- The calls of a list with odd spacing are read again from their raw texts. -/
theorem spacedCalls_of_rawTexts :
    spacedList.callList = .ok spacedCalls ∧
      callList "max(10, \"a,b)\"),db.type([x])".toList = .ok spacedCalls ∧
      callRun "@max(10, \"a,b)\") @db.type([x])".toList = .ok spacedCalls ∧
      Slices ["max(10, \"a,b)\")".toList, "db.type([x])".toList] spacedList := by
  have isRead : spacedList.callList = .ok spacedCalls :=
    callList_eq_ok_iff.mpr ⟨by decide, by decide +kernel⟩
  exact ⟨isRead, calls_of_rawTexts (by decide) (.inl isRead)⟩

end Text

end SchemaMarkup
