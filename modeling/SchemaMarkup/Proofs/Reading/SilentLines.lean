import SchemaMarkup.Proofs.Locations.DocumentReading
import SchemaMarkup.Proofs.Reading.SourcePasses

/-!
# Lines that say nothing

A document depends on what its lines say and on nothing else: sources whose lines say the same,
leaving out the lines that say nothing, are read alike. There are two reasons for that. Every loop
of reading stands at the lines that say nothing too and passes over them (`Document.read_eq`). And
reading never looks at the place of a line (`Document.ofSpokenLines_relocate`), so two such sources
are told apart by locations alone.

`Silence` lists the runs of lines that can stand between any two others, wherever an item may be
waiting for its property lines, and `Document.read_tellsSpeechAlone` says that neither they nor
the terminators of lines matter.
-/

namespace SchemaMarkup

/-! ## Speech -/

/-- What a source says, line by line. -/
def speech (source : Text) : List (LineKind × Text) :=
  (spokenLines source).map Line.said

theorem speech_eq_filter_scan (source : Text) :
    speech source =
      (Surrounding.plain.scan source.rawLines).filter fun said => said.1 != .ignorable := by
  rw [speech, spokenLines, ← map_said_readLines, List.filter_map]
  rfl

/-- A line without its place is told by what it says. -/
theorem map_withoutLocation_congr {first second : List Line}
    (same : first.map Line.said = second.map Line.said) :
    first.map Line.withoutLocation = second.map Line.withoutLocation := by
  let ofSaid := fun (said : LineKind × Text) =>
    ({ number := 0, kind := said.1, content := said.2, raw := [], span := ⟨0, 0⟩ } : Line)
  have told : Line.withoutLocation = ofSaid ∘ Line.said := rfl
  rw [told, ← List.map_map, ← List.map_map, same]

/-- Two outcomes of reading that differ in locations alone. -/
inductive ReadAlike :
    Except SchemaError (Document × List Diagnostic) →
      Except SchemaError (Document × List Diagnostic) → Prop where
  | read {document other : Document} {warnings others : List Diagnostic}
      (sameDocument : document.withoutLocations = other.withoutLocations)
      (sameWarnings : warnings.map Diagnostic.withoutLocations =
        others.map Diagnostic.withoutLocations) :
      ReadAlike (.ok (document, warnings)) (.ok (other, others))
  | refused {error other : SchemaError}
      (sameError : error.withoutLocations = other.withoutLocations)
      (sameCode : error.code = other.code) (sameDetail : error.detail = other.detail)
      (sameTitle : error.title = other.title) :
      ReadAlike (.error error) (.error other)

namespace ReadAlike

variable {first second third : Except SchemaError (Document × List Diagnostic)}

theorem refl (outcome : Except SchemaError (Document × List Diagnostic)) :
    ReadAlike outcome outcome := by
  cases outcome with
  | ok outcome => exact .read rfl rfl
  | error error => exact .refused rfl rfl rfl rfl

theorem symm (alike : ReadAlike first second) : ReadAlike second first := by
  cases alike with
  | read sameDocument sameWarnings => exact .read sameDocument.symm sameWarnings.symm
  | refused sameError sameCode sameDetail sameTitle =>
      exact .refused sameError.symm sameCode.symm sameDetail.symm sameTitle.symm

theorem trans (alike : ReadAlike first second) (behind : ReadAlike second third) :
    ReadAlike first third := by
  cases alike with
  | read sameDocument sameWarnings =>
      cases behind with
      | read document warnings =>
          exact .read (sameDocument.trans document) (sameWarnings.trans warnings)
  | refused sameError sameCode sameDetail sameTitle =>
      cases behind with
      | refused error code detail title =>
          exact .refused (sameError.trans error) (sameCode.trans code) (sameDetail.trans detail)
            (sameTitle.trans title)

end ReadAlike

/-- Outcomes that are the same without locations differ in locations alone. -/
theorem readAlike_of_relocateOutcome
    {first second : Except SchemaError (Document × List Diagnostic)}
    (same : relocateOutcome (fun _ => .unknown)
        (Prod.map Document.withoutLocations (List.map Diagnostic.withoutLocations)) first =
      relocateOutcome (fun _ => .unknown)
        (Prod.map Document.withoutLocations (List.map Diagnostic.withoutLocations)) second) :
    ReadAlike first second := by
  cases first with
  | ok outcome =>
      cases second with
      | ok other =>
          obtain ⟨documents, warnings⟩ := Prod.mk.inj (Except.ok.inj same)
          exact .read documents warnings
      | error other => contradiction
  | error error =>
      cases second with
      | ok other => contradiction
      | error other =>
          have errors := Except.error.inj same
          refine .refused errors ?_ ?_ ?_
          · have codes := congrArg SchemaError.code errors
            rwa [SchemaError.code_relocate, SchemaError.code_relocate] at codes
          · have details := congrArg SchemaError.detail errors
            rwa [SchemaError.detail_relocate, SchemaError.detail_relocate] at details
          · have titles := congrArg SchemaError.title errors
            rwa [SchemaError.title_relocate, SchemaError.title_relocate] at titles

/-- Lines that say the same are read alike. -/
theorem readAlike_of_map_said (options : ReadingOptions) {first second : List Line}
    (same : first.map Line.said = second.map Line.said) :
    ReadAlike (Document.ofSpokenLines options first) (Document.ofSpokenLines options second) := by
  refine readAlike_of_relocateOutcome ?_
  have reads : ∀ lines, relocateOutcome (fun _ => .unknown)
        (Prod.map Document.withoutLocations (List.map Diagnostic.withoutLocations))
          (Document.ofSpokenLines options lines) =
      Document.ofSpokenLines options (lines.map Line.withoutLocation) :=
    fun lines => (Document.ofSpokenLines_relocate options lines).symm
  rw [reads, reads, map_withoutLocation_congr same]

/-- Sources that say the same are read alike. -/
theorem readAlike_of_speech_eq (options : ReadingOptions) {first second : Text}
    (same : speech first = speech second) :
    ReadAlike (Document.read options first) (Document.read options second) := by
  rw [Document.read_eq, Document.read_eq]
  exact readAlike_of_map_said options same

/-! ## Silence -/

/-- Runs of lines that say nothing and leave the surroundings as they are. -/
inductive Silence : Surrounding → List Text → Prop where
  | blank {surrounding raw} (isBlank : raw.trim = []) : Silence surrounding [raw]
  | rule {raw} (long : 3 ≤ raw.trim.length) (dashes : raw.trim.all (· == '-') = true) :
      Silence .plain [raw]
  /-- A comment in one line. -/
  | comment {raw} (opens : raw.trim.startsWith "<!--" = true)
      (closes : Text.containsWord (raw.trim.drop 4) "-->" = true) : Silence .plain [raw]
  /-- A comment over several lines. -/
  | comments {first inner last} (opens : first.trim.startsWith "<!--" = true)
      (goesOn : Text.containsWord (first.trim.drop 4) "-->" = false)
      (inside : ∀ raw ∈ inner, raw.trim.containsWord "-->" = false)
      (closes : last.trim.containsWord "-->" = true) :
      Silence .plain (first :: inner ++ [last])
  /-- Fenced code with its fences. -/
  | fence {first inner last} (opens : first.trim.startsWith "```" = true)
      (inside : ∀ raw ∈ inner, raw.trim.startsWith "```" = false)
      (closes : last.trim.startsWith "```" = true) :
      Silence .plain (first :: inner ++ [last])
  /-- A line inside of a comment or of fenced code that does not end it. -/
  | hidden {surrounding raw} (hides : surrounding ≠ .plain)
      (goesOn : surrounding.after raw.trim = surrounding) : Silence surrounding [raw]

namespace Text

/-- A text starts with the first character of a word that it starts with. -/
theorem head?_of_startsWith {text : Text} {word : String} (starts : text.startsWith word = true)
    (nonempty : word.toList ≠ [] := by decide) : text.head? = word.toList.head? := by
  obtain ⟨rest, rfl⟩ := List.isPrefixOf_iff_prefix.mp starts
  exact List.head?_append_of_ne_nil _ nonempty

theorem startsWith_eq_false {text : Text} {word : String} {head : Option Char}
    (starts : text.head? = head) (differs : word.toList.head? ≠ head)
    (nonempty : word.toList ≠ [] := by decide) : text.startsWith word = false := by
  cases found : text.startsWith word with
  | false => rfl
  | true => exact absurd ((head?_of_startsWith found nonempty).symm.trans starts) differs

end Text

namespace Surrounding

/-- Whether lines say nothing and leave the surroundings as they are. -/
structure Skips (surrounding : Surrounding) (raws : List Text) : Prop where
  stays : surrounding.afterAll raws = surrounding
  silent : ∀ said ∈ surrounding.scan raws, said.1 = .ignorable

/-- A line that is hidden says nothing. -/
theorem classify_of_hides {surrounding : Surrounding} {raw : Text}
    (hides : surrounding.hides raw.trim = true) : (surrounding.classify raw).1 = .ignorable := by
  rw [classify, if_pos hides]

theorem hides_of_ne_plain {surrounding : Surrounding} (inside : surrounding ≠ .plain)
    (trimmed : Text) : surrounding.hides trimmed = true := by
  simp [hides, inside]

/-- In a comment or in fenced code lines say nothing as long as it does not end. -/
theorem skips_of_goesOn {surrounding : Surrounding} (inside : surrounding ≠ .plain)
    {raws : List Text} (goesOn : ∀ raw ∈ raws, surrounding.after raw.trim = surrounding) :
    surrounding.Skips raws := by
  induction raws with
  | nil => exact ⟨rfl, by simp [scan]⟩
  | cons raw later inductionHypothesis =>
      have first := goesOn raw List.mem_cons_self
      have rest := inductionHypothesis fun other listed =>
        goesOn other (List.mem_cons_of_mem _ listed)
      constructor
      · rw [afterAll_cons, first, rest.stays]
      · rw [scan, first, List.forall_mem_cons]
        exact ⟨classify_of_hides (hides_of_ne_plain inside _), rest.silent⟩

/-- A comment or fenced code over several lines says nothing from its first line to its last. -/
theorem skips_of_encloses {inside : Surrounding} (hides : inside ≠ .plain) {first last : Text}
    {inner : List Text} (opens : Surrounding.plain.hides first.trim = true)
    (enters : Surrounding.plain.after first.trim = inside)
    (goesOn : ∀ raw ∈ inner, inside.after raw.trim = inside)
    (closes : inside.after last.trim = .plain) :
    Surrounding.plain.Skips (first :: inner ++ [last]) := by
  have within := skips_of_goesOn hides goesOn
  constructor
  · rw [List.cons_append, afterAll_cons, enters, afterAll_append, within.stays, afterAll_cons,
      closes, afterAll_nil]
  · rw [List.cons_append, scan, enters, scan_append, within.stays, List.forall_mem_cons,
      List.forall_mem_append]
    refine ⟨classify_of_hides opens, within.silent, ?_⟩
    simpa [scan] using classify_of_hides (hides_of_ne_plain hides last.trim)

end Surrounding

open Surrounding in
/-- Silent lines say nothing and leave the surroundings as they are. -/
theorem Silence.skips {surrounding : Surrounding} {raws : List Text}
    (silence : Silence surrounding raws) : surrounding.Skips raws := by
  cases silence with
  | blank isBlank =>
      have stays : surrounding.after [] = surrounding := by
        cases surrounding <;> rfl
      refine ⟨by simp [isBlank, stays], ?_⟩
      simp [scan, Surrounding.classify, Text.classify, isBlank]
  | @rule raw long dashes =>
      have dash : raw.trim.head? = some '-' := by
        cases trimmed : raw.trim with
        | nil => simp [trimmed] at long
        | cons first rest =>
            simpa [trimmed] using List.all_eq_true.mp dashes first (by simp [trimmed])
      have noFence := Text.startsWith_eq_false dash (by decide : "```".toList.head? ≠ some '-')
      have noComment := Text.startsWith_eq_false dash (by decide : "<!--".toList.head? ≠ some '-')
      refine ⟨by simp [after, noFence, noComment], ?_⟩
      simp [scan, Surrounding.classify, Text.classify, hides, noFence, noComment, long, dashes]
  | comment opens closes =>
      have noFence := Text.startsWith_eq_false (Text.head?_of_startsWith opens)
        (by decide : "```".toList.head? ≠ "<!--".toList.head?)
      refine ⟨by simp [after, opens, closes, noFence], ?_⟩
      simpa [scan] using classify_of_hides (by simp [hides, opens])
  | comments opens goesOn inside closes =>
      have noFence := Text.startsWith_eq_false (Text.head?_of_startsWith opens)
        (by decide : "```".toList.head? ≠ "<!--".toList.head?)
      refine skips_of_encloses (by decide : Surrounding.comment ≠ .plain) ?_ ?_ ?_ ?_
      · simp [hides, opens]
      · simp [after, opens, goesOn, noFence]
      · exact fun raw listed => by simp [after, inside raw listed]
      · simp [after, closes]
  | fence opens inside closes =>
      refine skips_of_encloses (by decide : Surrounding.fence ≠ .plain) ?_ ?_ ?_ ?_
      · simp [hides, opens]
      · simp [after, opens]
      · exact fun raw listed => by simp [after, inside raw listed]
      · simp [after, closes]
  | hidden hides goesOn => exact skips_of_goesOn hides (by simpa using goesOn)

/-- Silent lines between others change nothing of what a source says. -/
theorem speech_insert {first second : Text} {before silent after : List Text}
    (bare : first.rawLines = before ++ after) (filled : second.rawLines = before ++ silent ++ after)
    (silence : Silence (Surrounding.plain.afterAll before) silent) :
    speech first = speech second := by
  have skips := silence.skips
  rw [speech_eq_filter_scan, speech_eq_filter_scan, bare, filled]
  simp only [Surrounding.scan_append, Surrounding.afterAll_append, skips.stays, List.filter_append]
  have nothing : (((Surrounding.plain.afterAll before).scan silent).filter fun said =>
      said.1 != .ignorable) = [] := by
    rw [List.filter_eq_nil_iff]
    intro said listed
    simp [skips.silent said listed]
  rw [nothing, List.append_nil]

/-! ## What a document depends on -/

/-- A document depends on nothing but what the lines of its source say. So silent lines
between any others change nothing, and neither does the way in which a line ends. -/
theorem Document.read_tellsSpeechAlone (options : ReadingOptions) :
    (∀ first second, speech first = speech second →
      ReadAlike (read options first) (read options second)) ∧
    (∀ first second : Text, ∀ before silent after, first.rawLines = before ++ after →
      second.rawLines = before ++ silent ++ after →
        Silence (Surrounding.plain.afterAll before) silent →
          ReadAlike (read options first) (read options second)) ∧
    (∀ before after : Text, before.getLast? ≠ some '\r' →
      ReadAlike (read options (before ++ '\r' :: '\n' :: after))
        (read options (before ++ '\n' :: after))) := by
  refine ⟨fun first second => readAlike_of_speech_eq options, ?_, ?_⟩
  · intro first second before silent after bare filled silence
    exact readAlike_of_speech_eq options (speech_insert bare filled silence)
  · intro before after plain
    refine readAlike_of_speech_eq options ?_
    rw [speech_eq_filter_scan, speech_eq_filter_scan, Text.rawLines_return_newline plain]

/-- A field and its property line. -/
def labelledField : Text :=
  "## Pet\n- Name: string\n  - label: Full name".toList

/-- The same field, with fenced code in front of its property line. -/
def fencedField : Text :=
  "## Pet\n- Name: string\n```\n## Dog\n```\n  - label: Full name".toList

/-- The same field behind a comment and with a rule in front of its property line. -/
def commentedField : Text :=
  "<!-- pets\n## Cat\n-->\n## Pet\r\n- Name: string\r\n\r\n---\r\n  - label: Full name\r\n".toList

/-- Headings in a comment or in fenced code open no blocks, and no silent line comes between a
field and its property line. -/
theorem commentedField_readAlike :
    (Document.read {} commentedField).toOption.map (fun outcome =>
        outcome.1.models.map fun model => (model.name, model.fields.map Field.label)) =
          some [("Pet", [some "Full name"])] ∧
      ReadAlike (Document.read {} labelledField) (Document.read {} commentedField) ∧
      ReadAlike (Document.read {} labelledField) (Document.read {} fencedField) ∧
      ReadAlike (Document.read {} "## Pet\r\n- Name: string".toList)
        (Document.read {} "## Pet\n- Name: string".toList) := by
  have depends := Document.read_tellsSpeechAlone {}
  refine ⟨by decide +kernel, depends.1 _ _ (by decide +kernel), ?_, ?_⟩
  · exact depends.2.1 _ _ ["## Pet".toList, "- Name: string".toList]
      ("```".toList :: ["## Dog".toList] ++ ["```".toList]) ["  - label: Full name".toList]
      (by decide +kernel) (by decide +kernel)
      (.fence (by decide +kernel) (by decide +kernel) (by decide +kernel))
  · exact depends.2.2 "## Pet".toList "- Name: string".toList (by decide)

end SchemaMarkup
