import Mathlib.Data.List.Nodup
import SchemaMarkup.Proofs.Reading.SourceBlocks

/-!
# Item lines

The items of a block are told by its lines alone: a line is an item of the first depth by its own
form, it stands in the section of the last heading above it, and the lines nested under it are
those that follow up to the first that is not nested. `Document.read_keepsItems` says that reading
goes over exactly these items, one by one: none of them is taken for a nested line, left out at the
border of a section or a block, or read twice.

`Block.items` looks at the lines of a source as they stand. Reading works on entries instead, in one
pass over the lines that say something; `Block.items_eq_entryItems` is where the two meet.
-/

namespace SchemaMarkup

/-! ## Items among the lines of a block -/

/-- A line between those above it, the nearest first, and those below it. -/
structure Place where
  above : List Line
  line : Line
  below : List Line

/-- The places of some lines that stand below others. -/
def placesBelow (above : List Line) : List Line → List Place
  | [] => []
  | line :: below => { above, line, below } :: placesBelow (line :: above) below

/-- An item of the first depth, with the heading of its section and the lines nested under it. -/
structure Item where
  heading : Option Line
  line : Line
  nested : List Line
deriving DecidableEq

/-- The item at a place. -/
def Place.item (place : Place) : Item where
  heading := place.above.find? Line.opensSection
  line := place.line
  nested := (place.below.filter fun line => !line.isIgnorable).takeWhile (·.isNestedUnder 1)

namespace Item

/-- Whether the item starts with `@`. -/
def isDirective (item : Item) : Bool :=
  item.line.content.head? == some '@'

/-- Whether the item stands in a section for fields or above all sections. -/
def isAmongFields (item : Item) : Bool :=
  item.heading.all fun heading =>
    ["fields", "columns", "properties"].any heading.content.trim.spells

/-- Whether the item declares a field if it is one of a model or interface. -/
def declaresField (item : Item) : Bool :=
  item.isAmongFields && !item.isDirective

/-- Whether the item declares a value if it is one of an enumeration. -/
def declaresValue (item : Item) : Bool :=
  !item.isDirective

/-- The group that the section of the item names. -/
def group? (item : Item) : Option String :=
  item.heading.bind fun heading => heading.content.nonBlank?

/-- The value that the line of the item tells, with the group of the section and refined by the
lines nested under the item. -/
def Declares (item : Item) (value : EnumValue) : Prop :=
  ∃ declared, EnumValue.read item.line.content = .ok declared ∧
    item.nested.foldlM EnumValue.refine { declared with group := declared.group.or item.group? } =
      .ok value

end Item

namespace Block

/-- The items of the first depth in a block. -/
def items (block : Block) : List Item :=
  ((placesBelow [] block.body).filter fun place => place.line.depth? == some 1).map Place.item

/-- An entity that holds one field or one value for each item of a block that declares one, and
nothing else. -/
inductive KeepsItems (block : Block) : Entity → Prop where
  | model {model : Model} (location : model.location = block.heading.location)
      (fields : model.fields.map Field.location =
        (block.items.filter Item.declaresField).map fun item => item.line.location) :
      KeepsItems block (.model model)
  | enumeration {enumeration : Enumeration}
      (location : enumeration.location = block.heading.location)
      (values : List.Forall₂ Item.Declares (block.items.filter Item.declaresValue)
        enumeration.values) :
      KeepsItems block (.enumeration enumeration)

end Block

/-! ## Items among entries -/

/-- The items of the first depth among the entries below a heading. -/
def Entry.items (heading : Option Line) : List Entry → List Item
  | [] => []
  | .sectionHeading line :: later => items (some line) later
  | .quote _ :: later => items heading later
  | .item depth line nested :: later =>
      if depth ≤ 1 then { heading, line, nested } :: items heading later else items heading later

/-- The lines nested under an open item are those up to the first that is not. -/
theorem fst_readEntriesUnder (parent : Option Nat) (lines : List Line) :
    (readEntriesUnder parent lines).1 =
      lines.takeWhile fun line => parent.any line.isNestedUnder := by
  induction lines with
  | nil => rfl
  | cons line later inductionHypothesis =>
      rw [readEntriesUnder, List.takeWhile_cons]
      split
      · exact congrArg (line :: ·) inductionHypothesis
      · cases line.kind <;> rfl

/-! ## One pass over the lines -/

/-- A line of the first depth is an item, whatever stands above it. Any other line is none, and
leads at most to another section. -/
theorem items_readEntriesUnder_cons {line : Line} (notRoot : line.depth? ≠ some 0)
    {parent : Option Nat} (isItem : parent ≠ some 0) (heading : Option Line) (later : List Line) :
    ∃ next, next ≠ some 0 ∧
      Entry.items heading (readEntriesUnder parent (line :: later)).2 =
        (if line.depth? == some 1 then
          [{ heading, line, nested := later.takeWhile (·.isNestedUnder 1) }]
        else
          []) ++
        Entry.items (if line.opensSection then some line else heading)
          (readEntriesUnder next later).2 := by
  rw [readEntriesUnder]
  cases isNested : parent.any line.isNestedUnder with
  | true =>
      refine ⟨parent, isItem, ?_⟩
      cases parent with
      | none => contradiction
      | some depth =>
          rw [Option.any_some, Line.isNestedUnder] at isNested
          have positive : depth ≠ 0 := fun isRoot => isItem (congrArg some isRoot)
          cases isKind : line.kind <;> simp [isKind] at isNested
          · next own =>
              have deep : own ≠ 1 := by omega
              simp [Line.depth?, Line.opensSection, isKind, deep]
          · simp [Line.depth?, Line.opensSection, isKind]
  | false =>
      refine ⟨line.depth?, notRoot, ?_⟩
      cases isKind : line.kind with
      | ignorable | quote _ | prose =>
          simp [Line.depth?, Line.opensSection, isKind, Entry.items]
      | heading level =>
          cases opens : line.opensSection <;> simp [Line.depth?, isKind, Entry.items]
      | item depth =>
          have positive : depth ≠ 0 := by simpa [Line.depth?, isKind] using notRoot
          by_cases first : depth = 1
          · subst first
            simp [Line.depth?, Line.opensSection, isKind, Entry.items, fst_readEntriesUnder]
          · have deep : ¬ depth ≤ 1 := by omega
            simp [Line.depth?, Line.opensSection, isKind, Entry.items, first, deep]

/-- The items among the entries of some lines are those at the places of the lines. It does not
matter under which item the lines start, as the first depth is nested under none. -/
theorem items_readEntriesUnder {lines : List Line}
    (noRoot : ∀ line ∈ lines, line.depth? ≠ some 0) {parent : Option Nat}
    (isItem : parent ≠ some 0) (above : List Line) :
    Entry.items (above.find? Line.opensSection)
        (readEntriesUnder parent (lines.filter fun line => !line.isIgnorable)).2 =
      ((placesBelow above lines).filter fun place => place.line.depth? == some 1).map
        Place.item := by
  induction lines generalizing parent above with
  | nil => rfl
  | cons line later inductionHypothesis =>
      obtain ⟨notRoot, noRoot⟩ := List.forall_mem_cons.mp noRoot
      have rest := fun {parent : Option Nat} (isItem : parent ≠ some 0) =>
        inductionHypothesis noRoot isItem (line :: above)
      have heading : (line :: above).find? Line.opensSection =
          if line.opensSection then some line else above.find? Line.opensSection := by
        rw [List.find?_cons]
        split <;> simp_all
      rw [heading] at rest
      cases silent : line.isIgnorable with
      | true =>
          have isKind : line.kind = .ignorable := eq_of_beq silent
          have opensNone : line.opensSection = false := by rw [Line.opensSection, isKind]
          have noItem : line.depth? = none := by rw [Line.depth?, isKind]
          simpa [placesBelow, silent, opensNone, noItem] using rest isItem
      | false =>
          obtain ⟨next, isNext, step⟩ := items_readEntriesUnder_cons notRoot isItem
            (above.find? Line.opensSection) (later.filter fun line => !line.isIgnorable)
          rw [List.filter_cons_of_pos (by simpa using silent), step, rest isNext, placesBelow,
            List.filter_cons]
          split <;> rfl

/-- The items of a block are told by its entries. -/
theorem Block.items_eq_entryItems {block : Block}
    (noRoot : ∀ line ∈ block.body, line.depth? ≠ some 0) :
    block.items = Entry.items none block.spoken.entries := by
  have noItem : (none : Option Nat) ≠ some 0 := nofun
  exact (items_readEntriesUnder noRoot noItem []).symm

/-! ## The loops over entries -/

/-- The section that a heading opens, or the one above all headings. -/
def BodySection.under (heading : Option Line) : BodySection :=
  heading.elim .fields fun line => .ofHeading line.content

/-- The sections for fields are those of three names. -/
theorem BodySection.ofHeading_eq_fields_iff {heading : Text} :
    BodySection.ofHeading heading = .fields ↔
      ["fields", "columns", "properties"].any heading.trim.spells = true := by
  simp only [ofHeading, names, List.find?_cons, List.find?_nil, List.any_cons, List.any_nil,
    Bool.or_false]
  repeat' split
  all_goals simp_all

/-- An item of a model declares a field in a section for fields, unless it is a directive. -/
theorem Item.declaresField_under (item : Item) (depth : Nat) :
    (Entry.item depth item.line item.nested).declaresField (.under item.heading) =
      item.declaresField := by
  have among : (BodySection.under item.heading == .fields) = item.isAmongFields := by
    rw [Bool.eq_iff_iff, beq_iff_eq, isAmongFields, BodySection.under]
    cases item.heading with
    | none => simp
    | some heading => exact BodySection.ofHeading_eq_fields_iff
  rw [Entry.declaresField, among]
  rfl

namespace Model

/-- A field stands where its item stands. -/
theorem location_addField {model next : Model} {line : Line} {nested : List Line}
    (run : model.addField line nested = .ok next) :
    next.fields.map Field.location = model.fields.map Field.location ++ [line.location] := by
  obtain ⟨_, _, field, isRead, isRefined, _, _, rfl⟩ := addField_eq_ok_iff.mp run
  have location : field.location = line.location := by
    rw [(Field.refines_item isRead isRefined).1.kept]
    rfl
  rw [List.map_append, List.map_singleton, location]

/-- A model holds the fields that its items declare, in their order. -/
theorem fields_of_entries {dialect : Dialect} {entries : List Entry} {start last : Progress}
    {heading : Option Line} (isSection : start.bodySection = .under heading)
    (run : entries.foldlM (Progress.add dialect) start = .ok last) :
    last.model.fields.map Field.location = start.model.fields.map Field.location ++
      ((Entry.items heading entries).filter Item.declaresField).map fun item =>
        item.line.location := by
  induction entries generalizing start heading with
  | nil =>
      rw [List.foldlM_nil, pure_eq_ok_iff] at run
      simp [run, Entry.items]
  | cons entry later inductionHypothesis =>
      rw [List.foldlM_cons, bind_eq_ok_iff] at run
      obtain ⟨next, added, run⟩ := run
      have nextSection := Progress.bodySection_add added
      have outcome := Progress.add_cases added
      rw [isSection] at nextSection outcome
      cases entry with
      | sectionHeading line =>
          obtain ⟨_, _, _, isItem, _⟩ | ⟨_, same⟩ := outcome
          · contradiction
          · rw [@inductionHypothesis next (some line) nextSection run, same.fields, Entry.items]
      | quote line =>
          obtain ⟨_, _, _, isItem, _⟩ | ⟨_, same⟩ := outcome
          · contradiction
          · rw [inductionHypothesis nextSection run, same.fields, Entry.items]
      | item depth line nested =>
          have declares := Item.declaresField_under { heading, line, nested } depth
          rw [inductionHypothesis nextSection run, Entry.items]
          obtain ⟨_, _, _, isItem, shallow, isField, added⟩ | ⟨noField, same⟩ := outcome
          · cases isItem
            rw [location_addField added, if_pos shallow,
              List.filter_cons_of_pos (declares.symm.trans isField), List.map_cons,
              List.append_assoc, List.singleton_append]
          · rw [same.fields]
            split
            · have declaresNone := declares.symm.trans noField
              rw [List.filter_cons_of_neg (by simp [declaresNone])]
            · rfl

end Model

namespace Enumeration

/-- An enumeration holds the values that its items declare, in their order. -/
theorem values_of_entries {entries : List Entry} {start last : Progress} {heading : Option Line}
    (isGroup : start.group = heading.bind fun line => line.content.nonBlank?)
    (run : entries.foldlM Progress.add start = .ok last) :
    ∃ values, last.enumeration.values = start.enumeration.values ++ values ∧
      List.Forall₂ Item.Declares ((Entry.items heading entries).filter Item.declaresValue)
        values := by
  induction entries generalizing start heading with
  | nil =>
      rw [List.foldlM_nil, pure_eq_ok_iff] at run
      exact ⟨[], by simp [run], .nil⟩
  | cons entry later inductionHypothesis =>
      rw [List.foldlM_cons, bind_eq_ok_iff] at run
      obtain ⟨next, added, run⟩ := run
      have nextGroup := Progress.group_add added
      have outcome := Progress.add_cases added
      rw [isGroup] at nextGroup outcome
      cases entry with
      | sectionHeading line =>
          obtain ⟨_, _, _, isItem, _⟩ | ⟨_, same⟩ := outcome
          · contradiction
          · rw [← same.values]
            exact @inductionHypothesis next (some line) nextGroup run
      | quote line =>
          obtain ⟨_, _, _, isItem, _⟩ | ⟨_, same⟩ := outcome
          · contradiction
          · rw [← same.values]
            exact inductionHypothesis nextGroup run
      | item depth line nested =>
          obtain ⟨values, isValues, others⟩ := inductionHypothesis nextGroup run
          have declares : (Entry.item depth line nested).declaresValue =
            Item.declaresValue { heading, line, nested } := rfl
          rw [Entry.items]
          obtain ⟨_, _, _, isItem, shallow, isValue, added⟩ | ⟨noValue, same⟩ := outcome
          · cases isItem
            obtain ⟨declared, value, isRead, isRefined, _, isNext⟩ := addValue_eq_ok_iff.mp added
            refine ⟨value :: values, by simp [isValues, isNext], ?_⟩
            rw [if_pos shallow, List.filter_cons_of_pos (declares.symm.trans isValue)]
            exact .cons ⟨declared, isRead, isRefined⟩ others
          · refine ⟨values, by rw [isValues, same.values], ?_⟩
            split
            · have declaresNone := declares.symm.trans noValue
              rwa [List.filter_cons_of_neg (by simp [declaresNone])]
            · exact others

end Enumeration

/-! ## Documents -/

/-- The entity that a block declares by itself keeps the items of the block. -/
theorem Block.keepsItems_of_read {dialect : Dialect} {block : Block} {entity : Entity}
    {warnings : List Diagnostic} (noRoot : ∀ line ∈ block.body, line.depth? ≠ some 0)
    (isRead : block.spoken.read dialect = .ok (entity, warnings)) : block.KeepsItems entity := by
  obtain ⟨header, _, reads⟩ := Block.reads_of_read isRead
  cases reads with
  | model _ isModel =>
      refine .model (Model.sameHead_read isModel).location ?_
      rw [block.items_eq_entryItems noRoot]
      simp only [Model.read, bind_eq_ok_iff, pure_eq_ok_iff, Prod.mk.injEq] at isModel
      obtain ⟨start, started, progress, added, rfl, rfl⟩ := isModel
      have isSection : ({ model := start } : Model.Progress).bodySection = .under none := rfl
      rw [Model.fields_of_entries isSection added, Model.fields_ofHeader started]
      rfl
  | enumeration _ isEnumeration =>
      refine .enumeration (Enumeration.sameHead_read isEnumeration).location ?_
      rw [block.items_eq_entryItems noRoot]
      obtain ⟨_, progress, added, rfl⟩ := Enumeration.read_eq_ok_iff.mp isEnumeration
      obtain ⟨values, isValues, declared⟩ :=
        @Enumeration.values_of_entries block.spoken.entries _ progress none rfl added
      rw [isValues]
      exact declared

/-- To look for foreign keys moves no field. -/
theorem Block.KeepsItems.inferEntity {block : Block} {entity : Entity}
    (keeps : block.KeepsItems entity) (document : Document) :
    block.KeepsItems (document.inferEntity entity) := by
  have location : ∀ field, (document.inferForeignKey field).location = field.location := by
    intro field
    rw [Document.inferForeignKey]
    split <;> rfl
  cases keeps with
  | model here fields =>
      refine .model here ?_
      rw [← fields, List.map_map]
      exact List.map_congr_left fun field _ => location field
  | enumeration here values => exact .enumeration here values

namespace Document

variable {options : ReadingOptions} {source : Text} {document : Document}
  {warnings : List Diagnostic}

/-- No item of a source is lost, moved or read twice: the entities of a document hold one field or
one value for each item of their blocks that declares one, in the order of the items. -/
theorem read_keepsItems (isRead : read options source = .ok (document, warnings)) :
    ∃ preamble blocks, IsDivided document.dialect (readLines source) preamble blocks ∧
      List.Forall₂ Block.KeepsItems blocks document.entities :=
  @forall₂_blocks_of_read options source document warnings (fun _ => Block.KeepsItems)
    (fun _ _ _ _ noRoot => Block.keepsItems_of_read noRoot)
    (fun declared _ _ _ keeps => keeps.inferEntity declared) isRead

end Document

/-- Fields in two places, around an index, a section that is not known and a comment, and an
enumeration with a group and a directive. -/
def gallery : Text :=
  "## Album
- title: string
  - label: Name
### Indexes
- title
### Notes
- kept: for later
### Columns
<!-- - hidden: string -->
- year: integer
## Tone ::enum
### Warm
- Red
- @closed
- Ochre".toList

/-- The fields stand in the second line and in the tenth. -/
theorem gallery_keepsItems :
    ∃ document warnings, Document.read {} gallery = .ok (document, warnings) ∧
      (document.models.map fun model => model.fields.map fun field =>
        (field.name, field.location.line)) = [[("title", 2), ("year", 10)]] ∧
      (document.enumerations.map fun enumeration => enumeration.values.map fun declared =>
        (declared.name, declared.group)) = [[("Red", some "Warm"), ("Ochre", some "Warm")]] ∧
      ∃ preamble blocks, IsDivided document.dialect (readLines gallery) preamble blocks ∧
        List.Forall₂ Block.KeepsItems blocks document.entities := by
  have declared : (Document.read {} gallery).map (fun outcome =>
      (outcome.1.models.map fun model => model.fields.map fun field =>
          (field.name, field.location.line),
        outcome.1.enumerations.map fun enumeration => enumeration.values.map fun declared =>
          (declared.name, declared.group))) =
      .ok ([[("title", 2), ("year", 10)]],
        [[("Red", some "Warm"), ("Ochre", some "Warm")]]) := by
    decide +kernel
  obtain ⟨⟨document, warnings⟩, isRead, shown⟩ := map_eq_ok_iff.mp declared
  obtain ⟨fields, values⟩ := Prod.mk.inj shown
  exact ⟨document, warnings, isRead, fields, values, Document.read_keepsItems isRead⟩

/-! ## Fields and lines -/

theorem map_line_placesBelow (above lines : List Line) :
    (placesBelow above lines).map Place.line = lines := by
  induction lines generalizing above with
  | nil => rfl
  | cons line later inductionHypothesis =>
      rw [placesBelow, List.map_cons, inductionHypothesis]

/-- The items of a block stand in lines of its body, in their order. -/
theorem Block.items_sublist (block : Block) : (block.items.map Item.line).Sublist block.body := by
  have lines : block.items.map Item.line = ((placesBelow [] block.body).filter fun place =>
      place.line.depth? == some 1).map Place.line := by
    rw [items, List.map_map]
    rfl
  rw [lines]
  conv_rhs => rw [← map_line_placesBelow [] block.body]
  exact List.filter_sublist.map Place.line

/-- The fields of a block stand in lines of the block, in their order. -/
theorem Block.KeepsItems.fields_sublist {block : Block} {model : Model}
    (keeps : block.KeepsItems (.model model)) :
    (model.fields.map Field.location).Sublist (block.lines.map Line.location) := by
  cases keeps with
  | model _ fields =>
      have places := List.map_map (f := Item.line) (g := Line.location)
        (l := block.items.filter Item.declaresField)
      rw [fields]
      refine places ▸ List.Sublist.map Line.location ?_
      have inBody : ((block.items.filter Item.declaresField).map Item.line).Sublist block.body :=
        (List.filter_sublist.map Item.line).trans block.items_sublist
      exact inBody.trans (List.sublist_cons_self block.heading block.body)

/-- The fields of all blocks stand in lines of the blocks, in their order. -/
theorem fields_sublist_lines {blocks : List Block} {entities : List Entity}
    (keeps : List.Forall₂ Block.KeepsItems blocks entities) :
    (((entities.filterMap Entity.model?).flatMap Model.fields).map Field.location).Sublist
      ((blocks.flatMap Block.lines).map Line.location) := by
  induction keeps with
  | nil => exact .refl _
  | @cons block entity _ _ first _ inductionHypothesis =>
      rw [List.flatMap_cons, List.map_append]
      cases entity with
      | enumeration contents =>
          exact inductionHypothesis.trans (List.sublist_append_right _ _)
      | model contents =>
          have models : Entity.model? (.model contents) = some contents := rfl
          rw [List.filterMap_cons_some models, List.flatMap_cons, List.map_append]
          exact first.fields_sublist.append inductionHypothesis

/-- No two lines of a source stand in the same place. -/
theorem nodup_location_readLines (source : Text) :
    ((readLines source).map Line.location).Nodup := by
  refine List.Nodup.of_map Location.line ?_
  rw [List.map_map]
  exact map_number_readLinesFrom .plain 1 0 source.splitLines ▸ List.nodup_range'

namespace Document

/-- The fields that the models and interfaces of a document declare. -/
def ownFields (document : Document) : List Field :=
  document.models.flatMap Model.fields

/-- No two fields of a document that was read stand in the same place. -/
theorem nodup_location_ownFields {options : ReadingOptions} {source : Text} {document : Document}
    {warnings : List Diagnostic} (isRead : read options source = .ok (document, warnings)) :
    (document.ownFields.map Field.location).Nodup := by
  obtain ⟨preamble, blocks, divided, keeps⟩ := @forall₂_blocks_of_read options source document
    warnings (fun _ => Block.KeepsItems) (fun _ _ _ _ noRoot => Block.keepsItems_of_read noRoot)
    (fun declared _ _ _ keeps => keeps.inferEntity declared) isRead
  have inSource : ((blocks.flatMap Block.lines).map Line.location).Sublist
      ((readLines source).map Line.location) := by
    rw [divided.whole]
    exact (List.sublist_append_right _ _).map Line.location
  exact (nodup_location_readLines source).sublist ((fields_sublist_lines keeps).trans inSource)

end Document

end SchemaMarkup
