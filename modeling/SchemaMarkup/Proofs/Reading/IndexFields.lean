import SchemaMarkup.Proofs.Reading.Identifiers
import SchemaMarkup.Proofs.Reading.IndexProperties
import SchemaMarkup.Proofs.Reading.ItemLines

/-!
# Fields of indexes

An index is declared over one field at least: `Index.build` refuses it otherwise. The property lines
behind it may list other fields, and of those lists the last one counts. A list may be empty there,
and nothing looks at the index again. So the indexes of a document have fields as long as no item
ends its lists with an empty one (`Document.read_listsFields`).
-/

namespace SchemaMarkup

/-- A loop each round of which writes a value or leaves it ends with the value that was written
last. -/
theorem foldlM_last_write {State Item Fault Value : Type} {step : State → Item → Except Fault State}
    {view : State → Option Value} {write : Item → Option Value}
    (each : ∀ state item next, step state item = .ok next →
      view next = (view state).map (write item).getD)
    {items : List Item} {start last : State} (run : items.foldlM step start = .ok last) :
    view last = (view start).map (items.filterMap write).getLast?.getD := by
  induction items generalizing start with
  | nil =>
      rw [List.foldlM_nil, pure_eq_ok_iff] at run
      subst run
      cases view start <;> rfl
  | cons item rest inductionHypothesis =>
      rw [List.foldlM_cons, bind_eq_ok_iff] at run
      obtain ⟨next, stepped, later⟩ := run
      rw [inductionHypothesis later, each start item next stepped]
      cases isWritten : write item with
      | none =>
          rw [List.filterMap_cons_none isWritten]
          cases view start <;> rfl
      | some value =>
          rw [List.filterMap_cons_some isWritten, List.getLast?_cons]
          cases view start <;> rfl

/-! ## One line -/

namespace Index

/-- The fields that a property line lists, which may be none. -/
def listedFields? (text : Text) : Option (List String) :=
  match readProperty text with
  | .ok (key, value) =>
      if keysMatch key "fields".toList then
        some ((value.pieces ',').map fun field => String.ofList field.unquote)
      else
        none
  | .error _ => none

/-- A line that refines an index gives it the fields that it lists, if it lists any. -/
theorem fields_refine {dialect : Dialect} {index next : Index} {text : Text}
    (isRefined : index.refine dialect text = .ok next) :
    next.fields = (listedFields? text).getD index.fields := by
  obtain ⟨key, value, isProperty, refines⟩ := refines_of_refine isRefined
  simp only [listedFields?, isProperty]
  cases refines with
  | fields isKey areRead =>
      rw [if_pos isKey, fields_renamedFrom, Option.getD_some, eq_comm, ← List.forall₂_eq_eq_eq,
        List.forall₂_map_left_iff]
      refine (mapM_eq_ok_iff.mp areRead).imp fun field name isRead => ?_
      rw [readField] at isRead
      split at isRead
      · exact Except.ok.inj isRead
      · contradiction
  | unique isKey =>
      rw [keysMatch_of_keysMatch isKey, if_neg (by decide), fields_renamedFrom]
      rfl
  | description isKey =>
      rw [Bool.or_eq_true] at isKey
      have noFields : keysMatch key "fields".toList = false := by
        rcases isKey with isKey | isKey <;> exact (keysMatch_of_keysMatch isKey _).trans (by decide)
      rw [noFields, if_neg (by decide)]
      rfl
  | name isKey =>
      rw [keysMatch_of_keysMatch isKey, if_neg (by decide)]
      rfl

/-- An index is built over one field at least. -/
theorem fields_ne_nil_build {dialect : Dialect} {location : Location}
    {given description : Option String} {fields : List String} {isUnique : Bool} {index : Index}
    (built : build dialect location given fields isUnique description = .ok index) :
    index.fields ≠ [] := by
  rw [build] at built
  split at built
  · contradiction
  · next filled =>
      cases built
      simpa using filled

theorem fields_ne_nil_readLine {dialect : Dialect} {location : Location} {text : Text}
    {index : Index} (isRead : readLine dialect location text = .ok index) : index.fields ≠ [] := by
  simp only [readLine, bind_eq_ok_iff] at isRead
  obtain ⟨_, _, _, _, _, _, built⟩ := isRead
  exact fields_ne_nil_build built

end Index

/-! ## Directives -/

namespace Attribute

/-- Whether the attribute declares an index. -/
def declaresIndex (call : Attribute) : Bool :=
  call.isNamed "unique" || call.isNamed "index"

/-- Whether the attribute declares an index or a relation. -/
def declaresConstraint (call : Attribute) : Bool :=
  call.declaresIndex || call.isNamed "relation"

end Attribute

namespace Directive

/-- The fields of an index that a directive declares. -/
def fields? : Directive → Option (List String)
  | .index declared => some declared.fields
  | _ => none

/-- A directive as an attribute declares it, an index with a field at least. -/
structure IsDeclaredBy (call : Attribute) (directive : Directive) : Prop where
  isConstraint : directive.isConstraint = call.declaresConstraint
  isIndex : directive.fields?.isSome = call.declaresIndex
  filled : directive.fields? ≠ some []

theorem isDeclaredBy_ofAttribute {dialect : Dialect} {location : Location} {call : Attribute}
    {directive : Directive} (isRead : ofAttribute dialect location call = .ok directive) :
    directive.IsDeclaredBy call := by
  rw [ofAttribute] at isRead
  split at isRead
  · next isIndex =>
      have declares : call.declaresIndex = true := isIndex
      obtain ⟨index, isIndex, rfl⟩ := map_eq_ok_iff.mp isRead
      simp only [Index.ofAttribute, bind_eq_ok_iff] at isIndex
      obtain ⟨_, _, built⟩ := isIndex
      exact {
        isConstraint := by rw [Attribute.declaresConstraint, declares]; rfl
        isIndex := declares.symm
        filled := fun isNil => Index.fields_ne_nil_build built (Option.some.inj isNil) }
  · next noIndex =>
      have declaresNone : call.declaresIndex = false := Bool.eq_false_iff.mpr noIndex
      split at isRead
      · next isRelation =>
          obtain ⟨relation, _, rfl⟩ := map_eq_ok_iff.mp isRead
          exact {
            isConstraint := by rw [Attribute.declaresConstraint, isRelation, Bool.or_true]; rfl
            isIndex := declaresNone.symm
            filled := by simp [fields?] }
      · next noRelation =>
          cases isRead
          exact {
            isConstraint := by
              rw [Attribute.declaresConstraint, declaresNone, Bool.eq_false_iff.mpr noRelation]
              rfl
            isIndex := declaresNone.symm
            filled := by simp [fields?] }

/-- The directives of a line are declared by its calls, one by one. -/
theorem isDeclaredBy_readDirectives {model : Model} {dialect : Dialect} {location : Location}
    {calls : List Attribute} {directives : List Directive}
    (areRead : model.readDirectives dialect location calls = .ok directives) :
    List.Forall₂ IsDeclaredBy calls directives :=
  (Model.forall₂_readDirectives areRead).imp fun _ _ => isDeclaredBy_ofAttribute

theorem fields?_refine {dialect : Dialect} {directive next : Directive} {text : Text}
    (isRefined : directive.refine dialect text = .ok next) :
    next.fields? = directive.fields?.map (Index.listedFields? text).getD := by
  cases directive with
  | index declared =>
      obtain ⟨index, isIndex, rfl⟩ := map_eq_ok_iff.mp isRefined
      exact congrArg some (Index.fields_refine isIndex)
  | relation declared =>
      obtain ⟨relation, _, rfl⟩ := map_eq_ok_iff.mp isRefined
      rfl
  | other call =>
      cases isRefined
      rfl

theorem fields?_describe (directive : Directive) (description : Option String) :
    (description.elim directive directive.describe).fields? = directive.fields? := by
  cases description <;> cases directive <;> rfl

end Directive

/-- The last of some items is read into the last of the results. -/
theorem exists_getLast?_of_forall₂ {Item Result : Type} {relates : Item → Result → Prop}
    {items : List Item} {results : List Result} {last : Result}
    (inStep : List.Forall₂ relates items (results ++ [last])) :
    ∃ item, items.getLast? = some item ∧ relates item last := by
  rw [← List.forall₂_reverse_iff, List.reverse_append, List.reverse_singleton,
    List.singleton_append, List.forall₂_cons_right_iff] at inStep
  obtain ⟨item, _, isRelated, _, reversed⟩ := inStep
  refine ⟨item, ?_, isRelated⟩
  rw [← List.head?_reverse, reversed, List.head?_cons]

/-- Where the fields of the last constraint are written anew, directives keep their fields unless
it is an index and nothing is written. -/
theorem Directive.filled_refineLastConstraint {Fault : Type}
    {refine : Directive → Except Fault Directive} {written : Option (List String)}
    (each : ∀ directive changed, refine directive = .ok changed →
      changed.fields? = directive.fields?.map written.getD)
    {calls : List Attribute} {directives refined : List Directive}
    (declared : List.Forall₂ IsDeclaredBy calls directives)
    (run : refineLastConstraint refine directives = some (.ok refined)) :
    (∀ directive ∈ refined, directive.fields? ≠ some []) ↔
      ¬ ((calls.filter Attribute.declaresConstraint).getLast?.any Attribute.declaresIndex = true ∧
        written = some []) := by
  obtain ⟨front, directive, back, changed, rfl, isLast, noneBehind, isRefined, rfl⟩ :=
    exists_of_refineLastConstraint run
  have filled : ∀ other ∈ front ++ directive :: back, other.fields? ≠ some [] := by
    intro other listed
    obtain ⟨call, _, isDeclared⟩ := exists_of_forall₂_of_mem declared listed
    exact isDeclared.filled
  have alike : ∀ ⦃call directive⦄, IsDeclaredBy call directive →
      (call.declaresConstraint = true ↔ directive.isConstraint = true) :=
    fun _ _ isDeclared => by rw [isDeclared.isConstraint]
  have constraints := List.rel_filter alike declared
  have noBack : back.filter Directive.isConstraint = [] :=
    List.filter_eq_nil_iff.mpr (by simpa using noneBehind)
  rw [List.filter_append, List.filter_cons_of_pos isLast, noBack] at constraints
  obtain ⟨call, isCall, isDeclared⟩ := exists_getLast?_of_forall₂ constraints
  simp only [List.forall_mem_append, List.forall_mem_cons] at filled ⊢
  obtain ⟨inFront, here, behind⟩ := filled
  have outcome : changed.fields? ≠ some [] ↔
      ¬ (call.declaresIndex = true ∧ written = some []) := by
    rw [each directive changed isRefined, ← isDeclared.isIndex]
    cases isFields : directive.fields? with
    | none => simp
    | some fields =>
        rw [isFields] at here
        cases written with
        | none => simpa using here
        | some others => simp
  rw [isCall, Option.any_some, ← outcome]
  exact ⟨fun all => all.2.1, fun changed => ⟨inFront, changed, behind⟩⟩

/-! ## Items -/

namespace Item

/-- The last call of a line that declares a constraint. -/
def lastConstraint? (item : Item) : Option Attribute :=
  match item.line.content.splitDescription.1.callRun with
  | .ok calls => (calls.filter Attribute.declaresConstraint).getLast?
  | .error _ => none

/-- Whether the lines nested under the item refine an index if it is an item of a model. -/
def refinesIndex (item : Item) : Bool :=
  let bodySection := BodySection.under item.heading
  if item.isDirective && bodySection != .metadata then
    bodySection != .unknown && item.lastConstraint?.any Attribute.declaresIndex
  else
    bodySection == .indexes

/-- Whether the last of the nested lines that list fields lists none. -/
def endsFields (item : Item) : Bool :=
  (item.nested.filterMap fun line => Index.listedFields? line.content).getLast? == some []

/-- Whether the lines nested under the item take all fields from an index if it is an item of a
model. -/
def clearsIndex (item : Item) : Bool :=
  item.refinesIndex && item.endsFields

end Item

/-- Every index of the model has a field. -/
def Model.ListsFields (model : Model) : Prop :=
  ∀ index ∈ model.indexes, index.fields ≠ []

namespace Model

variable {dialect : Dialect} {model next : Model} {item : Item}

theorem listsFields_of_indexes_eq (same : next.indexes = model.indexes) :
    next.ListsFields ↔ model.ListsFields := by
  rw [ListsFields, ListsFields, same]

theorem listsFields_addDirectives (model : Model) (directives : List Directive) :
    (directives.foldl addDirective model).ListsFields ↔
      model.ListsFields ∧ ∀ directive ∈ directives, directive.fields? ≠ some [] := by
  induction directives generalizing model with
  | nil => simp
  | cons directive later inductionHypothesis =>
      rw [List.foldl_cons, inductionHypothesis, List.forall_mem_cons, ← and_assoc]
      refine and_congr_left' ?_
      cases directive <;>
        simp [addDirective, ListsFields, Directive.fields?, or_imp, forall_and]

/-- A line of directives leaves every index a field unless the last of them is an index whose fields
the nested lines take away. -/
theorem listsFields_addDirectiveLine
    (run : model.addDirectiveLine dialect item.line item.nested = .ok next) :
    next.ListsFields ↔ model.ListsFields ∧
      ¬ (item.lastConstraint?.any Attribute.declaresIndex = true ∧ item.endsFields = true) := by
  simp only [addDirectiveLine, bind_eq_ok_iff, atLocation_eq_ok_iff] at run
  obtain ⟨directives, ⟨calls, areCalls, areRead⟩, run⟩ := run
  have declared := Directive.isDeclaredBy_readDirectives areRead
  have filled : ∀ directive ∈ directives, directive.fields? ≠ some [] := by
    intro directive listed
    obtain ⟨call, _, isDeclared⟩ := exists_of_forall₂_of_mem declared listed
    exact isDeclared.filled
  have isLast : item.lastConstraint? = (calls.filter Attribute.declaresConstraint).getLast? := by
    have areCalls := mapError_eq_ok_iff.mp areCalls
    simp only [Item.lastConstraint?, areCalls]
  have isEmpty : item.endsFields = true ↔ (item.nested.filterMap fun line =>
      Index.listedFields? line.content).getLast? = some [] := beq_iff_eq
  rw [isLast, isEmpty]
  split at run
  · next outcome isOutcome =>
      simp only [bind_eq_ok_iff, pure_eq_ok_iff] at run
      obtain ⟨refined, rfl, rfl⟩ := run
      rw [listsFields_addDirectives, Directive.filled_refineLastConstraint ?_ declared isOutcome]
      intro directive changed isRefined
      rw [← Directive.fields?_describe directive item.line.content.splitDescription.2]
      exact foldlM_last_write (fun _ _ _ step =>
        Directive.fields?_refine (atLocation_eq_ok_iff.mp step)) isRefined
  · next noConstraint noNested =>
    rw [pure_eq_ok_iff] at run
    subst run
    rw [listsFields_addDirectives, noNested]
    exact ⟨fun lists => ⟨lists.1, by simp⟩, fun lists => ⟨lists.1, filled⟩⟩
  · simp only [throw_eq_ok_iff] at run

/-- An item of a section for indexes declares an index with a field unless the nested lines take its
fields away. -/
theorem listsFields_addIndex
    (run : model.addIndex dialect item.line item.nested = .ok next) :
    next.ListsFields ↔ model.ListsFields ∧ ¬ item.endsFields = true := by
  simp only [addIndex, bind_eq_ok_iff, pure_eq_ok_iff, atLocation_eq_ok_iff] at run
  obtain ⟨declared, isRead, index, isRefined, _, _, rfl⟩ := run
  have filled := Index.fields_ne_nil_readLine isRead
  have written : some index.fields = (some declared.fields).map (item.nested.filterMap fun line =>
      Index.listedFields? line.content).getLast?.getD :=
    @foldlM_last_write _ _ _ _ _ (fun index : Index => some index.fields) _ (fun _ _ _ step =>
      congrArg some (Index.fields_refine (atLocation_eq_ok_iff.mp step))) _ _ _ isRefined
  rw [Option.map_some, Option.some_inj] at written
  have outcome : index.fields ≠ [] ↔ ¬ item.endsFields = true := by
    rw [written, Item.endsFields, beq_iff_eq]
    cases (item.nested.filterMap fun line => Index.listedFields? line.content).getLast? with
    | none => simpa using filled
    | some fields => simp
  rw [← outcome]
  simp [ListsFields, or_imp, forall_and]

theorem indexes_addRelation {line : Line} {nested : List Line}
    (run : model.addRelation dialect line nested = .ok next) : next.indexes = model.indexes := by
  simp only [addRelation, bind_eq_ok_iff] at run
  obtain ⟨declared, _, run⟩ := run
  split at run
  · simp only [bind_eq_ok_iff, pure_eq_ok_iff] at run
    obtain ⟨_, _, _, _, rfl⟩ := run
    rfl
  · simp only [throw_eq_ok_iff] at run

theorem indexes_addMetadata {line : Line} {nested : List Line}
    (run : model.addMetadata line nested = .ok next) : next.indexes = model.indexes := by
  unfold addMetadata at run
  split at run
  · contradiction
  · contradiction
  · cases run
    rfl

/-- An item that stands in a section which is known leaves every index a field unless it takes them
away from one. -/
theorem listsFields_addItem (isKnown : BodySection.under item.heading ≠ .unknown)
    (run : model.addItem dialect (.under item.heading) item.line item.nested = .ok next) :
    next.ListsFields ↔ model.ListsFields ∧ item.clearsIndex = false := by
  rw [← Bool.not_eq_true, Item.clearsIndex, Bool.and_eq_true]
  simp only [addItem] at run
  split at run
  · next isDirective =>
      have refines : item.refinesIndex = item.lastConstraint?.any Attribute.declaresIndex := by
        have isKnown : (BodySection.under item.heading != .unknown) = true := bne_iff_ne.mpr isKnown
        refine (if_pos isDirective).trans ?_
        rw [isKnown, Bool.true_and]
      rw [refines]
      exact listsFields_addDirectiveLine run
  · next noDirective =>
      have refines : item.refinesIndex = (BodySection.under item.heading == .indexes) :=
        if_neg noDirective
      rw [refines]
      generalize BodySection.under item.heading = bodySection at run isKnown
      have unchanged : bodySection ≠ .indexes → next.indexes = model.indexes →
          (next.ListsFields ↔ model.ListsFields ∧
            ¬ ((bodySection == .indexes) = true ∧ item.endsFields = true)) := by
        intro elsewhere same
        rw [listsFields_of_indexes_eq same]
        simp [elsewhere]
      cases bodySection with
      | fields =>
          obtain ⟨_, _, _, _, _, _, _, rfl⟩ := addField_eq_ok_iff.mp run
          exact unchanged (by decide) rfl
      | relations => exact unchanged (by decide) (indexes_addRelation run)
      | indexes => simpa using listsFields_addIndex run
      | metadata => exact unchanged (by decide) (indexes_addMetadata run)
      | unknown => contradiction

/-- Every index of a model has a field unless one of its items takes the fields of an index away. -/
theorem listsFields_of_entries {entries : List Entry} {start last : Progress}
    {heading : Option Line} (isSection : start.bodySection = .under heading)
    (run : entries.foldlM (Progress.add dialect) start = .ok last) :
    last.model.ListsFields ↔ start.model.ListsFields ∧
      ∀ item ∈ Entry.items heading entries, item.clearsIndex = false := by
  induction entries generalizing start heading with
  | nil =>
      rw [List.foldlM_nil, pure_eq_ok_iff] at run
      simp [run, Entry.items]
  | cons entry later inductionHypothesis =>
      rw [List.foldlM_cons, bind_eq_ok_iff] at run
      obtain ⟨next, added, run⟩ := run
      have nextSection := Progress.bodySection_add added
      rw [isSection] at nextSection
      cases entry with
      | sectionHeading line =>
          rw [@inductionHypothesis next (some line) nextSection run, Entry.items]
          have same : next.model.indexes = start.model.indexes := by
            simp only [Progress.add] at added
            split at added <;> cases added <;> rfl
          rw [listsFields_of_indexes_eq same]
      | quote line =>
          have same : next.model.indexes = start.model.indexes := by cases added; rfl
          rw [inductionHypothesis nextSection run, Entry.items, listsFields_of_indexes_eq same]
      | item depth line nested =>
          rw [inductionHypothesis nextSection run, Entry.items]
          simp only [Progress.add, isSection] at added
          split at added
          · next isUnknown =>
              cases added
              have keeps : ({ heading, line, nested } : Item).clearsIndex = false := by
                simp [Item.clearsIndex, Item.refinesIndex, eq_of_beq isUnknown]
              split <;> simp [keeps]
          · next isKnown =>
              split at added
              · contradiction
              · next shallow =>
                  simp only [bind_eq_ok_iff, pure_eq_ok_iff] at added
                  obtain ⟨model, isItem, rfl⟩ := added
                  have item := @listsFields_addItem dialect start.model model
                    { heading, line, nested } (by simpa using isKnown) isItem
                  rw [if_pos (Nat.le_of_not_lt shallow), List.forall_mem_cons, item, and_assoc]

/-- The indexes of a header have fields. -/
theorem listsFields_ofHeader {kind : ModelKind} {header : Header} {location : Location}
    (run : ofHeader dialect kind header location = .ok model) : model.ListsFields := by
  simp only [ofHeader, bind_eq_ok_iff, pure_eq_ok_iff, atLocation_eq_ok_iff] at run
  obtain ⟨directives, areRead, rfl⟩ := run
  have declared := Directive.isDeclaredBy_readDirectives areRead
  refine (listsFields_of_indexes_eq rfl).mpr ((listsFields_addDirectives _ directives).mpr ⟨?_, ?_⟩)
  · exact fun index listed => absurd listed List.not_mem_nil
  · intro directive listed
    obtain ⟨call, _, isDeclared⟩ := exists_of_forall₂_of_mem declared listed
    exact isDeclared.filled

end Model

/-! ## Documents -/

/-- An entity of a block. If it is a model or an interface, every index of it has a field as long as
no item of the block takes them away. -/
def Block.TellsIndexFields (block : Block) (entity : Entity) : Prop :=
  ∀ model, entity = .model model →
    ((∀ index ∈ model.indexes, index.fields ≠ []) ↔
      ∀ item ∈ block.items, item.clearsIndex = false)

theorem Block.tellsIndexFields_of_read {dialect : Dialect} {block : Block} {entity : Entity}
    {warnings : List Diagnostic} (noRoot : ∀ line ∈ block.body, line.depth? ≠ some 0)
    (isRead : block.spoken.read dialect = .ok (entity, warnings)) :
    block.TellsIndexFields entity := by
  rintro model rfl
  rw [block.items_eq_entryItems noRoot]
  obtain ⟨header, _, reads⟩ := Block.reads_of_read isRead
  cases reads with
  | model _ isModel =>
      simp only [Model.read, bind_eq_ok_iff, pure_eq_ok_iff, Prod.mk.injEq] at isModel
      obtain ⟨start, started, progress, added, rfl, rfl⟩ := isModel
      have isSection : ({ model := start } : Model.Progress).bodySection = .under none := rfl
      have lists := Model.listsFields_of_entries isSection added
      rw [and_iff_right (Model.listsFields_ofHeader started)] at lists
      exact lists

namespace Document

/-- Every index of a document that was read has a field, unless the lines nested under an item take
the fields of an index away. -/
theorem read_listsFields {options : ReadingOptions} {source : Text} {document : Document}
    {warnings : List Diagnostic} (isRead : read options source = .ok (document, warnings)) :
    ∃ preamble blocks, IsDivided document.dialect (readLines source) preamble blocks ∧
      List.Forall₂ Block.TellsIndexFields blocks document.entities := by
  refine @forall₂_blocks_of_read options source document warnings
    (fun _ => Block.TellsIndexFields) ?_ ?_ isRead
  · exact fun _ _ _ _ noRoot => Block.tellsIndexFields_of_read noRoot
  · rintro declared _ block entity tells model isModel
    cases entity with
    | enumeration => contradiction
    | model before =>
        cases isModel
        exact tells before rfl

end Document

/-- Indexes in the three places for them. Below the directives stands a list without fields, with
another one behind it, and below the last item one that belongs to no index. -/
def library : Text :=
  "## Book @index(title)
- @unique(isbn) @index(title)
  - fields:
  - fields: year
### Indexes
- isbn, title
### Notes
- title
  - fields:".toList

/-- All indexes of the library have fields. -/
theorem library_listsFields :
    ∃ document warnings, Document.read {} library = .ok (document, warnings) ∧
      (document.models.map fun model => model.indexes.map Index.fields) =
        [[["title"], ["isbn"], ["year"], ["isbn", "title"]]] ∧
      ∃ preamble blocks, IsDivided document.dialect (readLines library) preamble blocks ∧
        List.Forall₂ Block.TellsIndexFields blocks document.entities := by
  have declared : (Document.read {} library).map (fun outcome =>
      outcome.1.models.map fun model => model.indexes.map Index.fields) =
      .ok [[["title"], ["isbn"], ["year"], ["isbn", "title"]]] := by
    decide +kernel
  obtain ⟨⟨document, warnings⟩, isRead, fields⟩ := map_eq_ok_iff.mp declared
  exact ⟨document, warnings, isRead, fields, Document.read_listsFields isRead⟩

/-- An index line with an empty list below it. -/
def emptied : Text :=
  "## A
### Indexes
- x
  - fields:".toList

/-- The index is read without a fault, and without a field. -/
theorem emptied_listsNoField :
    ∃ document warnings, Document.read {} emptied = .ok (document, warnings) ∧
      ∃ model ∈ document.models, ∃ index ∈ model.indexes, index.fields = [] := by
  have declared : (Document.read {} emptied).map (fun outcome =>
      outcome.1.models.any fun model => model.indexes.any fun index => index.fields == []) =
      .ok true := by
    decide +kernel
  obtain ⟨⟨document, warnings⟩, isRead, found⟩ := map_eq_ok_iff.mp declared
  refine ⟨document, warnings, isRead, ?_⟩
  simpa only [List.any_eq_true, beq_iff_eq] using found

end SchemaMarkup
