import SchemaMarkup.Proofs.Reading.Descriptions
import SchemaMarkup.Proofs.Reading.SourceBlocks
import SchemaMarkup.Proofs.SameOutcome

/-!
# Changed blocks

What becomes of a document when the body of one of its blocks changes? The blocks around it are read
as before, as all that they see of it is the name in its heading. So the outcome differs no further
than the outcomes of the block by itself: `Document.sameOutcome_ofSpokenLines` says so of changes
that come out in the description of an entity.
-/

namespace SchemaMarkup

/-! ## One place of a list -/

/-- Two lists that are the same except in one place. -/
inductive OneApart {Item : Type} (relates : Item → Item → Prop) : List Item → List Item → Prop where
  | here {item twin : Item} (related : relates item twin) (later : List Item) :
      OneApart relates (item :: later) (twin :: later)
  | there (item : Item) {later laterTwins : List Item} (apart : OneApart relates later laterTwins) :
      OneApart relates (item :: later) (item :: laterTwins)

namespace OneApart

variable {Fault Item Result : Type} {relates : Item → Item → Prop}
  {relatesLast : Result → Result → Prop} {items twins : List Item}

theorem append_left (front : List Item) (apart : OneApart relates items twins) :
    OneApart relates (front ++ items) (front ++ twins) := by
  induction front with
  | nil => exact apart
  | cons item later inductionHypothesis => exact .there item inductionHypothesis

theorem map {change : Item → Result}
    (each : ∀ item twin, relates item twin → relatesLast (change item) (change twin))
    (apart : OneApart relates items twins) :
    OneApart relatesLast (items.map change) (twins.map change) := by
  induction apart with
  | here related later => exact .here (each _ _ related) _
  | there item _ inductionHypothesis => exact .there _ inductionHypothesis

/-- Lists are the same if they are the same in the one place. -/
theorem eq (same : ∀ item twin, relates item twin → item = twin)
    (apart : OneApart relates items twins) : items = twins := by
  induction apart with
  | here related later => rw [same _ _ related]
  | there item _ inductionHypothesis => rw [inductionHypothesis]

/-- Lists that are the same are so in the one place. -/
theorem exists_of_eq (apart : OneApart relates items twins) (same : items = twins) :
    ∃ item, relates item item := by
  induction apart with
  | @here item twin related later =>
      obtain rfl := (List.cons.inj same).1
      exact ⟨item, related⟩
  | there item _ inductionHypothesis => exact inductionHypothesis (List.cons.inj same).2

/-- Lists are read with the same outcome if the items in the one place are. -/
theorem mapM {read : Item → Except Fault Result}
    (each : ∀ item twin, relates item twin → SameOutcome relatesLast (read item) (read twin))
    (apart : OneApart relates items twins) :
    SameOutcome (OneApart relatesLast) (items.mapM read) (twins.mapM read) := by
  induction apart with
  | here related later =>
      simp only [List.mapM_cons]
      refine (each _ _ related).bind fun _ _ related => ?_
      exact .bind_left _ fun results _ => .ok (.here related results)
  | there item _ inductionHypothesis =>
      simp only [List.mapM_cons]
      refine .bind_left _ fun result _ => ?_
      exact inductionHypothesis.bind fun _ _ apart => .ok (.there result apart)

end OneApart

/-- Runs with the same outcome and the values that they end in. -/
theorem SameOutcome.withValues {Fault Value Twin : Type} {relates : Value → Twin → Prop}
    {first : Except Fault Value} {second : Except Fault Twin}
    (same : SameOutcome relates first second) :
    SameOutcome (fun value twin => relates value twin ∧ first = .ok value ∧ second = .ok twin)
      first second := by
  cases same with
  | error fault => exact .error fault
  | ok related => exact .ok ⟨related, rfl, rfl⟩

/-! ## Headings -/

namespace Declaration

/-- Two bodies under one heading that are read with related outcomes. -/
structure Twins (dialect : Dialect)
    (relates : Entity × List Diagnostic → Entity × List Diagnostic → Prop)
    (block twin : Block) : Prop where
  heading : block.heading = twin.heading
  read : ∀ header, Header.read dialect block.heading.content = .ok header →
    SameOutcome relates (readEntity dialect { header, block })
      (readEntity dialect { header, block := twin })

/-- Later headings see the names of the earlier ones and where they stand. -/
theorem readAllAfter_congr {dialect : Dialect} {earlier others : List Declaration}
    (same : (earlier.map fun declaration => (declaration.name, declaration.location)) =
      others.map fun declaration => (declaration.name, declaration.location))
    (blocks : List Block) :
    readAllAfter dialect earlier blocks = readAllAfter dialect others blocks := by
  induction blocks generalizing earlier others with
  | nil => rfl
  | cons block later inductionHypothesis =>
      simp only [readAllAfter]
      refine bind_congr fun header => ?_
      have found : ∀ declarations : List Declaration,
          (declarations.find? fun other => other.header.name == header.name).map
              (fun declaration => (declaration.name, declaration.location)) =
            (declarations.map fun declaration =>
              (declaration.name, declaration.location)).find? (·.1 == header.name) :=
        fun declarations => by rw [List.find?_map]; rfl
      have sameFound := (found earlier).trans ((congrArg _ same).trans (found others).symm)
      have rest := @inductionHypothesis (earlier ++ [⟨header, block⟩]) (others ++ [⟨header, block⟩])
        (by rw [List.map_append, same, List.map_append])
      generalize (earlier.find? fun other => other.header.name == header.name) = first
        at sameFound ⊢
      generalize (others.find? fun other => other.header.name == header.name) = second
        at sameFound ⊢
      cases first with
      | none =>
          cases second with
          | none => simp only [rest]
          | some other => contradiction
      | some declaration =>
          cases second with
          | none => contradiction
          | some other =>
              have sameLocation := (Prod.mk.inj (Option.some.inj sameFound)).2
              simp only [sameLocation]
              rfl

variable {dialect : Dialect}
  {relates : Entity × List Diagnostic → Entity × List Diagnostic → Prop}

/-- Where one body changes, the headings are read with the same outcome. -/
theorem sameOutcome_readAllAfter {blocks twins : List Block}
    (apart : OneApart (Twins dialect relates) blocks twins) (earlier : List Declaration) :
    SameOutcome (OneApart fun declaration twin =>
        SameOutcome relates (declaration.readEntity dialect) (twin.readEntity dialect))
      (readAllAfter dialect earlier blocks) (readAllAfter dialect earlier twins) := by
  induction apart generalizing earlier with
  | @here block twin related later =>
      simp only [readAllAfter, ← related.heading]
      refine .bind_left _ fun header isHeader => ?_
      have read := related.read header (atLocation_eq_ok_iff.mp isHeader)
      have sameRest : readAllAfter dialect (earlier ++ [⟨header, block⟩]) later =
          readAllAfter dialect (earlier ++ [⟨header, twin⟩]) later :=
        readAllAfter_congr (by simp [name, location, related.heading]) later
      rw [sameRest]
      split
      · exact .error _
      · refine .bind_left _ fun declarations _ => .ok ?_
        refine .here ?_ declarations
        exact read
  | there block _ inductionHypothesis =>
      simp only [readAllAfter]
      refine .bind_left _ fun header _ => ?_
      split
      · exact .error _
      · exact (inductionHypothesis _).bind fun _ _ apart => .ok (.there _ apart)

end Declaration

/-! ## Descriptions -/

/-- The description of an entity. -/
def Entity.description : Entity → Option String
  | .model contents => contents.description
  | .enumeration contents => contents.description

/-- The descriptions of the entities in their order. -/
def Document.descriptions (document : Document) : List (Option String) :=
  document.entities.map Entity.description

/-- Two descriptions with other paragraphs between the same ones. -/
def Surround (first second : Option String) (description other : Option String) : Prop :=
  ∃ above below, description = joinParagraphs (joinParagraphs above first) below ∧
    other = joinParagraphs (joinParagraphs above second) below

theorem eq_of_surround {first second description : Option String}
    (surround : Surround first second description description) : first = second := by
  obtain ⟨above, below, here, there⟩ := surround
  exact joinParagraphs_left_cancel (joinParagraphs_right_cancel (here.symm.trans there))

/-- Two outcomes for a block that are the same if the paragraphs are, and if they are not, have
descriptions around them. -/
structure EntityApart (first second : Option String) (outcome twin : Entity × List Diagnostic) :
    Prop where
  same : first = second → outcome = twin
  descriptions : Surround first second outcome.1.description twin.1.description

/-- Two outcomes for a document that are the same if the paragraphs are, and if they are not, have
descriptions around them in one place. -/
structure DocumentApart (first second : Option String)
    (outcome twin : Document × List Diagnostic) : Prop where
  same : first = second → outcome = twin
  descriptions : OneApart (Surround first second) outcome.1.descriptions twin.1.descriptions

namespace Document

variable {dialect : Dialect} {first second : Option String}

/-- The entities of declarations with distinct names are put in as they are. -/
theorem descriptions_insertAll {blocks : List Block} {declarations : List Declaration}
    {entities : List (Entity × List Diagnostic)} {start : Document} (isNew : start.entities = [])
    (areDeclared : Declaration.readAllAfter dialect [] blocks = .ok declarations)
    (areRead : declarations.mapM (Declaration.readEntity dialect) = .ok entities) :
    (entities.foldl (fun document entity => document.insert entity.1) start).descriptions =
      entities.map fun entity => entity.1.description := by
  have distinctNone : (([] : List Declaration).map Declaration.name).Nodup := List.nodup_nil
  have distinct := ((Declaration.readAllAfter_eq_ok_iff distinctNone).mp areDeclared).2
  rw [List.nil_append, ← Declaration.map_name_of_mapM areRead] at distinct
  have inserted := @insertAll_of_distinct start entities (by simpa [names, isNew] using distinct)
  rw [descriptions, inserted.2.2, isNew, List.nil_append, List.map_map]
  rfl

/-- Where a change to one body comes out in the description of its entity, it comes out in the
same place of the document. -/
theorem sameOutcome_ofLines {lines others preamble : List Line} {blocks twins : List Block}
    (divided : IsDivided dialect lines preamble blocks)
    (dividedToo : IsDivided dialect others preamble twins)
    (apart : OneApart (Declaration.Twins dialect (EntityApart first second)) blocks twins) :
    SameOutcome (DocumentApart first second) (ofLines dialect lines) (ofLines dialect others) := by
  simp only [ofLines, splitBlocks_eq_iff.mpr divided, splitBlocks_eq_iff.mpr dividedToo]
  refine (Declaration.sameOutcome_readAllAfter apart []).withValues.bind ?_
  rintro declarations declaredTwins ⟨apart, areDeclared, areDeclaredToo⟩
  refine (apart.mapM fun _ _ same => same).withValues.bind ?_
  rintro entities entityTwins ⟨apart, areRead, areReadToo⟩
  refine .ok ⟨fun same => ?_, ?_⟩
  · rw [apart.eq fun _ _ entities => entities.same same]
  · rw [descriptions_insertAll rfl areDeclared areRead,
      descriptions_insertAll rfl areDeclaredToo areReadToo]
    exact apart.map fun _ _ entities => entities.descriptions

theorem descriptions_inferForeignKeys (document : Document) :
    document.inferForeignKeys.descriptions = document.descriptions := by
  simp only [inferForeignKeys, mapModels, descriptions, List.map_map]
  refine List.map_congr_left fun entity _ => ?_
  cases entity <;> rfl

theorem descriptions_withoutLocations (document : Document) :
    document.withoutLocations.descriptions = document.descriptions := by
  simp only [withoutLocations, relocate, descriptions, List.map_map]
  refine List.map_congr_left fun entity _ => ?_
  cases entity <;> rfl

/-- The same holds with foreign keys. -/
theorem sameOutcome_ofSpokenLines {options : ReadingOptions} {lines others preamble : List Line}
    {blocks twins : List Block}
    (sameDialect : options.dialect.dialectFor lines = dialect)
    (sameDialectToo : options.dialect.dialectFor others = dialect)
    (divided : IsDivided dialect lines preamble blocks)
    (dividedToo : IsDivided dialect others preamble twins)
    (apart : OneApart (Declaration.Twins dialect (EntityApart first second)) blocks twins) :
    SameOutcome (DocumentApart first second) (ofSpokenLines options lines)
      (ofSpokenLines options others) := by
  simp only [ofSpokenLines, sameDialect, sameDialectToo]
  refine (sameOutcome_ofLines divided dividedToo apart).bind ?_
  rintro ⟨document, warnings⟩ ⟨other, found⟩ ⟨same, apart⟩
  split
  · refine .ok ⟨fun paragraphs => ?_, ?_⟩
    · obtain ⟨rfl, rfl⟩ := Prod.mk.inj (same paragraphs)
      rfl
    · rw [descriptions_inferForeignKeys, descriptions_inferForeignKeys]
      exact apart
  · exact .ok ⟨same, apart⟩

end Document

end SchemaMarkup
