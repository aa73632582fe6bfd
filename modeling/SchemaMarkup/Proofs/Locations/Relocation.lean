import SchemaMarkup.Proofs.Outcome
import SchemaMarkup.Proofs.Reading.SpokenLines

/-!
# Relocation

What is read from a line remembers where the line stands. Everything that carries locations
can be moved: `relocate` applies one function to each location in it and leaves every other
part as it is. A line is nothing but its kind, its content and its location, so lines can be
moved like the values that are read from them.

Moving every location to `Location.unknown` leaves what does not depend on places, and
`locations` lists the places themselves.
-/

namespace SchemaMarkup

variable (move : Location → Location)

namespace Line

/-- The line in another place. -/
def relocate (line : Line) : Line :=
  let place := move line.location
  { line with number := place.line, raw := place.text.toList, span := place.span }

@[simp] theorem location_relocate (line : Line) :
    (line.relocate move).location = move line.location := by
  simp [relocate, location]

@[simp] theorem kind_relocate (line : Line) : (line.relocate move).kind = line.kind := rfl

@[simp] theorem content_relocate (line : Line) :
    (line.relocate move).content = line.content := rfl

@[simp] theorem opensSection_relocate (line : Line) :
    (line.relocate move).opensSection = line.opensSection := rfl

@[simp] theorem depth?_relocate (line : Line) : (line.relocate move).depth? = line.depth? := rfl

/-- A line is its kind, its content and its location. -/
theorem ext_location {line other : Line} (kind : line.kind = other.kind)
    (content : line.content = other.content) (location : line.location = other.location) :
    line = other := by
  obtain ⟨number, kind, content, raw, span⟩ := line
  simp only [Line.location, Location.mk.injEq, String.ofList_inj] at location
  obtain ⟨rfl, rfl, rfl⟩ := location
  simp_all

/-- A line whose location stays is left as it is. -/
theorem relocate_of_fixed {line : Line} (fixed : move line.location = line.location) :
    line.relocate move = line :=
  ext_location rfl rfl (by rw [location_relocate, fixed])

end Line

/-- The block with its lines in other places. -/
def Block.relocate (block : Block) : Block where
  heading := block.heading.relocate move
  body := block.body.map (Line.relocate move)

/-- The entry with its lines in other places. -/
def Entry.relocate : Entry → Entry
  | .sectionHeading line => .sectionHeading (line.relocate move)
  | .quote line => .quote (line.relocate move)
  | .item depth line nested =>
      .item depth (line.relocate move) (nested.map (Line.relocate move))

/-- The declaration with its block in another place. -/
def Declaration.relocate (declaration : Declaration) : Declaration :=
  { declaration with block := declaration.block.relocate move }

/-! ## What is read from lines -/

def Field.relocate (field : Field) : Field :=
  { field with location := move field.location }

def Relation.relocate (relation : Relation) : Relation :=
  { relation with location := move relation.location }

def Index.relocate (index : Index) : Index :=
  { index with location := move index.location }

def Directive.relocate : Directive → Directive
  | .index declared => .index (declared.relocate move)
  | .relation declared => .relation (declared.relocate move)
  | .other call => .other call

def Enumeration.relocate (enumeration : Enumeration) : Enumeration :=
  { enumeration with location := move enumeration.location }

/-- The model with its own location and those of its parts moved. -/
def Model.relocate (model : Model) : Model :=
  { model with
    fields := model.fields.map (Field.relocate move)
    fullFields := model.fullFields.map (Field.relocate move)
    relations := model.relations.map (Relation.relocate move)
    indexes := model.indexes.map (Index.relocate move)
    location := move model.location }

def Entity.relocate : Entity → Entity
  | .model contents => .model (contents.relocate move)
  | .enumeration contents => .enumeration (contents.relocate move)

@[simp] theorem Entity.name_relocate (entity : Entity) :
    (entity.relocate move).name = entity.name := by
  cases entity <;> rfl

@[simp] theorem Entity.map_name_relocate (entities : List Entity) :
    (entities.map (Entity.relocate move)).map Entity.name = entities.map Entity.name := by
  simp [Function.comp_def]

/-- The document with every location in it moved. -/
def Document.relocate (document : Document) : Document :=
  { document with
    entities := document.entities.map (Entity.relocate move)
    distinctNames := by rw [Entity.map_name_relocate]; exact document.distinctNames }

def Diagnostic.relocate (diagnostic : Diagnostic) : Diagnostic :=
  { diagnostic with
    location := move diagnostic.location
    related := diagnostic.related.map fun related => (move related.1, related.2) }

/-- The error with the lines that it is about moved. -/
def SchemaError.relocate : SchemaError → SchemaError
  | .structural fault location => .structural fault (move location)
  | .unknownReference entity name location => .unknownReference entity name (move location)
  | .invalidInheritance fault location => .invalidInheritance fault (move location)
  | .duplicateEntity name location first => .duplicateEntity name (move location) (move first)
  | .duplicateField entity field location => .duplicateField entity field (move location)
  | .duplicateDefaultEntity first second location =>
      .duplicateDefaultEntity first second (move location)

@[simp] theorem SchemaError.code_relocate (error : SchemaError) :
    (error.relocate move).code = error.code := by
  cases error <;> rfl

@[simp] theorem SchemaError.detail_relocate (error : SchemaError) :
    (error.relocate move).detail = error.detail := by
  cases error <;> rfl

@[simp] theorem SchemaError.title_relocate (error : SchemaError) :
    (error.relocate move).title = error.title := by
  cases error <;> rfl

/-! ## Lists of locations -/

/-- The location of a model and those of its parts, inherited fields included. -/
def Model.locations (model : Model) : List Location :=
  model.location :: model.fields.map Field.location ++ model.fullFields.map Field.location ++
    model.relations.map Relation.location ++ model.indexes.map Index.location

def Entity.locations : Entity → List Location
  | .model contents => contents.locations
  | .enumeration contents => [contents.location]

/-- Every location in a document. -/
def Document.locations (document : Document) : List Location :=
  document.entities.flatMap Entity.locations

/-- The line that a finding is about and the further lines that it names. -/
def Diagnostic.locations (diagnostic : Diagnostic) : List Location :=
  diagnostic.location :: diagnostic.related.map Prod.fst

theorem Model.locations_relocate (model : Model) :
    (model.relocate move).locations = model.locations.map move := by
  simp [locations, relocate, Field.relocate, Relation.relocate, Index.relocate,
    Function.comp_def]

theorem Document.locations_relocate (document : Document) :
    (document.relocate move).locations = document.locations.map move := by
  rw [locations, locations, relocate, List.flatMap_map, List.map_flatMap]
  refine List.flatMap_congr fun entity _ => ?_
  cases entity with
  | model contents => exact contents.locations_relocate move
  | enumeration contents => rfl

theorem Diagnostic.locations_relocate (diagnostic : Diagnostic) :
    (diagnostic.relocate move).locations = diagnostic.locations.map move := by
  simp [locations, relocate, Function.comp_def]

/-- The finding for an error names the lines that the error is about. -/
theorem SchemaError.diagnostic_relocate (error : SchemaError) :
    (error.relocate move).diagnostic = error.diagnostic.relocate move := by
  cases error <;> rfl

/-! ## Without locations -/

/-- The line without its place. -/
def Line.withoutLocation (line : Line) : Line :=
  line.relocate fun _ => .unknown

/-- The entity with every location unknown. -/
def Entity.withoutLocations (entity : Entity) : Entity :=
  entity.relocate fun _ => .unknown

/-- The document with every location unknown. -/
def Document.withoutLocations (document : Document) : Document :=
  document.relocate fun _ => .unknown

/-- The finding with every location unknown. -/
def Diagnostic.withoutLocations (diagnostic : Diagnostic) : Diagnostic :=
  diagnostic.relocate fun _ => .unknown

/-- The error with every location unknown. -/
def SchemaError.withoutLocations (error : SchemaError) : SchemaError :=
  error.relocate fun _ => .unknown

/-! ## Outcomes -/

section Outcomes

variable {Value Result Item Other State Next : Type}

/-- The outcome with its value or the locations of its error changed. -/
def relocateOutcome (change : Value → Result) (outcome : Except SchemaError Value) :
    Except SchemaError Result :=
  (outcome.map change).mapError (SchemaError.relocate move)

@[simp] theorem relocateOutcome_ok (change : Value → Result) (value : Value) :
    relocateOutcome move change (.ok value) = .ok (change value) := rfl

@[simp] theorem relocateOutcome_pure (change : Value → Result) (value : Value) :
    relocateOutcome move change (pure value) = pure (change value) := rfl

@[simp] theorem relocateOutcome_error (change : Value → Result) (error : SchemaError) :
    relocateOutcome move change (.error error) = .error (error.relocate move) := rfl

@[simp] theorem relocateOutcome_throw (change : Value → Result) (error : SchemaError) :
    relocateOutcome move change (throw error) = throw (error.relocate move) := rfl

variable {move}

/-- Runs that are related step by step are related. -/
theorem bind_relocateOutcome {change : Value → Result} {changeLast : State → Next}
    {first : Except SchemaError Value} {movedFirst : Except SchemaError Result}
    {next : Value → Except SchemaError State} {movedNext : Result → Except SchemaError Next}
    (same : movedFirst = relocateOutcome move change first)
    (each : ∀ value, movedNext (change value) = relocateOutcome move changeLast (next value)) :
    movedFirst >>= movedNext = relocateOutcome move changeLast (first >>= next) := by
  subst same
  cases first with
  | error error => rfl
  | ok value => exact each value

/-- A piece of a line is read alike in every place. -/
theorem atLocation_move (location : Location) (read : Except LineFault Value) :
    atLocation (move location) read = relocateOutcome move id (atLocation location read) := by
  cases read <;> rfl

theorem atLocation_map (change : Value → Result) (location : Location)
    (read : Except LineFault Value) :
    atLocation (move location) (change <$> read) =
      relocateOutcome move change (atLocation location read) := by
  cases read <;> rfl

/-- Loops whose rounds are related are related. -/
theorem foldlM_relocateOutcome {step : State → Item → Except SchemaError State}
    {moved : Next → Other → Except SchemaError Next} {change : State → Next}
    {place : Item → Other}
    (each : ∀ state item,
      moved (change state) (place item) = relocateOutcome move change (step state item))
    (start : State) (items : List Item) :
    (items.map place).foldlM moved (change start) =
      relocateOutcome move change (items.foldlM step start) := by
  induction items generalizing start with
  | nil => rfl
  | cons item rest inductionHypothesis =>
      rw [List.map_cons, List.foldlM_cons, List.foldlM_cons]
      exact bind_relocateOutcome (each start item) inductionHypothesis

/-- Lists whose items are read alike are read alike. -/
theorem mapM_relocateOutcome {read : Item → Except SchemaError Value}
    {moved : Other → Except SchemaError Result} {change : Value → Result} {place : Item → Other}
    (each : ∀ item, moved (place item) = relocateOutcome move change (read item))
    (items : List Item) :
    (items.map place).mapM moved =
      relocateOutcome move (List.map change) (items.mapM read) := by
  induction items with
  | nil => rfl
  | cons item rest inductionHypothesis =>
      rw [List.map_cons, List.mapM_cons, List.mapM_cons]
      refine bind_relocateOutcome (each item) fun value => ?_
      exact bind_relocateOutcome inductionHypothesis fun values => rfl

end Outcomes

end SchemaMarkup
