import SchemaMarkup.Proofs.Reading.DeclaredFields

/-!
# Descriptions of models

The quotes between the items of a block are the paragraphs of a description. Reading a block adds
them to the description of its model one below the other and does nothing else with either
(`Model.Progress.foldlM_described`), whatever the sections that they stand in.
-/

namespace SchemaMarkup

/-! ## Paragraphs -/

/-- Two descriptions one below the other. -/
def joinParagraphs : Option String → Option String → Option String
  | none, below => below
  | some above, none => some above
  | some above, some below => some (above ++ "\n" ++ below)

theorem appendParagraph_eq (description : Option String) (text : Text) :
    appendParagraph description text = joinParagraphs description text.nonBlank? := by
  unfold appendParagraph
  generalize text.nonBlank? = paragraph
  cases paragraph <;> cases description <;> rfl

@[simp] theorem joinParagraphs_none (description : Option String) :
    joinParagraphs description none = description := by
  cases description <;> rfl

theorem joinParagraphs_assoc (first second third : Option String) :
    joinParagraphs (joinParagraphs first second) third =
      joinParagraphs first (joinParagraphs second third) := by
  cases first <;> cases second <;> cases third <;> simp [joinParagraphs, String.append_assoc]

/-- Two paragraphs are longer than each of them. -/
theorem length_joined (above below : String) :
    above.length < (above ++ "\n" ++ below).length ∧
      below.length < (above ++ "\n" ++ below).length := by
  have lineFeed : "\n".length = 1 := rfl
  rw [String.length_append, String.length_append]
  omega

theorem joinParagraphs_left_cancel {above first second : Option String}
    (same : joinParagraphs above first = joinParagraphs above second) : first = second := by
  cases above with
  | none => exact same
  | some above =>
      cases first <;> cases second <;>
        simp only [joinParagraphs, Option.some.injEq, String.append_right_inj] at same
      · rfl
      · exact absurd (congrArg String.length same) (Nat.ne_of_lt (length_joined above _).1)
      · exact absurd (congrArg String.length same) (Nat.ne_of_gt (length_joined above _).1)
      · exact congrArg some same

theorem joinParagraphs_right_cancel {first second below : Option String}
    (same : joinParagraphs first below = joinParagraphs second below) : first = second := by
  cases below with
  | none => simpa using same
  | some below =>
      cases first <;> cases second <;>
        simp only [joinParagraphs, Option.some.injEq, String.append_left_inj] at same
      · rfl
      · exact absurd (congrArg String.length same) (Nat.ne_of_lt (length_joined _ below).2)
      · exact absurd (congrArg String.length same) (Nat.ne_of_gt (length_joined _ below).2)
      · exact congrArg some same

namespace Entry

/-- The paragraph that an entry is. -/
def paragraph? : Entry → Option String
  | .quote line => line.content.nonBlank?
  | _ => none

/-- The paragraphs among some entries, one below the other. -/
def paragraphs (entries : List Entry) : Option String :=
  entries.foldr (fun entry below => joinParagraphs entry.paragraph? below) none

theorem paragraphs_cons (entry : Entry) (later : List Entry) :
    paragraphs (entry :: later) = joinParagraphs entry.paragraph? (paragraphs later) := rfl

end Entry

/-! ## Items -/

namespace Model

/-- The model with another description. -/
def described (model : Model) (description : Option String) : Model :=
  { model with description }

variable {dialect : Dialect} {model : Model} {description : Option String} {line : Line}
  {nested : List Line}

theorem addDirectives_described (directives : List Directive) :
    directives.foldl addDirective (model.described description) =
      (directives.foldl addDirective model).described description := by
  refine List.foldl_hom (fun model : Model => model.described description)
    fun model directive => ?_
  cases directive <;> rfl

theorem addField_described :
    (model.described description).addField line nested =
      (·.described description) <$> model.addField line nested := by
  simp only [addField, map_bind]
  refine bind_congr fun _ => bind_congr fun field => bind_congr fun _ => ?_
  have sameFields : (model.described description).field? = model.field? := rfl
  rw [sameFields]
  cases (model.field? field.name).isSome <;> rfl

theorem addRelation_described :
    (model.described description).addRelation dialect line nested =
      (·.described description) <$> model.addRelation dialect line nested := by
  simp only [addRelation, map_bind]
  refine bind_congr fun declared => ?_
  cases declared with
  | none => rfl
  | some declared => simp only [map_bind]; rfl

theorem addIndex_described :
    (model.described description).addIndex dialect line nested =
      (·.described description) <$> model.addIndex dialect line nested := by
  simp only [addIndex, map_bind]
  rfl

theorem addMetadata_described :
    (model.described description).addMetadata line nested =
      (·.described description) <$> model.addMetadata line nested := by
  unfold addMetadata
  split <;> rfl

theorem addDirectiveLine_described :
    (model.described description).addDirectiveLine dialect line nested =
      (·.described description) <$> model.addDirectiveLine dialect line nested := by
  have sameDirectives : (model.described description).readDirectives = model.readDirectives := rfl
  simp only [addDirectiveLine, map_bind, sameDirectives, addDirectives_described]
  refine bind_congr fun directives => ?_
  split
  · simp only [map_bind, map_pure]
  · rfl
  · rfl

/-- An item neither looks at the description nor changes it. -/
theorem addItem_described (bodySection : BodySection) :
    (model.described description).addItem dialect bodySection line nested =
      (·.described description) <$> model.addItem dialect bodySection line nested := by
  simp only [addItem]
  split
  · exact addDirectiveLine_described
  · cases bodySection with
    | fields => exact addField_described
    | relations => exact addRelation_described
    | indexes => exact addIndex_described
    | metadata => exact addMetadata_described
    | unknown => rfl

namespace Progress

variable {progress : Progress}

/-- The progress with another description of the model. -/
def described (progress : Progress) (description : Option String) : Progress :=
  { progress with model := progress.model.described description }

/-- A quote adds a paragraph to the description, and no other entry looks at it. -/
theorem add_described (entry : Entry) :
    (progress.described description).add dialect entry =
      (·.described (joinParagraphs description entry.paragraph?)) <$>
        progress.add dialect entry := by
  cases entry with
  | sectionHeading line =>
      simp only [add, Entry.paragraph?, joinParagraphs_none]
      cases BodySection.ofHeading line.content <;> rfl
  | quote line =>
      simp only [add, Entry.paragraph?, ← appendParagraph_eq]
      rfl
  | item depth line nested =>
      have sameSection : (progress.described description).bodySection = progress.bodySection := rfl
      simp only [add, Entry.paragraph?, joinParagraphs_none, sameSection]
      split
      · rfl
      · split
        · rfl
        · have item := @addItem_described dialect progress.model description line nested
            progress.bodySection
          have sameModel : (progress.described description).model =
            progress.model.described description := rfl
          simp only [sameModel, item, map_bind, bind_map_left]
          rfl

/-- Entries add their paragraphs to the description of a model, and whatever else they do has
nothing to do with it. -/
theorem foldlM_described (entries : List Entry) :
    entries.foldlM (add dialect) (progress.described description) =
      (·.described (joinParagraphs description (Entry.paragraphs entries))) <$>
        entries.foldlM (add dialect) progress := by
  induction entries generalizing progress description with
  | nil => simp [Entry.paragraphs]
  | cons entry later inductionHypothesis =>
      simp only [List.foldlM_cons, add_described, bind_map_left, inductionHypothesis, map_bind,
        Entry.paragraphs_cons, joinParagraphs_assoc]

end Progress

end Model

end SchemaMarkup
