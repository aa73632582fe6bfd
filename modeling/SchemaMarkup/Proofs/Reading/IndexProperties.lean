import Mathlib.Data.List.Induction
import SchemaMarkup.Grammar.Constraint
import SchemaMarkup.Proofs.Outcome

/-!
# Property lines of indexes

`Index.Refines` says what one property line makes of an index. It is the authority on property lines
here: `Index.refines_of_refine` takes a line apart once, and everything else goes by its cases.

An index is given a name where it is declared or by a property line. Otherwise the dialect generates
one from the fields and the uniqueness. Which of the two it was is not remembered: a line that
changes fields or uniqueness takes the name for a generated one if it is the name that the dialect
would generate. So a generated name follows its index through every run of lines
(`Index.name_refinedBy_of_unnamed`). A given name stays until a line leads away from fields and
uniqueness for which the dialect generates that very name (`Index.keepsName_iff`).
-/

namespace SchemaMarkup

/-- A run of lines goes on from what the lines before have made. -/
theorem refineAll_concat {Value Item Fault : Type} (refine : Value → Item → Except Fault Value)
    (value : Value) (lines : List Item) (line : Item) :
    refineAll refine value (lines ++ [line]) =
      (refine (refineAll refine value lines) line).toOption.getD
        (refineAll refine value lines) := by
  simp only [refineAll, List.foldl_append, List.foldl_cons, List.foldl_nil]

/-- A key that names one property names those whose keys match it. -/
theorem keysMatch_of_keysMatch {key : Text} {one : String}
    (isOne : keysMatch key one.toList = true) (other : String) :
    keysMatch key other.toList = keysMatch one.toList other.toList := by
  rw [keysMatch, beq_iff_eq] at isOne
  rw [keysMatch, keysMatch, isOne]

namespace Index

variable {dialect : Dialect} {index next : Index} {text : Text}

/-! ## One line -/

/-- What a property with a key and a value makes of an index. -/
inductive Refines (dialect : Dialect) (index : Index) (key value : Text) : Index → Prop where
  | fields {fields : List String} (isKey : keysMatch key "fields".toList = true)
      (areRead : (value.pieces ',').mapM readField = .ok fields) :
      Refines dialect index key value ({ index with fields }.renamedFrom index dialect)
  | unique {isUnique : Bool} (isKey : keysMatch key "unique".toList = true)
      (isTruth : value.truth? = some isUnique) :
      Refines dialect index key value ({ index with isUnique }.renamedFrom index dialect)
  | description
      (isKey : (keysMatch key "description".toList || keysMatch key "desc".toList) = true) :
      Refines dialect index key value { index with description := value.unquote.nonBlank? }
  | name (isKey : keysMatch key "name".toList = true) :
      Refines dialect index key value { index with name := String.ofList value.unquote }

/-- A line that refines an index has a key and a value. -/
theorem refines_of_refine (isRefined : index.refine dialect text = .ok next) :
    ∃ key value, readProperty text = .ok (key, value) ∧ index.Refines dialect key value next := by
  simp only [refine, bind_eq_ok_iff] at isRefined
  obtain ⟨⟨key, value⟩, isProperty, isRefined⟩ := isRefined
  refine ⟨key, value, isProperty, ?_⟩
  split at isRefined
  · next isFields =>
      simp only [bind_eq_ok_iff, pure_eq_ok_iff] at isRefined
      obtain ⟨fields, areRead, rfl⟩ := isRefined
      exact .fields isFields areRead
  · split at isRefined
    · next isUnique =>
        split at isRefined
        · next isTruth => exact pure_eq_ok_iff.mp isRefined ▸ .unique isUnique isTruth
        · simp only [throw_eq_ok_iff] at isRefined
    · split at isRefined
      · next isDescription => exact pure_eq_ok_iff.mp isRefined ▸ .description isDescription
      · split at isRefined
        · next isName => exact pure_eq_ok_iff.mp isRefined ▸ .name isName
        · simp only [throw_eq_ok_iff] at isRefined

/-- Whether a line sets the name of an index. -/
def setsName (text : Text) : Bool :=
  match readProperty text with
  | .ok (key, _) => keysMatch key "name".toList
  | .error _ => false

theorem setsName_of_property {key value : Text}
    (isProperty : readProperty text = .ok (key, value)) :
    setsName text = keysMatch key "name".toList := by
  rw [setsName, isProperty]

/-- The index behind a property line, which is the index itself if the line fails. -/
def refined (index : Index) (dialect : Dialect) (text : Text) : Index :=
  (index.refine dialect text).toOption.getD index

/-- What a line that does not set the name makes of it: a generated name is generated anew, and any
other name stays. -/
theorem name_refined (noName : setsName text = false) :
    (index.refined dialect text).name =
      if index.name = index.generatedName dialect then
        (index.refined dialect text).generatedName dialect
      else
        index.name := by
  rw [refined]
  cases isRefined : index.refine dialect text with
  | error fault =>
      simp only [Except.toOption, Option.getD_none]
      split
      · assumption
      · rfl
  | ok next =>
      obtain ⟨key, value, isProperty, refines⟩ := refines_of_refine isRefined
      rw [setsName_of_property isProperty] at noName
      simp only [Except.toOption, Option.getD_some]
      by_cases generated : index.name = index.generatedName dialect
      · rw [if_pos generated]
        cases refines with
        | fields | unique =>
            simp only [renamedFrom, generated, beq_self_eq_true, if_true]
            rfl
        | description => exact generated
        | name isKey => exact absurd (noName.symm.trans isKey) (by decide)
      · rw [if_neg generated]
        cases refines with
        | fields | unique => simp only [renamedFrom, beq_iff_eq, if_neg generated]
        | description => rfl
        | name isKey => exact absurd (noName.symm.trans isKey) (by decide)

/-! ## Given names -/

/-- The name that stands before the fields of an index line. -/
def nameOfLine? (text : Text) : Option String :=
  match text.splitDescription.1.splitSemantic with
  | .ok annotated => (annotated.before.cutAt ':').bind fun cut => cut.before.unquote.nonBlank?
  | .error _ => none

/-- An index that has just been given a name. -/
inductive IsNamed (dialect : Dialect) : String → Index → Prop where
  | line {location : Location} {text : Text} {name : String} {index : Index}
      (isRead : readLine dialect location text = .ok index)
      (isName : nameOfLine? text = some name) :
      IsNamed dialect name index
  | argument {location : Location} {call : Attribute} {name : String} {index : Index}
      (isRead : ofAttribute dialect location call = .ok index)
      (isName : call.named? "name" = some name) : IsNamed dialect name index
  | property {earlier index : Index} {text key value : Text}
      (isRefined : earlier.refine dialect text = .ok index)
      (isProperty : readProperty text = .ok (key, value))
      (isName : keysMatch key "name".toList = true) :
      IsNamed dialect (String.ofList value.unquote) index

/-- An index that is declared without a name. -/
inductive IsUnnamed (dialect : Dialect) : Index → Prop where
  | line {location : Location} {text : Text} {index : Index}
      (isRead : readLine dialect location text = .ok index) (noName : nameOfLine? text = none) :
      IsUnnamed dialect index
  | argument {location : Location} {call : Attribute} {index : Index}
      (isRead : ofAttribute dialect location call = .ok index)
      (noName : call.named? "name" = none) : IsUnnamed dialect index

theorem name_build {location : Location} {given description : Option String}
    {fields : List String} {isUnique : Bool}
    (built : build dialect location given fields isUnique description = .ok index) :
    index.name = given.getD (index.generatedName dialect) := by
  rw [build] at built
  split at built
  · contradiction
  · cases built
    rfl

/-- An index line gives its name to the index. -/
theorem name_readLine {location : Location} (isRead : readLine dialect location text = .ok index) :
    index.name = (nameOfLine? text).getD (index.generatedName dialect) := by
  simp only [readLine, bind_eq_ok_iff] at isRead
  obtain ⟨_, _, annotated, isSplit, fields, _, built⟩ := isRead
  have split : text.splitDescription.1.splitSemantic = .ok annotated :=
    mapError_eq_ok_iff.mp isSplit
  rw [name_build built, nameOfLine?]
  simp only [split]
  cases annotated.before.cutAt ':' <;> rfl

/-- A directive gives its name to the index. -/
theorem name_ofAttribute {location : Location} {call : Attribute}
    (isRead : ofAttribute dialect location call = .ok index) :
    index.name = (call.named? "name").getD (index.generatedName dialect) := by
  simp only [ofAttribute, bind_eq_ok_iff] at isRead
  obtain ⟨fields, _, built⟩ := isRead
  exact name_build built

/-- An index has the name that it has just been given. -/
theorem IsNamed.name_eq {name : String} (named : IsNamed dialect name index) :
    index.name = name := by
  cases named with
  | line isRead isName => rw [name_readLine isRead, isName, Option.getD_some]
  | argument isRead isName => rw [name_ofAttribute isRead, isName, Option.getD_some]
  | @property _ _ _ _ value isRefined isProperty isName =>
      obtain ⟨_, _, isSame, refines⟩ := refines_of_refine isRefined
      cases isProperty.symm.trans isSame
      have others := keysMatch_of_keysMatch isName
      cases refines with
      | fields isKey => exact absurd ((others _).symm.trans isKey) (by decide)
      | unique isKey => exact absurd ((others _).symm.trans isKey) (by decide)
      | description isKey =>
          rw [others, others] at isKey
          exact absurd isKey (by decide)
      | name => rfl

/-- An index that is declared without a name has the one that the dialect generates. -/
theorem IsUnnamed.name_eq (unnamed : IsUnnamed dialect index) :
    index.name = index.generatedName dialect := by
  cases unnamed with
  | line isRead noName => rw [name_readLine isRead, noName, Option.getD_none]
  | argument isRead noName => rw [name_ofAttribute isRead, noName, Option.getD_none]

/-! ## Runs of lines -/

/-- The index behind a run of property lines of which those that fail are passed over. -/
def refinedBy (index : Index) (dialect : Dialect) (lines : List Text) : Index :=
  refineAll (refine dialect) index lines

theorem refinedBy_concat (lines : List Text) (text : Text) :
    index.refinedBy dialect (lines ++ [text]) =
      (index.refinedBy dialect lines).refined dialect text :=
  refineAll_concat (refine dialect) index lines text

/-- A generated name stays in step with fields and uniqueness, whatever lines follow that do not set
the name, and whether they fail or not. -/
theorem name_refinedBy_of_unnamed (unnamed : IsUnnamed dialect index) {lines : List Text}
    (noName : ∀ text ∈ lines, setsName text = false) :
    (index.refinedBy dialect lines).name =
      if (index.refinedBy dialect lines).isUnique then
        dialect.uniqueName (index.refinedBy dialect lines).fields
      else
        dialect.indexName (index.refinedBy dialect lines).fields := by
  change _ = (index.refinedBy dialect lines).generatedName dialect
  induction lines using List.reverseRecOn with
  | nil => exact unnamed.name_eq
  | append_singleton before text inductionHypothesis =>
      obtain ⟨earlier, last⟩ := List.forall_mem_append.mp noName
      have inStep := inductionHypothesis earlier
      rw [refinedBy_concat, name_refined (last text (List.mem_singleton_self text)), if_pos inStep]

/-- An index line without a name. -/
def cityZip : Index := { name := "IX_City_Zip", fields := ["City", "Zip"], isUnique := false }

/-- Of three lines the second fails. The name follows the others. -/
theorem cityZip_followed :
    let lines := ["unique: yes".toList, "unique: maybe".toList, "fields: City".toList]
    IsUnnamed .legacy cityZip ∧ (∀ text ∈ lines, setsName text = false) ∧
      (cityZip.refinedBy .legacy lines).name =
        (if (cityZip.refinedBy .legacy lines).isUnique then
          Dialect.legacy.uniqueName (cityZip.refinedBy .legacy lines).fields
        else
          Dialect.legacy.indexName (cityZip.refinedBy .legacy lines).fields) ∧
      (cityZip.refinedBy .legacy lines).name = "UK_City" := by
  intro lines
  have isRead : readLine .legacy .unknown "City, Zip".toList = .ok cityZip := by decide +kernel
  have unnamed : IsUnnamed .legacy cityZip := .line isRead (by decide +kernel)
  have noName : ∀ text ∈ lines, setsName text = false := by decide +kernel
  exact ⟨unnamed, noName, name_refinedBy_of_unnamed unnamed noName, by decide +kernel⟩

/-- A given name is kept as long as no line leads away from fields and uniqueness for which the
dialect generates that very name. Where one does, the index has its generated name from there on. -/
theorem keepsName_iff {name : String} (named : IsNamed dialect name index) {lines : List Text}
    (noName : ∀ text ∈ lines, setsName text = false) :
    ((∀ before, before <+: lines → (index.refinedBy dialect before).name = name) ↔
      ∀ before text, before ++ [text] <+: lines →
        (index.refinedBy dialect before).generatedName dialect = name →
          (index.refinedBy dialect (before ++ [text])).generatedName dialect = name) ∧
    ∀ before, before <+: lines → (index.refinedBy dialect before).name = name ∨
      (index.refinedBy dialect before).name =
        (index.refinedBy dialect before).generatedName dialect := by
  have step : ∀ before text, before ++ [text] <+: lines →
      before <+: lines ∧ (index.refinedBy dialect (before ++ [text])).name =
        if (index.refinedBy dialect before).name =
            (index.refinedBy dialect before).generatedName dialect then
          (index.refinedBy dialect (before ++ [text])).generatedName dialect
        else
          (index.refinedBy dialect before).name := by
    intro before text within
    have listed : text ∈ lines := within.subset (by simp)
    refine ⟨(List.prefix_append before [text]).trans within, ?_⟩
    rw [refinedBy_concat]
    exact name_refined (noName text listed)
  refine ⟨⟨?_, ?_⟩, ?_⟩
  · intro keeps before text within generated
    obtain ⟨earlier, next⟩ := step before text within
    rw [keeps _ within, keeps _ earlier, if_pos generated.symm] at next
    exact next.symm
  · intro stays before within
    induction before using List.reverseRecOn with
    | nil => exact named.name_eq
    | append_singleton before text inductionHypothesis =>
        obtain ⟨earlier, next⟩ := step before text within
        rw [next, inductionHypothesis earlier]
        split
        · next generated => exact stays before text within generated.symm
        · rfl
  · intro before within
    induction before using List.reverseRecOn with
    | nil => exact .inl named.name_eq
    | append_singleton before text inductionHypothesis =>
        obtain ⟨earlier, next⟩ := step before text within
        rw [next]
        split
        · exact .inr rfl
        · next apart => exact .inl ((inductionHypothesis earlier).resolve_right apart)

/-- An index line with a name. -/
def byEmail : Index := { name := "Email", fields := ["Email", "Tenant_id"], isUnique := false }

/-- The first line leads to the field for which the name would be generated, and the second does not
lead away from it. -/
theorem byEmail_keepsName :
    let lines := ["fields: Email".toList, "unique: no".toList]
    IsNamed .current "Email" byEmail ∧ (∀ text ∈ lines, setsName text = false) ∧
      ((∀ before, before <+: lines → (byEmail.refinedBy .current before).name = "Email") ↔
        ∀ before text, before ++ [text] <+: lines →
          (byEmail.refinedBy .current before).generatedName .current = "Email" →
            (byEmail.refinedBy .current (before ++ [text])).generatedName .current = "Email") ∧
      byEmail.refinedBy .current lines =
        { name := "Email", fields := ["Email"], isUnique := false } := by
  intro lines
  have isRead : readLine .current .unknown "Email: Email, Tenant_id".toList = .ok byEmail := by
    decide +kernel
  have named : IsNamed .current "Email" byEmail := .line isRead (by decide +kernel)
  have noName : ∀ text ∈ lines, setsName text = false := by decide +kernel
  exact ⟨named, noName, (keepsName_iff named noName).1, by decide +kernel⟩

/-- A given name that is also the generated one is taken for it: the index called `City_Zip` loses
this name with its second field. -/
theorem cityZipByName_renamed :
    ∃ index, IsNamed .current "City_Zip" index ∧ setsName "fields: City".toList = false ∧
      (index.refinedBy .current ["fields: City".toList]).name = "City" := by
  have isRead : readLine .current .unknown "City_Zip: City, Zip".toList =
      .ok { name := "City_Zip", fields := ["City", "Zip"], isUnique := false } := by
    decide +kernel
  exact ⟨_, .line isRead (by decide +kernel), by decide +kernel, by decide +kernel⟩

end Index

end SchemaMarkup
