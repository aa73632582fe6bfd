import Mathlib.Data.List.FinRange
import SchemaMarkup.Proofs.FirstOccurrence
import SchemaMarkup.Proofs.Inheritance.Ancestry
import SchemaMarkup.Proofs.Lookup

/-!
# Graphs of documents

The graph of a document is the graph of its models, `InheritanceGraph.membersOf`, and it
is built exactly when the document declares no faulty inheritance. Names are looked up
alike among the models of a document and among the members of its graph, and what a
lookup finds depends on the names alone.
-/

namespace SchemaMarkup

namespace InheritanceGraph

variable {size : Nat}

/-- The members that stand for a list of models. -/
theorem map_get_finRange (members : Vector Model size) :
    (List.finRange size).map (fun place => members.get place) = members.toList := by
  apply List.ext_getElem
  · simp
  · intro index _ _
    simp only [List.getElem_map, List.getElem_finRange]
    exact Vector.getElem_toList _

/-- The models among some members are those at their places. -/
theorem mem_toList_iff (members : Vector Model size) {model : Model} :
    model ∈ members.toList ↔ ∃ place, members.get place = model := by
  rw [← map_get_finRange, List.mem_map]
  simp

/-- Names are looked up among members as among the models that they are. -/
theorem findNamed?_toList (members : Vector Model size) (name : String) :
    findNamed? Model.name members.toList name =
      (placeOf? members name).map fun place => members.get place := by
  rw [← map_get_finRange, findNamed?_map]
  rfl

/-- A lookup depends on the names of the members alone. -/
theorem placeOf?_congr {members others : Vector Model size}
    (names : ∀ place : Fin size, (members.get place).name = (others.get place).name) :
    placeOf? members = placeOf? others := by
  funext name
  simp only [placeOf?, names]

/-- What is found has the name up to case. -/
theorem equalIgnoringCase_of_placeOf? {members : Vector Model size} {name : String}
    {place : Fin size} (found : placeOf? members name = some place) :
    equalIgnoringCase (members.get place).name name = true := by
  rw [placeOf?] at found
  have alike := equalIgnoringCase_of_findNamed? found
  exact alike

/-! ## The graph of some models -/

/-- The parents of a member are the places of its inherited names, each once. -/
theorem parentsOf_ofMembers (members : Vector Model size) (member : Fin size) :
    (ofMembers members).parentsOf member =
      ((members.get member).inherits.filterMap (placeOf? members)).eraseDups :=
  Vector.getElem_map _ member.isLt

/-- No member of such a graph has a parent twice. -/
theorem nodup_parentsOf_ofMembers (members : Vector Model size) (member : Fin size) :
    ((ofMembers members).parentsOf member).Nodup := by
  rw [parentsOf_ofMembers]
  exact nodup_eraseDups _

/-- The members of the graph of a document are its models. -/
@[simp] theorem toList_membersOf (document : Document) :
    (membersOf document).toList = document.models := rfl

theorem get_membersOf_mem {document : Document} (place : Fin document.models.length) :
    (membersOf document).get place ∈ document.models :=
  List.getElem_mem place.isLt

/-- No two members have the same name. -/
def NamesDistinct (members : Vector Model size) : Prop :=
  Function.Injective fun place => (members.get place).name

/-- A graph is built exactly from a document that declares no faulty inheritance. -/
theorem build_eq_ok_iff {document : Document}
    {graph : InheritanceGraph document.models.length} :
    build document = .ok graph ↔
      fault? document = none ∧ graph = ofMembers (membersOf document) := by
  unfold build
  cases fault? document with
  | some fault => simp
  | none => simp [membersOf, eq_comm]

/-! ## Faults -/

/-- A name can be inherited when it names a model or interface, and no model if an
interface inherits it. -/
theorem parentFault?_eq_none_iff {document : Document} {model : Model} {name : String} :
    parentFault? document model name = none ↔
      ∃ parent, findNamed? Model.name document.models name = some parent ∧
        ¬(model.isInterface = true ∧ parent.kind = .model) := by
  unfold parentFault?
  cases findNamed? Model.name document.models name with
  | some parent => simp
  | none =>
      simp only [reduceCtorEq, false_and, exists_false, iff_false]
      split <;> simp

/-- At most one model or interface can be the default entity. -/
theorem defaultFault?_eq_none_iff {models : List Model} :
    defaultFault? models = none ↔ (models.filter Model.isDefault).length ≤ 1 := by
  unfold defaultFault?
  split
  · next listed => simp [listed]
  · next short =>
      simp only [true_iff]
      match listed : models.filter Model.isDefault with
      | [] => simp
      | [_] => simp
      | first :: second :: rest => exact absurd listed (short first second rest)

/-- A document declares no faulty inheritance when it has at most one default entity and
every name that is inherited can be. -/
theorem fault?_eq_none_iff {document : Document} :
    fault? document = none ↔ (document.models.filter Model.isDefault).length ≤ 1 ∧
      ∀ model ∈ document.models, ∀ name ∈ model.inherits,
        ∃ parent, findNamed? Model.name document.models name = some parent ∧
          ¬(model.isInterface = true ∧ parent.kind = .model) := by
  rw [fault?, Option.or_eq_none_iff, defaultFault?_eq_none_iff]
  simp only [List.findSome?_eq_none_iff, parentFault?_eq_none_iff]

end InheritanceGraph

end SchemaMarkup
