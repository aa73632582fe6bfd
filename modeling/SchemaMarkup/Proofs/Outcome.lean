import Mathlib.Data.List.Forall2
import SchemaMarkup.Diagnostic.SchemaError

/-!
# Outcomes of readers

A reader ends in a value or in a fault, and readers in a row end in a value only if each of
them does. These lemmas take a successful run apart: into its steps, into the results for the
items of a list, or into a loop that keeps whatever each of its rounds keeps.
-/

namespace SchemaMarkup

variable {Fault Other Item Value Result State : Type}

/-- A run succeeds if its first step does and the rest does after it. -/
theorem bind_eq_ok_iff {first : Except Fault Value} {next : Value → Except Fault Result}
    {result : Result} :
    (first >>= next) = .ok result ↔ ∃ value, first = .ok value ∧ next value = .ok result := by
  cases first with
  | error fault => simp [bind, Except.bind]
  | ok value => simp [bind, Except.bind]

theorem pure_eq_ok_iff {value result : Value} :
    (pure value : Except Fault Value) = .ok result ↔ value = result := by
  simp [pure, Except.pure]

theorem throw_eq_ok_iff {fault : Fault} {value : Value} :
    (throw fault : Except Fault Value) = .ok value ↔ False := by
  simp [throw, throwThe, MonadExceptOf.throw]

/-- Another wording of the faults leaves the values alone. -/
theorem mapError_eq_ok_iff {outcome : Except Fault Value} {reword : Fault → Other}
    {value : Value} : outcome.mapError reword = .ok value ↔ outcome = .ok value := by
  cases outcome <;> simp [Except.mapError]

/-- The faults of a run are those of its first step and those of the rest. -/
theorem mapError_bind (first : Except Fault Value) (next : Value → Except Fault Result)
    (reword : Fault → Other) :
    (first >>= next).mapError reword =
      first.mapError reword >>= fun value => (next value).mapError reword := by
  cases first <;> rfl

theorem mapError_map (outcome : Except Fault Value) (change : Value → Result)
    (reword : Fault → Other) :
    (outcome.map change).mapError reword = (outcome.mapError reword).map change := by
  cases outcome <;> rfl

theorem map_eq_ok_iff {outcome : Except Fault Value} {change : Value → Result} {result : Result} :
    outcome.map change = .ok result ↔ ∃ value, outcome = .ok value ∧ change value = result := by
  cases outcome <;> simp [Except.map]

theorem atLocation_eq_ok_iff {location : Location} {read : Except LineFault Value} {value : Value} :
    atLocation location read = .ok value ↔ read = .ok value :=
  mapError_eq_ok_iff

/-- A loop keeps what each of its rounds keeps. -/
theorem foldlM_keeps {step : State → Item → Except Fault State} (holds : State → Prop)
    (keeps : ∀ state item next, step state item = .ok next → holds state → holds next)
    {items : List Item} {start last : State} (run : items.foldlM step start = .ok last)
    (initial : holds start) : holds last := by
  induction items generalizing start with
  | nil =>
      rw [List.foldlM_nil, pure_eq_ok_iff] at run
      exact run ▸ initial
  | cons item rest inductionHypothesis =>
      rw [List.foldlM_cons, bind_eq_ok_iff] at run
      obtain ⟨next, stepped, later⟩ := run
      exact inductionHypothesis later (keeps start item next stepped initial)

/-- A loop of rounds that each succeed. -/
theorem foldlM_eq_ok_foldl {step : State → Item → Except Fault State}
    {change : State → Item → State} {items : List Item}
    (each : ∀ item ∈ items, ∀ state, step state item = .ok (change state item)) (start : State) :
    items.foldlM step start = .ok (items.foldl change start) := by
  induction items generalizing start with
  | nil => rfl
  | cons item rest inductionHypothesis =>
      obtain ⟨here, later⟩ := List.forall_mem_cons.mp each
      rw [List.foldlM_cons, here start]
      exact inductionHypothesis later (change start item)

/-- A list is read if each item is, and the results stand in its order. -/
theorem mapM_eq_ok_iff {read : Item → Except Fault Result} {items : List Item}
    {results : List Result} :
    items.mapM read = .ok results ↔
      List.Forall₂ (fun item result => read item = .ok result) items results := by
  induction items generalizing results with
  | nil =>
      rw [List.mapM_nil, pure_eq_ok_iff, List.forall₂_nil_left_iff, eq_comm]
  | cons item rest inductionHypothesis =>
      rw [List.mapM_cons, List.forall₂_cons_left_iff]
      simp only [bind_eq_ok_iff, pure_eq_ok_iff, inductionHypothesis]
      constructor
      · rintro ⟨result, first, later, others, rfl⟩
        exact ⟨result, later, first, others, rfl⟩
      · rintro ⟨result, later, first, others, rfl⟩
        exact ⟨result, first, later, others, rfl⟩

/-- Whatever stands on the right of two lists in step has something on the left. -/
theorem exists_of_forall₂_of_mem {relates : Item → Result → Prop} {items : List Item}
    {results : List Result} (inStep : List.Forall₂ relates items results) {result : Result}
    (listed : result ∈ results) : ∃ item ∈ items, relates item result := by
  induction inStep with
  | nil => contradiction
  | cons related _ inductionHypothesis =>
      rcases List.mem_cons.mp listed with rfl | isLater
      · exact ⟨_, List.mem_cons_self, related⟩
      · obtain ⟨item, isItem, isResult⟩ := inductionHypothesis isLater
        exact ⟨item, List.mem_cons_of_mem _ isItem, isResult⟩

/-- A list has something in step with it if each of its items is related to something. -/
theorem exists_forall₂_iff {relates : Item → Result → Prop} {items : List Item} :
    (∃ results, List.Forall₂ relates items results) ↔
      ∀ item ∈ items, ∃ result, relates item result := by
  induction items with
  | nil => simp
  | cons item rest inductionHypothesis =>
      rw [List.forall_mem_cons, ← inductionHypothesis]
      simp only [List.forall₂_cons_left_iff]
      constructor
      · rintro ⟨_, result, others, related, inStep, rfl⟩
        exact ⟨⟨result, related⟩, others, inStep⟩
      · rintro ⟨⟨result, related⟩, others, inStep⟩
        exact ⟨result :: others, result, others, related, inStep, rfl⟩

/-- What is read from a list is read from one of its items. -/
theorem exists_of_mem_mapM {read : Item → Except Fault Result} {items : List Item}
    {results : List Result} (areRead : items.mapM read = .ok results) {result : Result}
    (listed : result ∈ results) : ∃ item ∈ items, read item = .ok result :=
  exists_of_forall₂_of_mem (mapM_eq_ok_iff.mp areRead) listed

/-- A list is read if each item is, and the results are those of its items. -/
theorem mapM_eq_ok_iff_exists [Nonempty Result] {read : Item → Except Fault Result}
    {items : List Item} {results : List Result} :
    items.mapM read = .ok results ↔
      ∃ value : Item → Result, (∀ item ∈ items, read item = .ok (value item)) ∧
        results = items.map value := by
  constructor
  · intro areRead
    rw [mapM_eq_ok_iff] at areRead
    let value := fun item => (read item).toOption.getD (Classical.arbitrary Result)
    have isValue : ∀ {item result}, read item = .ok result → value item = result := by
      intro item result isRead
      simp [value, isRead, Except.toOption]
    refine ⟨value, ?_⟩
    induction areRead with
    | nil => simp
    | cons isRead _ inductionHypothesis =>
        obtain ⟨each, same⟩ := inductionHypothesis
        rw [List.forall_mem_cons, List.map_cons, isValue isRead, ← same]
        exact ⟨⟨isRead, each⟩, rfl⟩
  · rintro ⟨value, areRead, rfl⟩
    rw [mapM_eq_ok_iff, List.forall₂_map_right_iff, List.forall₂_same]
    exact areRead

/-- A list is read in two steps if the first step is taken for all of it and then the second. -/
theorem mapM_bind_eq_ok_iff {first : Item → Except Fault Value}
    {second : Value → Except Fault Result} {items : List Item} {results : List Result} :
    (items.mapM fun item => first item >>= second) = .ok results ↔
      ∃ values, items.mapM first = .ok values ∧ values.mapM second = .ok results := by
  induction items generalizing results with
  | nil => simp [pure_eq_ok_iff]
  | cons item rest inductionHypothesis =>
      simp only [List.mapM_cons, bind_eq_ok_iff, pure_eq_ok_iff, inductionHypothesis]
      constructor
      · rintro ⟨result, ⟨value, isValue, isRead⟩, others, ⟨values, areValues, areRead⟩, rfl⟩
        refine ⟨value :: values, ⟨value, isValue, values, areValues, rfl⟩, ?_⟩
        rw [List.mapM_cons, isRead, areRead]
        rfl
      · rintro ⟨_, ⟨value, isValue, values, areValues, rfl⟩, run⟩
        simp only [List.mapM_cons, bind_eq_ok_iff, pure_eq_ok_iff] at run
        obtain ⟨result, isRead, others, areRead, rfl⟩ := run
        exact ⟨result, ⟨value, isValue, isRead⟩, others, ⟨values, areValues, areRead⟩, rfl⟩

/-- Items that are read into changed values make a list of changed values. -/
theorem mapM_map_value {read : Item → Except Fault Value} {other : Item → Except Fault Result}
    {change : Value → Result} (each : ∀ item, other item = change <$> read item)
    (items : List Item) : items.mapM other = List.map change <$> items.mapM read := by
  induction items with
  | nil => rfl
  | cons item rest inductionHypothesis =>
      simp only [List.mapM_cons, each, inductionHypothesis, map_bind, bind_map_left, map_pure,
        List.map_cons]

end SchemaMarkup
