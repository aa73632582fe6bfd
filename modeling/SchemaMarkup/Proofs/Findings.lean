import SchemaMarkup.Compilation
import SchemaMarkup.Proofs.Reading.DeclaredFields

/-!
# Findings

Reading, resolution, classification and validation each collect warnings of their own codes, and
none of them collects an error: a fault ends its stage instead. `Diagnostic.Warns` says so of one
finding, and there is one lemma for each stage.

So a compilation ends with one error or with warnings alone (`Graded`), whatever the source, and to
accept no warnings is to look at the outcome of the compilation that accepts them. Both are
`compile_findings`.
-/

namespace SchemaMarkup

/-- A warning of some code. -/
structure Diagnostic.Warns (code : Code) (diagnostic : Diagnostic) : Prop where
  severity : diagnostic.severity = .warning
  code : diagnostic.code = code

/-! ## Reading -/

namespace Model

/-- An entry adds no warning but that of a section that is not known. -/
theorem Progress.warns_add {dialect : Dialect} {progress next : Progress} {entry : Entry}
    (run : progress.add dialect entry = .ok next)
    (warns : ∀ warning ∈ progress.warnings, warning.Warns .unknownSection) :
    ∀ warning ∈ next.warnings, warning.Warns .unknownSection := by
  cases entry with
  | sectionHeading line =>
      simp only [add] at run
      split at run
      · cases run
        simp only [List.forall_mem_append, List.forall_mem_singleton]
        exact ⟨warns, rfl, rfl⟩
      · cases run
        exact warns
  | quote line =>
      cases run
      exact warns
  | item depth line nested =>
      simp only [add] at run
      split at run
      · cases run
        exact warns
      · split at run
        · contradiction
        · simp only [bind_eq_ok_iff, pure_eq_ok_iff] at run
          obtain ⟨_, _, rfl⟩ := run
          exact warns

theorem warns_read {dialect : Dialect} {kind : ModelKind} {header : Header} {location : Location}
    {entries : List Entry} {model : Model} {warnings : List Diagnostic}
    (run : Model.read dialect kind header location entries = .ok (model, warnings)) :
    ∀ warning ∈ warnings, warning.Warns .unknownSection := by
  simp only [Model.read, bind_eq_ok_iff, pure_eq_ok_iff, Prod.mk.injEq] at run
  obtain ⟨start, _, progress, added, _, rfl⟩ := run
  exact foldlM_keeps (fun progress => ∀ warning ∈ progress.warnings, warning.Warns .unknownSection)
    (fun _ _ _ => Progress.warns_add) added (by simp)

end Model

theorem Declaration.warns_readEntity {dialect : Dialect} {declaration : Declaration}
    {entity : Entity} {warnings : List Diagnostic}
    (run : declaration.readEntity dialect = .ok (entity, warnings)) :
    ∀ warning ∈ warnings, warning.Warns .unknownSection := by
  cases reads_of_readEntity run with
  | model _ isRead => exact Model.warns_read isRead
  | enumeration => simp

namespace Document

variable {document resolved analyzed : Document} {warnings : List Diagnostic}

theorem warns_ofLines {dialect : Dialect} {lines : List Line}
    (run : ofLines dialect lines = .ok (document, warnings)) :
    ∀ warning ∈ warnings, warning.Warns .unknownSection := by
  simp only [ofLines, bind_eq_ok_iff, pure_eq_ok_iff, Prod.mk.injEq] at run
  obtain ⟨declarations, _, entities, areRead, _, rfl⟩ := run
  intro warning listed
  obtain ⟨outcome, isOutcome, isWarning⟩ := List.mem_flatMap.mp listed
  obtain ⟨declaration, _, isRead⟩ := exists_of_mem_mapM areRead isOutcome
  exact Declaration.warns_readEntity isRead warning isWarning

/-- Reading warns of sections that are not known, and of nothing else. -/
theorem warns_read {options : ReadingOptions} {source : Text}
    (run : read options source = .ok (document, warnings)) :
    ∀ warning ∈ warnings, warning.Warns .unknownSection := by
  simp only [read_eq, ofSpokenLines, bind_eq_ok_iff] at run
  obtain ⟨⟨declared, found⟩, isRead, run⟩ := run
  have warns := warns_ofLines isRead
  split at run <;>
  · simp only [pure_eq_ok_iff, Prod.mk.injEq] at run
    exact run.2 ▸ warns

/-! ## Analysis -/

/-- Resolution warns of the edges that it removes, and of nothing else. -/
theorem warns_resolveInheritance
    (run : document.resolveInheritance = .ok (resolved, warnings)) :
    ∀ warning ∈ warnings, warning.Warns .cycleDetected := by
  simp only [resolveInheritance, bind_eq_ok_iff, pure_eq_ok_iff, Prod.mk.injEq] at run
  obtain ⟨graph, _, _, rfl⟩ := run
  refine List.forall_mem_map.mpr fun repair _ => ?_
  rw [InheritanceGraph.repairWarning]
  split <;> exact ⟨rfl, rfl⟩

end Document

namespace Registry

theorem warns_step (registry : Registry) (progress : Progress) (call : Attribute)
    (warns : ∀ warning ∈ progress.warnings, warning.Warns .invalidAttributeArguments) :
    ∀ warning ∈ (registry.step progress call).warnings,
      warning.Warns .invalidAttributeArguments := by
  rw [step]
  split
  · exact warns
  · split
    · exact warns
    · simp only [List.forall_mem_append, List.forall_mem_singleton]
      exact ⟨warns, rfl, rfl⟩

theorem warns_classifyField (registry : Registry) (field : Field) :
    ∀ warning ∈ (registry.classifyField field).2, warning.Warns .invalidAttributeArguments := by
  have kept : ∀ warning ∈ (field.attributes.foldl registry.step { field }).warnings,
      warning.Warns .invalidAttributeArguments :=
    List.foldlRecOn (motive := fun progress => ∀ warning ∈ progress.warnings,
        warning.Warns .invalidAttributeArguments)
      field.attributes registry.step (by simp)
      fun progress warns call _ => registry.warns_step progress call warns
  exact kept

/-- Classification warns of arguments that are rejected, and of nothing else. -/
theorem warns_classifyDocument (registry : Registry) (document : Document) :
    ∀ warning ∈ (registry.classifyDocument document).2,
      warning.Warns .invalidAttributeArguments := by
  intro warning listed
  simp only [classifyDocument, List.mem_flatMap] at listed
  obtain ⟨_, _, field, _, isWarning⟩ := listed
  exact registry.warns_classifyField field warning isWarning

end Registry

namespace Validator

/-- The code of the warnings of a check. -/
def code : Validator → Code
  | .relationTarget => .unknownRelationTarget
  | .indexField => .unknownIndexField
  | .foreignKeyTarget => .unknownForeignKeyTarget

/-- A check warns of what it checks, and of nothing else. -/
theorem warns_check (validator : Validator) (document : Document) :
    ∀ warning ∈ validator.check document, warning.Warns validator.code := by
  intro warning listed
  obtain ⟨model, _, isWarning⟩ := List.mem_flatMap.mp listed
  cases validator with
  | relationTarget =>
      obtain ⟨_, _, rfl⟩ := List.mem_map.mp isWarning
      exact ⟨rfl, rfl⟩
  | indexField =>
      obtain ⟨_, _, isAmong⟩ := List.mem_flatMap.mp isWarning
      obtain ⟨_, _, rfl⟩ := List.mem_map.mp isAmong
      exact ⟨rfl, rfl⟩
  | foreignKeyTarget =>
      obtain ⟨_, _, isAmong⟩ := List.mem_filterMap.mp isWarning
      obtain ⟨_, _, rfl⟩ := Option.map_eq_some_iff.mp isAmong
      exact ⟨rfl, rfl⟩

end Validator

namespace Document

variable {document analyzed : Document} {warnings : List Diagnostic}

/-- Analysis returns what its three stages find, in their order. -/
theorem analyze_eq_ok_iff : document.analyze = .ok (analyzed, warnings) ↔
    ∃ resolved repairs, document.resolveInheritance = .ok (resolved, repairs) ∧
      analyzed = (Registry.standard.classifyDocument resolved).1 ∧
      warnings = repairs ++ (Registry.standard.classifyDocument resolved).2 ++
        Validator.checkAll Validator.standard analyzed := by
  simp only [analyze, bind_eq_ok_iff, pure_eq_ok_iff, Prod.mk.injEq, Prod.exists]
  constructor
  · rintro ⟨resolved, repairs, isResolved, rfl, rfl⟩
    exact ⟨resolved, repairs, isResolved, rfl, rfl⟩
  · rintro ⟨resolved, repairs, isResolved, rfl, rfl⟩
    exact ⟨resolved, repairs, isResolved, rfl, rfl⟩

/-- Analysis collects warnings alone. -/
theorem severity_of_analyze (succeeds : document.analyze = .ok (analyzed, warnings)) :
    ∀ warning ∈ warnings, warning.severity = .warning := by
  obtain ⟨resolved, repairs, isResolved, _, rfl⟩ := analyze_eq_ok_iff.mp succeeds
  simp only [List.forall_mem_append]
  refine ⟨⟨fun warning listed => ?_, fun warning listed => ?_⟩, fun warning listed => ?_⟩
  · exact (warns_resolveInheritance isResolved warning listed).severity
  · exact (Registry.standard.warns_classifyDocument resolved warning listed).severity
  · obtain ⟨validator, _, isWarning⟩ := List.mem_flatMap.mp listed
    exact (validator.warns_check _ warning isWarning).severity

end Document

/-! ## Compilation -/

variable {options : CompilerOptions} {source : Text} {document analyzed : Document}
  {unknownSections found : List Diagnostic} {fault : SchemaError}

theorem compile_of_unreadable
    (isRead : Document.read options.toReadingOptions source = .error fault) :
    compile options source = .error (.unreadable [fault.diagnostic]) := by
  rw [compile, isRead]
  rfl

theorem compile_of_unresolvable
    (isRead : Document.read options.toReadingOptions source = .ok (document, unknownSections))
    (isAnalyzed : document.analyze = .error fault) :
    compile options source = .error (.unresolvable [fault.diagnostic]) := by
  simp only [compile, isRead, Except.mapError, bind, Except.bind, isAnalyzed]

/-- What is collected on the way to a document is no error. -/
theorem severity_of_analyzed
    (isRead : Document.read options.toReadingOptions source = .ok (document, unknownSections))
    (isAnalyzed : document.analyze = .ok (analyzed, found)) :
    ∀ warning ∈ unknownSections ++ found, warning.severity = .warning := by
  rw [List.forall_mem_append]
  exact ⟨fun warning listed => (Document.warns_read isRead warning listed).severity,
    Document.severity_of_analyze isAnalyzed⟩

/-- A document that was analyzed is compiled, unless it has warnings and none are accepted. -/
theorem compile_of_analyzed
    (isRead : Document.read options.toReadingOptions source = .ok (document, unknownSections))
    (isAnalyzed : document.analyze = .ok (analyzed, found)) :
    compile options source =
      if options.failsOnWarnings && !(unknownSections ++ found).isEmpty then
        .error (.warnings (unknownSections ++ found))
      else
        .ok { document := analyzed, warnings := unknownSections ++ found } := by
  have noError : Diagnostic.anyError (unknownSections ++ found) = false := by
    rw [Diagnostic.anyError, List.any_eq_false]
    intro warning listed
    rw [severity_of_analyzed isRead isAnalyzed warning listed]
    decide
  simp only [compile, isRead, Except.mapError, bind, Except.bind, isAnalyzed, noError,
    Bool.false_eq_true, if_false]
  split <;> rfl

/-- A source is compiled if it is read and analyzed and its warnings are accepted. -/
theorem compile_eq_ok_iff {compiled : Compiled} :
    compile options source = .ok compiled ↔
      ∃ document unknownSections found,
        Document.read options.toReadingOptions source = .ok (document, unknownSections) ∧
        document.analyze = .ok (compiled.document, found) ∧
        compiled.warnings = unknownSections ++ found ∧
        (options.failsOnWarnings = true → compiled.warnings = []) := by
  constructor
  · intro succeeds
    cases isRead : Document.read options.toReadingOptions source with
    | error fault => rw [compile_of_unreadable isRead] at succeeds; contradiction
    | ok outcome =>
        obtain ⟨document, unknownSections⟩ := outcome
        cases isAnalyzed : document.analyze with
        | error fault => rw [compile_of_unresolvable isRead isAnalyzed] at succeeds; contradiction
        | ok outcome =>
            obtain ⟨analyzed, found⟩ := outcome
            rw [compile_of_analyzed isRead isAnalyzed] at succeeds
            split at succeeds
            · contradiction
            · next accepted =>
                cases succeeds
                refine ⟨document, unknownSections, found, rfl, isAnalyzed, rfl, fun fails => ?_⟩
                simpa [fails] using accepted
  · rintro ⟨document, unknownSections, found, isRead, isAnalyzed, isWarnings, accepted⟩
    rw [compile_of_analyzed isRead isAnalyzed, ← isWarnings]
    have notRefused : (options.failsOnWarnings && !compiled.warnings.isEmpty) = false := by
      cases fails : options.failsOnWarnings with
      | false => rfl
      | true => simp [accepted fails]
    rw [notRefused]
    rfl

/-- An outcome with everything of the severity that it should have: an error ends a compilation
by itself, and whatever else is found is a warning. -/
inductive Graded : Except CompileError Compiled → Prop where
  | unreadable {finding : Diagnostic} (isError : finding.severity = .error) :
      Graded (.error (.unreadable [finding]))
  | unresolvable {finding : Diagnostic} (isError : finding.severity = .error) :
      Graded (.error (.unresolvable [finding]))
  | warnings {found : List Diagnostic} (some : found ≠ [])
      (areWarnings : ∀ warning ∈ found, warning.severity = .warning) :
      Graded (.error (.warnings found))
  | compiled {compiled : Compiled}
      (areWarnings : ∀ warning ∈ compiled.warnings, warning.severity = .warning) :
      Graded (.ok compiled)

/-- The outcome of a compilation that accepts no warnings, by that of the one that accepts them. -/
def refuseWarnings : Except CompileError Compiled → Except CompileError Compiled
  | .error error => .error error
  | .ok compiled =>
      if compiled.warnings.isEmpty then .ok compiled else .error (.warnings compiled.warnings)

/-- What a compilation finds is graded: one error, or warnings alone. Whether warnings are accepted
decides nothing but what becomes of a document that has some. -/
theorem compile_findings (options : CompilerOptions) (source : Text) :
    Graded (compile options source) ∧
      compile { options with failsOnWarnings := true } source =
        refuseWarnings (compile { options with failsOnWarnings := false } source) := by
  cases isRead : Document.read options.toReadingOptions source with
  | error fault =>
      have outcome := fun fails =>
        @compile_of_unreadable { options with failsOnWarnings := fails } source fault isRead
      exact ⟨outcome options.failsOnWarnings ▸ .unreadable rfl, by
        rw [outcome true, outcome false, refuseWarnings]⟩
  | ok outcome =>
      obtain ⟨document, unknownSections⟩ := outcome
      cases isAnalyzed : document.analyze with
      | error fault =>
          have outcome := fun fails => @compile_of_unresolvable
            { options with failsOnWarnings := fails } source document unknownSections fault isRead
              isAnalyzed
          exact ⟨outcome options.failsOnWarnings ▸ .unresolvable rfl, by
            rw [outcome true, outcome false, refuseWarnings]⟩
      | ok outcome =>
          obtain ⟨analyzed, found⟩ := outcome
          have areWarnings := severity_of_analyzed isRead isAnalyzed
          have outcome := fun fails => @compile_of_analyzed
            { options with failsOnWarnings := fails } source document analyzed unknownSections
              found isRead isAnalyzed
          constructor
          · rw [compile_of_analyzed isRead isAnalyzed]
            split
            · next refused =>
                have isSome : unknownSections ++ found ≠ [] := by
                  rintro isNone
                  simp [isNone] at refused
                exact .warnings isSome areWarnings
            · exact .compiled areWarnings
          · rw [outcome true, outcome false]
            cases unknownSections ++ found <;> rfl

end SchemaMarkup
