import SchemaMarkup.Diagnostic.Report
import SchemaMarkup.Settings.Configuration

/-!
# The check command

The command compiles one file and says what is in it, or what is wrong with it.
Here it is a function of its arguments and of the files it reads; the outer layer
only reads the files and prints the outcome.
-/

namespace SchemaMarkup

/-- What the command is asked to do. -/
structure CheckRequest where
  input : String
  configuration : Option String := none
  dialect : Option DialectChoice := none
  isVerbose : Bool := false
deriving DecidableEq, Repr

namespace CheckRequest

/-- The options that take a value, and whether each has been given. -/
structure Progress where
  input : Option String := none
  configuration : Option String := none
  dialect : Option DialectChoice := none
  isVerbose : Bool := false

/-- An option with a value, under both of its names. -/
inductive ValueOption where
  | input
  | configuration
  | dialect
deriving DecidableEq, Repr

/-- The names of the options that take a value. -/
def valueOptions : List (String × ValueOption) :=
  [("--input", .input), ("-i", .input), ("--config", .configuration), ("-c", .configuration),
   ("--dialect", .dialect), ("-d", .dialect)]

/-- The request with one option set. No option may be given twice. -/
def Progress.set? (progress : Progress) (option : ValueOption) (value : String) :
    Option Progress :=
  match option with
  | .input => if progress.input.isSome then none else some { progress with input := some value }
  | .configuration =>
      if progress.configuration.isSome then none
      else some { progress with configuration := some value }
  | .dialect =>
      if progress.dialect.isSome then none
      else (DialectChoice.ofName? value).map fun dialect =>
        { progress with dialect := some dialect }

/-- Reads the arguments of the command. -/
def readArguments? (progress : Progress) : List String -> Option Progress
  | [] => some progress
  | [argument] =>
      if (argument == "--verbose" || argument == "-v") && !progress.isVerbose then
        some { progress with isVerbose := true }
      else
        none
  | argument :: value :: later =>
      if argument == "--verbose" || argument == "-v" then
        if progress.isVerbose then none
        else readArguments? { progress with isVerbose := true } (value :: later)
      else
        match valueOptions.find? fun entry => entry.1 == argument with
        | some entry => (progress.set? entry.2 value).bind fun next => readArguments? next later
        | none => none

/-- The request of some arguments, of which the input is required. -/
def ofArguments? (arguments : List String) : Option CheckRequest := do
  let progress <- readArguments? {} arguments
  let input <- progress.input
  return {
    input
    configuration := progress.configuration
    dialect := progress.dialect
    isVerbose := progress.isVerbose }

end CheckRequest

/-- What the command prints and the code it ends with. -/
structure Outcome where
  exitCode : UInt32
  output : String
deriving DecidableEq, Repr

namespace Outcome

/-- The outcome of arguments that are no request. -/
def badArguments : Outcome where
  exitCode := 2
  output := ""

/-- The outcome when a file cannot be used. -/
def unusableFile : Outcome where
  exitCode := 1
  output := ""

end Outcome

namespace CheckRequest

/-- The options of a request: those of the configuration, if there is one, with the dialect of
the request. -/
def options? (request : CheckRequest) (readFile : String -> Option Text) :
    Option CompilerOptions := do
  let configured <-
    match request.configuration with
    | some path => (readFile path).bind CompilerOptions.ofConfiguration?
    | none => some {}
  return { configured with dialect := request.dialect.getD configured.dialect }

/-- The outcome of a compilation of a source. -/
def outcome (request : CheckRequest) (source : Text) :
    Except CompileError Compiled -> Outcome
  | .error error => { exitCode := 1, output := Diagnostic.reports source error.diagnostics ++ "\n" }
  | .ok compiled =>
      let reports :=
        if compiled.warnings.isEmpty then [] else [Diagnostic.reports source compiled.warnings]
      let verdict := s!"{request.input}: ok ({Diagnostic.summary compiled.warnings})"
      let lines := reports ++ compiled.document.summary ++ [verdict]
      { exitCode := 0, output := String.join (lines.map (· ++ "\n")) }

/-- Runs a request on the files that can be read. -/
def run (request : CheckRequest) (readFile : String -> Option Text) : Outcome :=
  match request.options? readFile, readFile request.input with
  | some options, some source => request.outcome source (compile options source)
  | _, _ => .unusableFile

end CheckRequest

end SchemaMarkup
