import SchemaMarkup.Compilation
import SchemaMarkup.Settings.Toml.Reader

/-!
# Configuration

The table `compiler` of a TOML document holds the compiler options. Every option
has a default. A key that names no option is refused in this table. The options
may also be written as a list, in their order, and items behind the last option are
not looked at. Of everything outside of this table, only the numbers must have
values.
-/

namespace SchemaMarkup

/-- The names under which a dialect is chosen. -/
def DialectChoice.names : List (String × DialectChoice) :=
  [("auto", .auto), ("current", .fixed .current), ("legacy", .fixed .legacy)]

/-- The choice of a name. -/
def DialectChoice.ofName? (name : String) : Option DialectChoice :=
  (names.find? fun entry => entry.1 == name).map Prod.snd

/-- The name of a choice. -/
def DialectChoice.name : DialectChoice -> String
  | .auto => "auto"
  | .fixed dialect => dialect.name

/-- Every choice is found again by its name. -/
theorem DialectChoice.ofName?_name (choice : DialectChoice) : ofName? choice.name = some choice := by
  rcases choice with _ | _ | _ <;> rfl

namespace CompilerOptions

/-- Reads the dialect, a name or a table with nothing under that name. -/
def dialect? : Toml -> Option DialectChoice
  | .string name => DialectChoice.ofName? name
  | .table _ [(name, .table _ [])] => DialectChoice.ofName? name
  | .table _ [(name, .array [])] => DialectChoice.ofName? name
  | _ => none

/-- Reads a truth value. -/
def truth? : Toml -> Option Bool
  | .boolean value => some value
  | _ => none

/-- The options in the order in which a list gives them. -/
def keys : List String :=
  ["dialect", "infer_foreign_keys", "fail_on_warnings"]

/-- The options with one of them set. -/
def set? (options : CompilerOptions) (key : String) (value : Toml) : Option CompilerOptions :=
  match key with
  | "dialect" => (dialect? value).map fun dialect => { options with dialect }
  | "infer_foreign_keys" =>
      (truth? value).map fun infersForeignKeys => { options with infersForeignKeys }
  | "fail_on_warnings" =>
      (truth? value).map fun failsOnWarnings => { options with failsOnWarnings }
  | _ => none

/-- The default options with some of them set. -/
def ofEntries? (entries : Toml.Entries) : Option CompilerOptions :=
  entries.foldlM (fun options entry => options.set? entry.1 entry.2) {}

/-- The options that the table `compiler` holds. -/
def ofToml? (value : Toml) : Option CompilerOptions :=
  match value with
  | .table _ entries => ofEntries? entries
  | _ => value.items?.bind fun items => ofEntries? (keys.zip items)

/-- The options of a configuration file. -/
def ofConfiguration? (content : Text) : Option CompilerOptions := do
  let entries <- Toml.read? content
  let (own, others) := entries.partition fun entry => entry.1 == "compiler"
  if Toml.entriesHaveValues others then
    match own with
    | [] => some {}
    | entry :: _ => ofToml? entry.2
  else
    none

end CompilerOptions

end SchemaMarkup
