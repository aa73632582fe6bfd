import SchemaMarkup.Settings.Toml.Number

/-!
# TOML tables

The values of a TOML document and the rules by which its statements build one
table. A table is closed once it is written inline, and opened at most once by a
header. A dotted key sets its value in a table that dotted keys have made, and on
the way there it passes no table that a header has opened, except the last one of
a repeated header.
-/

namespace SchemaMarkup

/-- What brought a table into being. -/
inductive TableOrigin where
  /-- The header of a table inside of it. -/
  | implied
  /-- A dotted key. -/
  | dotted
  /-- A header of its own. -/
  | header
  /-- Braces. -/
  | inlined
deriving DecidableEq, Repr

/-- A value of a TOML document. -/
inductive Toml where
  | string (text : String)
  | boolean (value : Bool)
  | number (value : Toml.Number)
  /-- A date, a time of the day, or both. -/
  | moment (text : String)
  | array (items : List Toml)
  | table (origin : TableOrigin) (entries : List (String × Toml))
  /-- The tables of one repeated header, of which the last one is open. -/
  | tables (items : List (List (String × Toml)))
deriving Repr

namespace Toml

/-- The values of a table under their keys, in order. -/
abbrev Entries := List (String × Toml)

/-- The entries with a change to the value of one key, which may be new. -/
def update (entries : Entries) (key : String) (change : Option Toml -> Option Toml) :
    Option Entries :=
  match entries with
  | [] => (change none).map fun value => [(key, value)]
  | entry :: later =>
      if entry.1 == key then (change (some entry.2)).map fun value => (key, value) :: later
      else (update later key change).map (entry :: ·)

/-- Changes the table that the words of a header lead to. Tables on the way that are not there
are implied; of repeated tables the last one counts. -/
def atHeader (path : List String) (change : Entries -> Option Entries) (entries : Entries) :
    Option Entries :=
  match path with
  | [] => change entries
  | key :: deeper =>
      update entries key fun
        | none => (atHeader deeper change []).map (.table .implied)
        | some (.table origin inner) =>
            if origin = .inlined then none
            else (atHeader deeper change inner).map (.table origin)
        | some (.tables items) =>
            items.getLast?.bind fun last =>
              (atHeader deeper change last).map fun changed =>
                .tables (items.dropLast ++ [changed])
        | some _ => none

/-- Opens the table of a header, which no other header and no dotted key has opened. -/
def openTable (path : List String) (key : String) (entries : Entries) : Option Entries :=
  atHeader path (fun inner => update inner key fun
    | none => some (.table .header [])
    | some (.table .implied earlier) => some (.table .header earlier)
    | some _ => none) entries

/-- Opens one more table of a repeated header. -/
def openNext (path : List String) (key : String) (entries : Entries) : Option Entries :=
  atHeader path (fun inner => update inner key fun
    | none => some (.tables [[]])
    | some (.tables earlier) => some (.tables (earlier ++ [[]]))
    | some _ => none) entries

/-- Sets a new value under a dotted key. The table that takes it is the one that is given, or one
that a dotted key has made. -/
def setDotted (path : List String) (key : String) (value : Toml) (entries : Entries) :
    Option Entries :=
  match path with
  | [] => update entries key fun
      | none => some value
      | some _ => none
  | first :: deeper => update entries first fun
      | none => (setDotted deeper key value []).map (.table .dotted)
      | some (.table .dotted inner) => (setDotted deeper key value inner).map (.table .dotted)
      | some (.table .implied inner) =>
          if deeper.isEmpty then none
          else (setDotted deeper key value inner).map (.table .implied)
      | some (.tables items) =>
          if deeper.isEmpty then none
          else
            items.getLast?.bind fun last =>
              (setDotted deeper key value last).map fun changed =>
                .tables (items.dropLast ++ [changed])
      | some _ => none

/-- The items of an array, or the tables of a repeated header. -/
def items? : Toml -> Option (List Toml)
  | .array items => some items
  | .tables items => some (items.map (.table .header))
  | _ => none

mutual

/-- Whether there is a value for every number in a value. -/
def hasValue : Toml -> Bool
  | .number value => value.hasValue
  | .array items => allHaveValues items
  | .table _ entries => entriesHaveValues entries
  | .tables items => tablesHaveValues items
  | .string _ | .boolean _ | .moment _ => true

/-- Whether there is a value for every number in some values. -/
def allHaveValues : List Toml -> Bool
  | [] => true
  | item :: later => hasValue item && allHaveValues later

/-- Whether there is a value for every number in some entries. -/
def entriesHaveValues : List (String × Toml) -> Bool
  | [] => true
  | (_, value) :: later => hasValue value && entriesHaveValues later

/-- Whether there is a value for every number in some tables. -/
def tablesHaveValues : List (List (String × Toml)) -> Bool
  | [] => true
  | entries :: later => entriesHaveValues entries && tablesHaveValues later

end

end Toml

end SchemaMarkup
