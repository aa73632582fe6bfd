import SchemaMarkup.Settings.Configuration

/-!
# Written configurations

TOML has many ways to write one table. The plainest of them is a list of tables, each with its name
in brackets and one setting a line below it. `Toml.read?_written` says that the reader gets such
tables back, whatever their names, keys and values, as long as no name and no key is repeated.

So the compiler takes its options from the table `compiler` wherever it stands, and the tables of
other programs make no difference (`CompilerOptions.ofConfiguration?_written`). Nothing is said
here of the other ways to write a table: the language is not the compiler's own, and its reader
belongs to the surroundings of the compiler.
-/

namespace SchemaMarkup.Toml

/-! ## How tables are written -/

/-- A key that needs no quotes. -/
structure BareKey where
  name : String
  nonempty : name ≠ ""
  bare : ∀ character ∈ name.toList, isBareKey character = true

def BareKey.word (key : BareKey) : Text :=
  key.name.toList

/-- A value that is written in one line: a truth value, or a string without controls. -/
inductive PlainValue where
  | boolean (value : Bool)
  | string (text : String) (plain : ∀ character ∈ text.toList, isForbidden character = false)

/-- The text with a backslash in front of every quote and backslash. -/
def escape : Text → Text
  | [] => []
  | character :: rest =>
      if character = '"' ∨ character = '\\' then '\\' :: character :: escape rest
      else character :: escape rest

namespace PlainValue

/-- The value that is meant. -/
def toToml : PlainValue → Toml
  | boolean value => .boolean value
  | string text _ => .string text

def written : PlainValue → Text
  | boolean true => "true".toList
  | boolean false => "false".toList
  | string text _ => '"' :: escape text.toList ++ ['"']

end PlainValue

/-- A line `key = value`. -/
structure Setting where
  key : BareKey
  value : PlainValue

namespace Setting

def entry (setting : Setting) : String × Toml :=
  (setting.key.name, setting.value.toToml)

def written (setting : Setting) : Text :=
  setting.key.word ++ ' ' :: '=' :: ' ' :: setting.value.written ++ ['\n']

end Setting

/-- A table with a header of its own. -/
structure PlainTable where
  name : BareKey
  settings : List Setting

namespace PlainTable

def entry (table : PlainTable) : String × Toml :=
  (table.name.name, .table .header (table.settings.map Setting.entry))

def written (table : PlainTable) : Text :=
  '[' :: table.name.word ++ ']' :: '\n' :: table.settings.flatMap Setting.written

end PlainTable

/-- Tables of which no two have one name, each without a repeated key. -/
structure AreDistinct (tables : List PlainTable) : Prop where
  names : (tables.map fun table => table.name.name).Nodup
  keys : ∀ table ∈ tables, (table.settings.map fun setting => setting.key.name).Nodup

/-! ## Keys -/

theorem BareKey.head?_word (key : BareKey) : ∃ first rest, key.word = first :: rest ∧
    isBareKey first = true := by
  have nonempty : key.word ≠ [] := by simpa [word] using key.nonempty
  obtain ⟨first, rest, isWord⟩ := List.exists_cons_of_ne_nil nonempty
  have isFirst : first ∈ key.word := isWord ▸ List.mem_cons_self
  exact ⟨first, rest, isWord, key.bare first isFirst⟩

/-- A character of a key starts nothing else. -/
theorem ne_of_isBareKey {character other : Char} (bare : isBareKey character = true)
    (notBare : isBareKey other = false) : character ≠ other :=
  fun same => by simp [same, notBare] at bare

/-- A key without quotes ends at the first character that it cannot hold. -/
theorem readKey?_append (key : BareKey) {most : Nat} (positive : 0 < most) {mark : Char}
    (ends : isBareKey mark = false) {following : Text}
    (noDot : (List.dropWhile isSpace (mark :: following)).head? ≠ some '.') :
    readKey? most (key.word ++ mark :: following) =
      some ([], key.name, List.dropWhile isSpace (mark :: following)) := by
  obtain ⟨fewer, rfl⟩ := Nat.exists_eq_add_of_lt positive
  obtain ⟨first, rest, isWord, bare⟩ := key.head?_word
  have noSpace : isSpace first = false := by
    simp [isSpace, ne_of_isBareKey bare (by decide : isBareKey ' ' = false),
      ne_of_isBareKey bare (by decide : isBareKey '\t' = false)]
  have noQuote : (first == '"' || first == '\x27') = false := by
    simp [ne_of_isBareKey bare (by decide : isBareKey '"' = false),
      ne_of_isBareKey bare (by decide : isBareKey '\x27' = false)]
  have unspaced : (key.word ++ mark :: following).dropWhile isSpace =
      key.word ++ mark :: following := by
    rw [isWord, List.cons_append, List.dropWhile_cons_of_neg (by simp [noSpace])]
  have allBare : ∀ character ∈ key.word, isBareKey character = true := key.bare
  have taken : (key.word ++ mark :: following).takeWhile isBareKey = key.word := by
    rw [List.takeWhile_append_of_pos allBare, List.takeWhile_cons_of_neg (by simp [ends]),
      List.append_nil]
  have left : (key.word ++ mark :: following).dropWhile isBareKey = mark :: following := by
    rw [List.dropWhile_append_of_pos allBare, List.dropWhile_cons_of_neg (by simp [ends])]
  have isRead : readKeyWord? (key.word ++ mark :: following) =
      some (key.name, mark :: following) := by
    have unquoted : (key.word ++ mark :: following).head?.any
        (fun mark => mark == '"' || mark == '\x27') = false := by
      rw [isWord, List.cons_append, List.head?_cons, Option.any_some, noQuote]
    simp only [readKeyWord?, unquoted, taken, left]
    simp [BareKey.word, key.nonempty]
  cases unspacedRest : List.dropWhile isSpace (mark :: following) with
  | nil => simp [readKey?, unspaced, isRead, unspacedRest]
  | cons next more =>
      have noPath : next ≠ '.' := fun same => noDot (by rw [unspacedRest, same]; rfl)
      simp [readKey?, unspaced, isRead, unspacedRest, noPath]

/-! ## Values -/

theorem splitEscaped_escape {text : Text}
    (plain : ∀ character ∈ text, isForbidden character = false) (following : Text) :
    splitEscaped '"' (escape text ++ '"' :: following) = some (escape text, following) := by
  induction text with
  | nil => simp [escape, splitEscaped]
  | cons character rest inductionHypothesis =>
      obtain ⟨here, later⟩ := List.forall_mem_cons.mp plain
      rw [escape]
      split
      · next marked =>
        rw [List.cons_append, List.cons_append, splitEscaped, if_neg (by simp [here]),
          inductionHypothesis later]
        rfl
      · next unmarked =>
        obtain ⟨noQuote, noBackslash⟩ := not_or.mp unmarked
        rw [List.cons_append, splitEscaped.eq_def]
        simp [noQuote, noBackslash, here, inductionHypothesis later]

theorem unescape_escape (text : Text) : unescape (escape text) = some text := by
  induction text with
  | nil => rfl
  | cons character rest inductionHypothesis =>
      rw [escape]
      split
      · next marked =>
        rcases marked with rfl | rfl <;> simp [unescape, inductionHypothesis]
      · next unmarked =>
        obtain ⟨_, noBackslash⟩ := not_or.mp unmarked
        rw [unescape.eq_def]
        simp [noBackslash, inductionHypothesis]

/-- A word without quotes is read up to the end of its line. -/
theorem readScalar?_append {word : Text}
    (plain : ∀ character ∈ word, isWordCharacter character = true) (following : Text) :
    readScalar? (word ++ '\n' :: following) =
      (ofWord? word).map fun value => (value, '\n' :: following) := by
  have ends : ¬isWordCharacter '\n' = true := by decide
  have taken : (word ++ '\n' :: following).takeWhile isWordCharacter = word := by
    rw [List.takeWhile_append_of_pos plain, List.takeWhile_cons_of_neg ends, List.append_nil]
  have left : (word ++ '\n' :: following).dropWhile isWordCharacter = '\n' :: following := by
    rw [List.dropWhile_append_of_pos plain, List.dropWhile_cons_of_neg ends]
  simp [readScalar?, taken, left]

/-- No quote stands at the start of an escaped text. -/
theorem head?_escape (text : Text) : (escape text).head? ≠ some '"' := by
  cases text with
  | nil => simp [escape]
  | cons character rest =>
      rw [escape]
      split
      · simp
      · next unmarked => simpa using (not_or.mp unmarked).1

/-- A string is read up to its closing quote. -/
theorem readAnyString?_written {text : Text}
    (plain : ∀ character ∈ text, isForbidden character = false) (following : Text) :
    readAnyString? ('"' :: escape text ++ '"' :: '\n' :: following) =
      some (text, '\n' :: following) := by
  have isString : readString? ('"' :: escape text ++ '"' :: '\n' :: following) =
      some (text, '\n' :: following) := by
    simp [readString?, splitEscaped_escape plain, unescape_escape]
  have noQuote := head?_escape text
  -- Three quotes would open a string over several lines.
  rw [readAnyString?.eq_def]
  split
  · next rest isLong =>
    cases escaped : escape text with
    | nil => simp [escaped] at isLong
    | cons first others => simp_all
  · simp at *
  · exact isString

/-- A value is read up to the end of its line. -/
theorem readValue?_written (value : PlainValue) (fuel : Nat) (following : Text) :
    readValue? (fuel + 1) 0 (value.written ++ '\n' :: following) =
      some (value.toToml, '\n' :: following) := by
  cases value with
  | boolean value =>
      have plain : ∀ character ∈ (PlainValue.boolean value).written,
          isWordCharacter character = true := by
        cases value <;> simp [PlainValue.written, isWordCharacter, isSpace]
      have isScalar := readScalar?_append plain following
      cases value <;> exact isScalar
  | string text plain =>
      have isString := readAnyString?_written plain following
      simp only [PlainValue.written, List.append_assoc, List.cons_append, List.nil_append]
        at isString ⊢
      simp [readValue?, isString, PlainValue.toToml]

/-! ## Tables -/

/-- A key that is not among some entries is looked for behind them. -/
theorem update_append {entries : Entries} {key : String} (isNew : key ∉ entries.map Prod.fst)
    (later : Entries) (change : Option Toml → Option Toml) :
    update (entries ++ later) key change = (update later key change).map (entries ++ ·) := by
  induction entries with
  | nil => simp
  | cons entry others inductionHypothesis =>
      obtain ⟨differs, absent⟩ := not_or.mp (mt List.mem_cons.mpr isNew)
      simp [update, Ne.symm differs, inductionHypothesis absent, Option.map_map, Function.comp_def]

/-- A header opens a table behind the others. -/
theorem openTable_of_new {entries : Entries} {name : String}
    (isNew : name ∉ entries.map Prod.fst) :
    openTable [] name entries = some (entries ++ [(name, .table .header [])]) := by
  have behind := update_append isNew []
  rw [List.append_nil] at behind
  simp [openTable, atHeader, behind, update]

/-- A setting goes behind the others of the table that is open. -/
theorem setDotted_of_new {entries inner : Entries} {name key : String}
    (isLast : name ∉ entries.map Prod.fst) (isNew : key ∉ inner.map Prod.fst) (value : Toml) :
    atHeader [name] (setDotted [] key value) (entries ++ [(name, .table .header inner)]) =
      some (entries ++ [(name, .table .header (inner ++ [(key, value)]))]) := by
  have behind := update_append isNew []
  rw [List.append_nil] at behind
  simp [atHeader, setDotted, update_append isLast, update, behind]

/-! ## Statements -/

@[simp] theorem endLine?_newline (following : Text) :
    endLine? ('\n' :: following) = some following := by
  have noSpace : ¬isSpace '\n' = true := by decide
  simp [endLine?, List.dropWhile_cons_of_neg noSpace]

/-- A header opens its table, whatever table was open before it. -/
theorem readStatement?_header (fuel : Nat) {progress : Progress} (name : BareKey)
    (isNew : name.name ∉ progress.entries.map Prod.fst) (following : Text) :
    readStatement? fuel progress ('[' :: name.word ++ ']' :: '\n' :: following) =
      some ({ entries := progress.entries ++ [(name.name, .table .header [])],
              header := [name.name] }, following) := by
  have isKey : readKey? nestingLimit (name.word ++ ']' :: '\n' :: following) =
      some ([], name.name, ']' :: '\n' :: following) :=
    readKey?_append name (by decide) (by decide) (by simp [isSpace])
  obtain ⟨first, rest, isWord, bare⟩ := name.head?_word
  have isTable : first ≠ '[' := ne_of_isBareKey bare (by decide)
  simp only [isWord, List.cons_append] at isKey ⊢
  simp [readStatement?, isTable, isKey, openTable_of_new isNew]

/-- A setting goes into the table that is open. -/
theorem readStatement?_setting (fuel : Nat) {entries inner : Entries} {name : String}
    (isLast : name ∉ entries.map Prod.fst) (setting : Setting)
    (isNew : setting.key.name ∉ inner.map Prod.fst) (following : Text) :
    readStatement? (fuel + 1)
        { entries := entries ++ [(name, .table .header inner)], header := [name] }
        (setting.written ++ following) =
      some ({ entries := entries ++ [(name, .table .header (inner ++ [setting.entry]))],
              header := [name] }, following) := by
  let behind : Text := '=' :: ' ' :: (setting.value.written ++ '\n' :: following)
  have isKey : readKey? nestingLimit (setting.key.word ++ ' ' :: behind) =
      some ([], setting.key.name, behind) :=
    readKey?_append setting.key (by decide) (by decide) (by simp [isSpace, behind])
  have isWritten : setting.written ++ following = setting.key.word ++ ' ' :: behind := by
    simp [Setting.written, behind]
  have unspaced : (' ' :: (setting.value.written ++ '\n' :: following)).dropWhile isSpace =
      setting.value.written ++ '\n' :: following := by
    rcases setting.value with (_ | _) | ⟨text, plain⟩ <;> rfl
  obtain ⟨first, rest, isWord, bare⟩ := setting.key.head?_word
  have isSetting : first ≠ '[' := ne_of_isBareKey bare (by decide)
  rw [isWritten]
  simp only [isWord, List.cons_append] at isKey ⊢
  simp [readStatement?, isSetting, isKey, behind, unspaced, readValue?_written,
    setDotted_of_new isLast isNew]
  rfl

/-- A statement is read, and then the others. -/
theorem readStatements?_next {fuel : Nat} {progress next : Progress} {first : Char}
    {text following : Text} (head : text.head? = some first)
    (starts : first = '[' ∨ isBareKey first = true)
    (isRead : readStatement? fuel progress text = some (next, following)) :
    readStatements? (fuel + 1) progress text = readStatements? fuel next following := by
  obtain ⟨rest, rfl⟩ := List.head?_eq_some_iff.mp head
  have noFiller : first ≠ '\n' ∧ isSpace first = false ∧ first ≠ '#' := by
    rcases starts with rfl | bare
    · decide
    · refine ⟨ne_of_isBareKey bare (by decide), ?_, ne_of_isBareKey bare (by decide)⟩
      simp [isSpace, ne_of_isBareKey bare (by decide : isBareKey ' ' = false),
        ne_of_isBareKey bare (by decide : isBareKey '\t' = false)]
  have unfilled : skipFiller false (first :: rest) = first :: rest := by
    rw [skipFiller.eq_def]
    split
    · simp_all
    · simp_all
    · contradiction
  simp [readStatements?, unfilled, isRead]

/-- Settings go into the table that is open, one after the other. Each of them takes one round and
more than one character. -/
theorem readStatements?_settings {settings : List Setting} {entries inner : Entries}
    {name : String} (isLast : name ∉ entries.map Prod.fst)
    (distinct : (inner.map Prod.fst ++ settings.map fun setting => setting.key.name).Nodup)
    (following : Text) {fuel : Nat} (enough : (settings.flatMap Setting.written).length < fuel) :
    ∃ left, fuel ≤ left + (settings.flatMap Setting.written).length ∧
      readStatements? fuel
          { entries := entries ++ [(name, .table .header inner)], header := [name] }
          (settings.flatMap Setting.written ++ following) =
        readStatements? left
          { entries := entries ++ [(name, .table .header (inner ++ settings.map Setting.entry))],
            header := [name] } following := by
  induction settings generalizing inner fuel with
  | nil => exact ⟨fuel, by simp, by simp⟩
  | cons setting later inductionHypothesis =>
      obtain ⟨first, rest, isWord, bare⟩ := setting.key.head?_word
      have isLong : 2 ≤ setting.written.length := by simp [Setting.written]; omega
      rw [List.flatMap_cons, List.length_append] at enough
      obtain ⟨fewer, rfl⟩ : ∃ fewer, fuel = fewer + 2 := ⟨fuel - 2, by omega⟩
      have isNew : setting.key.name ∉ inner.map Prod.fst := by
        rw [List.map_cons] at distinct
        exact fun isOld => (List.nodup_append.mp distinct).2.2 _ isOld _ List.mem_cons_self rfl
      have laterDistinct : ((inner ++ [setting.entry]).map Prod.fst ++
          later.map fun setting => setting.key.name).Nodup := by
        simpa [Setting.entry] using distinct
      obtain ⟨left, bound, isRead⟩ := inductionHypothesis laterDistinct
        (show (later.flatMap Setting.written).length < fewer + 1 by omega)
      refine ⟨left, by rw [List.flatMap_cons, List.length_append]; omega, ?_⟩
      have head : (setting.written ++ (later.flatMap Setting.written ++ following)).head? =
          some first := by
        simp [Setting.written, isWord]
      rw [List.flatMap_cons, List.append_assoc,
        readStatements?_next head (.inr bare) (readStatement?_setting fewer isLast setting isNew _),
        isRead]
      simp

/-- Tables are read one after the other. -/
theorem readStatements?_tables {tables : List PlainTable} {entries : Entries}
    (names : (entries.map Prod.fst ++ tables.map fun table => table.name.name).Nodup)
    (keys : ∀ table ∈ tables, (table.settings.map fun setting => setting.key.name).Nodup)
    (header : List String) {fuel : Nat}
    (enough : (tables.flatMap PlainTable.written).length < fuel) :
    readStatements? fuel { entries, header } (tables.flatMap PlainTable.written) =
      some (entries ++ tables.map PlainTable.entry) := by
  induction tables generalizing entries header fuel with
  | nil =>
      obtain ⟨fewer, rfl⟩ := Nat.exists_eq_add_of_lt enough
      simp [readStatements?, skipFiller]
  | cons table later inductionHypothesis =>
      obtain ⟨keysHere, keysLater⟩ := List.forall_mem_cons.mp keys
      obtain ⟨fewer, rfl⟩ : ∃ fewer, fuel = fewer + 1 := ⟨fuel - 1, by omega⟩
      have isNew : table.name.name ∉ entries.map Prod.fst := by
        rw [List.map_cons] at names
        exact fun isOld => (List.nodup_append.mp names).2.2 _ isOld _ List.mem_cons_self rfl
      have laterNames : ((entries ++ [table.entry]).map Prod.fst ++
          later.map fun table => table.name.name).Nodup := by
        simpa [PlainTable.entry] using names
      have total : ((table :: later).flatMap PlainTable.written).length =
          table.name.word.length + 3 + (table.settings.flatMap Setting.written).length +
            (later.flatMap PlainTable.written).length := by
        simp [PlainTable.written]
        omega
      rw [total] at enough
      have keysDistinct : (([] : Entries).map Prod.fst ++
          table.settings.map fun setting => setting.key.name).Nodup := by simpa using keysHere
      obtain ⟨left, bound, settingsRead⟩ := readStatements?_settings isNew keysDistinct
        (later.flatMap PlainTable.written)
        (show (table.settings.flatMap Setting.written).length < fewer by omega)
      have isWritten : (table :: later).flatMap PlainTable.written =
          '[' :: table.name.word ++ ']' :: '\n' ::
            (table.settings.flatMap Setting.written ++ later.flatMap PlainTable.written) := by
        simp [PlainTable.written]
      rw [isWritten, readStatements?_next rfl (.inl rfl)
        (readStatement?_header fewer table.name isNew _), settingsRead, List.nil_append]
      have laterRead := inductionHypothesis laterNames keysLater [table.name.name]
        (show (later.flatMap PlainTable.written).length < left by omega)
      simpa [PlainTable.entry] using laterRead

/-! ## Documents -/

theorem mem_of_mem_escape {text : Text} {character : Char} (isIn : character ∈ escape text) :
    character ∈ text ∨ character = '\\' := by
  induction text with
  | nil => simp [escape] at isIn
  | cons first rest inductionHypothesis =>
      rw [escape] at isIn
      split at isIn <;> grind

theorem BareKey.return_notMem (key : BareKey) : '\r' ∉ key.word :=
  fun isIn => absurd (key.bare _ isIn) (by decide)

theorem PlainValue.return_notMem (value : PlainValue) : '\r' ∉ value.written := by
  rcases value with (_ | _) | ⟨text, plain⟩
  · decide
  · decide
  · have notEscaped : '\r' ∉ escape text.toList := fun isIn =>
      (mem_of_mem_escape isIn).elim (fun inText => absurd (plain _ inText) (by decide)) (by decide)
    simp [written, notEscaped]

theorem Setting.return_notMem (setting : Setting) : '\r' ∉ setting.written := by
  simp [written, setting.key.return_notMem, setting.value.return_notMem]

theorem PlainTable.return_notMem (table : PlainTable) : '\r' ∉ table.written := by
  simp [written, table.name.return_notMem, Setting.return_notMem]

theorem hasStrayReturn_of_notMem {text : Text} (noReturn : '\r' ∉ text) :
    hasStrayReturn text = false := by
  induction text with
  | nil => rfl
  | cons first rest inductionHypothesis =>
      obtain ⟨differs, absent⟩ := not_or.mp (mt List.mem_cons.mpr noReturn)
      have isOther : first ≠ '\r' := Ne.symm differs
      rw [hasStrayReturn.eq_def]
      split <;> simp_all

/-- Tables that have been written are read again. -/
theorem read?_written {tables : List PlainTable} (distinct : AreDistinct tables) :
    read? (tables.flatMap PlainTable.written) = some (tables.map PlainTable.entry) := by
  have noReturn : '\r' ∉ tables.flatMap PlainTable.written := by
    simp [PlainTable.return_notMem]
  have noMark : (tables.flatMap PlainTable.written).head? ≠ some '\ufeff' := by
    cases tables <;> simp [PlainTable.written]
  have unfiltered :
      (tables.flatMap PlainTable.written).filter (fun character => character != '\r') =
        tables.flatMap PlainTable.written :=
    List.filter_eq_self.mpr fun character isIn =>
      bne_iff_ne.mpr (ne_of_mem_of_not_mem isIn noReturn)
  have names : (([] : Entries).map Prod.fst ++
      tables.map fun table => table.name.name).Nodup := by simpa using distinct.names
  have isRead := readStatements?_tables names distinct.keys []
    (show _ < (tables.flatMap PlainTable.written).length + 2 by omega)
  simpa [read?, noMark, hasStrayReturn_of_notMem noReturn, unfiltered] using isRead

/-- The values of plain tables are truth values and strings. -/
theorem entriesHaveValues_entries (tables : List PlainTable) :
    entriesHaveValues (tables.map PlainTable.entry) = true := by
  have settingsHave (settings : List Setting) :
      entriesHaveValues (settings.map Setting.entry) = true := by
    induction settings with
    | nil => simp [entriesHaveValues]
    | cons setting later inductionHypothesis =>
        rcases setting with ⟨key, _ | _⟩ <;>
          simp [entriesHaveValues, Setting.entry, PlainValue.toToml, hasValue, inductionHypothesis]
  induction tables with
  | nil => simp [entriesHaveValues]
  | cons table later inductionHypothesis =>
      simp [entriesHaveValues, PlainTable.entry, hasValue, settingsHave, inductionHypothesis]

end SchemaMarkup.Toml

/-! ## Options -/

namespace SchemaMarkup.CompilerOptions

open Toml

/-- The tables that are not for the compiler make no difference. -/
theorem ofConfiguration?_tables {tables : List PlainTable} (distinct : AreDistinct tables) :
    ofConfiguration? (tables.flatMap PlainTable.written) =
      match tables.find? fun table => table.name.name == "compiler" with
      | some own => ofEntries? (own.settings.map Setting.entry)
      | none => some {} := by
  have others : (tables.map PlainTable.entry).filter (fun entry => !(entry.1 == "compiler")) =
      (tables.filter fun table => !(table.name.name == "compiler")).map PlainTable.entry := by
    simp [List.filter_map, Function.comp_def, PlainTable.entry]
  have own : (tables.map PlainTable.entry).filter (fun entry => entry.1 == "compiler") =
      (tables.filter fun table => table.name.name == "compiler").map PlainTable.entry := by
    simp [List.filter_map, Function.comp_def, PlainTable.entry]
  rw [← List.head?_filter]
  simp only [ofConfiguration?, read?_written distinct, Option.bind_eq_bind, Option.bind_some,
    List.partition_eq_filter_filter, Function.comp_def, own, others, entriesHaveValues_entries,
    if_true]
  cases tables.filter fun table => table.name.name == "compiler" with
  | nil => rfl
  | cons own later => rfl

/-- The name of a dialect is written as it is. -/
theorem plain_name (choice : DialectChoice) :
    ∀ character ∈ choice.name.toList, isForbidden character = false := by
  rcases choice with _ | _ | _ <;> simp [DialectChoice.name, Dialect.name, isForbidden]

/-- The options as a table. -/
def table (options : CompilerOptions) : PlainTable where
  name := ⟨"compiler", by decide, by simp [isBareKey]⟩
  settings :=
    [ { key := ⟨"dialect", by decide, by simp [isBareKey]⟩
        value := .string options.dialect.name (plain_name options.dialect) },
      { key := ⟨"infer_foreign_keys", by decide, by simp [isBareKey]⟩
        value := .boolean options.infersForeignKeys },
      { key := ⟨"fail_on_warnings", by decide, by simp [isBareKey]⟩
        value := .boolean options.failsOnWarnings } ]

/-- Options that have been written are found among other tables. -/
theorem ofConfiguration?_written (options : CompilerOptions) {before after : List PlainTable}
    (distinct : AreDistinct (before ++ options.table :: after)) :
    ofConfiguration? ((before ++ options.table :: after).flatMap PlainTable.written) =
      some options := by
  have isNew : ∀ table ∈ before, table.name.name ≠ "compiler" := by
    have names := distinct.names
    rw [List.map_append, List.map_cons, List.nodup_append] at names
    exact fun table isIn =>
      names.2.2 _ (List.mem_map_of_mem isIn) _ List.mem_cons_self
  have isFound : (before ++ options.table :: after).find?
      (fun table => table.name.name == "compiler") = some options.table := by
    rw [List.find?_append, List.find?_eq_none.mpr (by simpa using isNew)]
    rfl
  have dialectFound : dialect? (.string options.dialect.name) = some options.dialect := by
    rw [dialect?, DialectChoice.ofName?_name]
  rw [ofConfiguration?_tables distinct, isFound]
  simp only [ofEntries?, table, Setting.entry, PlainValue.toToml, List.map_cons, List.map_nil,
    List.foldlM_cons, List.foldlM_nil, set?, truth?, dialectFound]
  rfl

end SchemaMarkup.CompilerOptions
