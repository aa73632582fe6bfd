import SchemaMarkup.Proofs.Outcome
import SchemaMarkup.Proofs.Reading.CursorReading

/-!
# Documents read by a cursor

Reading goes over the lines of a source twice: once for the headings, which it notes with their
places, and once for the bodies, each from behind its heading to the place of the next. So a
document is read from the places of lines among all lines, those that say nothing included.

`Document.read_eq` says that it is the document that the lines which say something declare: no
place gets out of step with the blocks (`HeaderPass.collect_eq`, `assembleBlocks_eq`), and no line
that says nothing gets between a block and what is read from it.
-/

namespace SchemaMarkup

/-! ## Blocks among lines -/

/-- The lines of a block, its heading first. -/
def Block.lines (block : Block) : List Line :=
  block.heading :: block.body

/-- A division of lines into a preamble and blocks. -/
structure IsDivided (dialect : Dialect) (lines preamble : List Line) (blocks : List Block) :
    Prop where
  whole : lines = preamble ++ blocks.flatMap Block.lines
  preamble : ∀ line ∈ preamble, dialect.opensBlock line = false
  headings : ∀ block ∈ blocks, dialect.opensBlock block.heading = true
  bodies : ∀ block ∈ blocks, ∀ line ∈ block.body, dialect.opensBlock line = false

/-- Lines before the first block belong to the preamble. -/
theorem splitBlocks_append (dialect : Dialect) {front : List Line}
    (noBlock : ∀ line ∈ front, dialect.opensBlock line = false) (lines : List Line) :
    splitBlocks dialect (front ++ lines) =
      (front ++ (splitBlocks dialect lines).1, (splitBlocks dialect lines).2) := by
  induction front with
  | nil => rfl
  | cons line later inductionHypothesis =>
      obtain ⟨first, rest⟩ := List.forall_mem_cons.mp noBlock
      simp [splitBlocks, first, inductionHypothesis rest]

theorem isDivided_splitBlocks (dialect : Dialect) (lines : List Line) :
    IsDivided dialect lines (splitBlocks dialect lines).1 (splitBlocks dialect lines).2 := by
  induction lines with
  | nil => exact ⟨rfl, by simp [splitBlocks], by simp [splitBlocks], by simp [splitBlocks]⟩
  | cons line later inductionHypothesis =>
      obtain ⟨whole, preamble, headings, bodies⟩ := inductionHypothesis
      by_cases opens : dialect.opensBlock line = true
      · simp only [splitBlocks, opens, if_true]
        exact {
          whole := by
            rw [List.flatMap_cons, Block.lines, List.nil_append, List.cons_append, ← whole]
          preamble := by simp
          headings := List.forall_mem_cons.mpr ⟨opens, headings⟩
          bodies := List.forall_mem_cons.mpr ⟨preamble, bodies⟩ }
      · simp only [splitBlocks, if_neg opens]
        exact {
          whole := by rw [List.cons_append, ← whole]
          preamble := List.forall_mem_cons.mpr ⟨by simpa using opens, preamble⟩
          headings
          bodies }

/-- Lines are divided in one way. -/
theorem splitBlocks_eq_iff {dialect : Dialect} {lines preamble : List Line}
    {blocks : List Block} :
    splitBlocks dialect lines = (preamble, blocks) ↔ IsDivided dialect lines preamble blocks := by
  constructor
  · intro divided
    have isDivided := isDivided_splitBlocks dialect lines
    rwa [divided] at isDivided
  · rintro ⟨rfl, noBlock, headings, bodies⟩
    have behind : splitBlocks dialect (blocks.flatMap Block.lines) = ([], blocks) := by
      induction blocks with
      | nil => rfl
      | cons block later inductionHypothesis =>
          obtain ⟨opens, headings⟩ := List.forall_mem_cons.mp headings
          obtain ⟨body, bodies⟩ := List.forall_mem_cons.mp bodies
          rw [List.flatMap_cons, Block.lines, List.cons_append, splitBlocks,
            splitBlocks_append dialect body, inductionHypothesis headings bodies]
          simp [opens]
    rw [splitBlocks_append dialect noBlock, behind, List.append_nil]

/-! ## Blocks without the lines that say nothing -/

/-- The block without the lines that say nothing. -/
def Block.spoken (block : Block) : Block :=
  { block with body := block.body.filter fun line => !line.isIgnorable }

/-- A heading that opens a block says something. -/
theorem isIgnorable_of_opensBlock {dialect : Dialect} {line : Line}
    (opens : dialect.opensBlock line = true) : line.isIgnorable = false := by
  cases dialect <;> cases isKind : line.kind <;>
    simp [Dialect.opensBlock, Line.isIgnorable, isKind] at opens ⊢

/-- Leaving out lines that say nothing leaves them out of the blocks. -/
theorem IsDivided.spoken {dialect : Dialect} {lines preamble : List Line} {blocks : List Block}
    (divided : IsDivided dialect lines preamble blocks) :
    IsDivided dialect (lines.filter fun line => !line.isIgnorable)
      (preamble.filter fun line => !line.isIgnorable) (blocks.map Block.spoken) where
  whole := by
    rw [divided.whole, List.filter_append, List.filter_flatMap, List.flatMap_map]
    congr 1
    refine List.flatMap_congr fun block listed => ?_
    have speaks := isIgnorable_of_opensBlock (divided.headings block listed)
    simp [Block.lines, Block.spoken, speaks]
  preamble := fun line listed => divided.preamble line (List.mem_filter.mp listed).1
  headings := List.forall_mem_map.mpr divided.headings
  bodies := List.forall_mem_map.mpr fun block listed line spoken =>
    divided.bodies block listed line (List.mem_filter.mp spoken).1

/-- Lines that say nothing do not name the document. -/
theorem namespaceName?_spoken (dialect : Dialect) (preamble : List Line) :
    dialect.namespaceName? (preamble.filter fun line => !line.isIgnorable) =
      dialect.namespaceName? preamble := by
  have speaks : ∀ line, decide ((!line.isIgnorable) = true ∧ dialect.isTitle line = true) =
      dialect.isTitle line := by
    intro line
    cases dialect <;> cases isKind : line.kind <;>
      simp [Dialect.isTitle, Line.isIgnorable, isKind]
    rfl
  simp only [Dialect.namespaceName?, List.find?_filter, speaks]

/-- Lines that say nothing do not tell the dialect. -/
theorem Document.dialectFor_spoken (choice : DialectChoice) (lines : List Line) :
    choice.dialectFor (lines.filter fun line => !line.isIgnorable) = choice.dialectFor lines := by
  have silent : ∀ line : Line, line.isIgnorable = true → line.headingLevel? = none := by
    intro line isSilent
    rw [Line.headingLevel?, show line.kind = .ignorable from eq_of_beq isSilent]
  have any_spoken : ∀ test : Line → Bool, (∀ line, line.isIgnorable = true → test line = false) →
      (lines.filter fun line => !line.isIgnorable).any test = lines.any test := by
    intro test tellsNone
    rw [List.any_filter]
    congr 1
    funext line
    cases isSilent : line.isIgnorable with
    | true => rw [tellsNone line isSilent]; rfl
    | false => rfl
  cases choice with
  | fixed dialect => rfl
  | auto =>
      simp only [DialectChoice.dialectFor, Dialect.detect]
      rw [any_spoken _ fun line isSilent => by simp [silent line isSilent],
        any_spoken _ fun line isSilent => by simp [silent line isSilent]]

namespace Declaration

/-- The declaration without the lines of its block that say nothing. -/
def spoken (declaration : Declaration) : Declaration :=
  { declaration with block := declaration.block.spoken }

/-- The headings of blocks are read without a look at the bodies. -/
theorem readAllAfter_spoken (dialect : Dialect) (earlier : List Declaration)
    (blocks : List Block) :
    readAllAfter dialect (earlier.map spoken) (blocks.map Block.spoken) =
      List.map spoken <$> readAllAfter dialect earlier blocks := by
  induction blocks generalizing earlier with
  | nil => rfl
  | cons block later inductionHypothesis =>
      have sameNames : ∀ name : String,
          ((fun other : Declaration => other.header.name == name) ∘ spoken) =
            fun other => other.header.name == name := fun _ => rfl
      simp only [List.map_cons, readAllAfter, Block.spoken, List.find?_map, sameNames, map_bind]
      refine bind_congr fun header => ?_
      cases earlier.find? fun other => other.header.name == header.name with
      | some first => rfl
      | none =>
          have reads := inductionHypothesis (earlier ++ [Declaration.mk header block])
          rw [List.map_append, List.map_singleton] at reads
          simp only [Option.map_none, bind_pure_comp, Functor.map_map]
          exact (congrArg (Functor.map _) reads).trans (Functor.map_map ..)

/-- Headings are read for all blocks, in their order. -/
theorem map_block_of_readAllAfter {dialect : Dialect} {earlier : List Declaration}
    {blocks : List Block} {declarations : List Declaration}
    (run : readAllAfter dialect earlier blocks = .ok declarations) :
    declarations.map block = blocks := by
  induction blocks generalizing earlier declarations with
  | nil =>
      obtain rfl := Except.ok.inj run
      rfl
  | cons block later inductionHypothesis =>
      simp only [readAllAfter, bind_eq_ok_iff] at run
      obtain ⟨header, _, run⟩ := run
      split at run
      · simp only [bind_eq_ok_iff, throw_eq_ok_iff, false_and, exists_false] at run
      · simp only [bind_eq_ok_iff, pure_eq_ok_iff] at run
        obtain ⟨others, areRead, rfl⟩ := run
        rw [List.map_cons, inductionHypothesis areRead]

/-! ## The pass over the headings -/

/-- What is noted of some declarations, the first of which stands behind so many lines. -/
def noted (start : Nat) : List Declaration → List BlockHeader
  | [] => []
  | declaration :: later =>
      { header := declaration.header, start, location := declaration.location } ::
        noted (start + declaration.block.lines.length) later

end Declaration

namespace HeaderPass

/-- Headings and the declarations that they have been noted of. -/
def NotedOf (blocks : List BlockHeader) (declarations : List Declaration) : Prop :=
  List.Forall₂ (fun block declaration => block.header = declaration.header ∧
    block.location = declaration.location) blocks declarations

/-- The first heading with a name is noted of the first declaration with it. -/
theorem NotedOf.find? {blocks : List BlockHeader} {declarations : List Declaration}
    (areNoted : NotedOf blocks declarations) (name : String) :
    (blocks.find? fun other => other.header.name == name).map BlockHeader.location =
      (declarations.find? fun other => other.header.name == name).map Declaration.location := by
  induction areNoted with
  | nil => rfl
  | cons same _ inductionHypothesis =>
      obtain ⟨sameHeader, sameLocation⟩ := same
      rw [List.find?_cons, List.find?_cons, sameHeader]
      split
      · exact congrArg some sameLocation
      · exact inductionHypothesis

/-- Another line before the rest of a preamble comes first in naming the document. -/
theorem namespaceName?_cons (dialect : Dialect) (line : Line) (later : List Line) :
    dialect.namespaceName? (line :: later) =
      (dialect.namespaceName? [line]).or (dialect.namespaceName? later) := by
  cases isTitle : dialect.isTitle line <;> simp [Dialect.namespaceName?, isTitle]

/-- A line that opens no block can name the document, if it stands before all blocks. -/
theorem add_of_not_opensBlock {dialect : Dialect} {line : Line}
    (opensNone : dialect.opensBlock line = false) (pass : HeaderPass) (place : Nat) :
    pass.add dialect line place = .ok { pass with
      namespaceName :=
        if pass.blocks.isEmpty then pass.namespaceName.or (dialect.namespaceName? [line])
        else pass.namespaceName } := by
  cases isTitle : dialect.isTitle line with
  | false => simp [add, isTitle, opensNone, Dialect.namespaceName?]
  | true =>
      obtain ⟨_ | name, blocks⟩ := pass <;> cases isFirst : blocks.isEmpty <;>
        simp [add, isTitle, isFirst, Dialect.namespaceName?]

/-- A line that opens a block is noted at its place, unless its name is that of a declaration
above it. -/
theorem add_of_opensBlock {dialect : Dialect} {line : Line}
    (opens : dialect.opensBlock line = true) {pass : HeaderPass} {earlier : List Declaration}
    (areNoted : NotedOf pass.blocks earlier) (place : Nat) :
    pass.add dialect line place = (do
      let location := line.location
      let header ← atLocation location (Header.read dialect line.content)
      match earlier.find? fun other => other.header.name == header.name with
      | some first => throw (.duplicateEntity header.name location first.location)
      | none =>
          return { pass with
            blocks := pass.blocks ++ [{ header, start := place, location }] }) := by
  have isNoTitle : dialect.isTitle line = false := by
    cases dialect <;> cases isKind : line.kind <;>
      simp_all [Dialect.opensBlock, Dialect.isTitle]
  simp only [add, isNoTitle, opens, if_true, Bool.false_eq_true, if_false]
  refine bind_congr fun header => ?_
  have same := areNoted.find? header.name
  cases found : earlier.find? fun other => other.header.name == header.name with
  | some first =>
      rw [found] at same
      obtain ⟨other, isFirst, sameLocation⟩ := Option.map_eq_some_iff.mp same
      simp only [isFirst, sameLocation]
      rfl
  | none =>
      rw [found] at same
      simp only [Option.map_eq_none_iff.mp same]

/-- Going on behind some headings notes the blocks of the lines that are left, each at its place. A
title counts if it stands before all blocks and is the first. -/
theorem foldlM_add (dialect : Dialect) (lines : List Line) (place : Nat) (pass : HeaderPass)
    {earlier : List Declaration} (areNoted : NotedOf pass.blocks earlier) :
    (lines.zipIdx place).foldlM (fun pass line => pass.add dialect line.1 line.2) pass = (do
      let divided := splitBlocks dialect lines
      let declarations ← Declaration.readAllAfter dialect earlier divided.2
      return {
        namespaceName :=
          if pass.blocks.isEmpty then
            pass.namespaceName.or (dialect.namespaceName? divided.1)
          else
            pass.namespaceName
        blocks := pass.blocks ++ Declaration.noted (place + divided.1.length) declarations }) := by
  induction lines generalizing place pass earlier with
  | nil =>
      simp [splitBlocks, Declaration.readAllAfter, Declaration.noted, Dialect.namespaceName?]
      rfl
  | cons line later inductionHypothesis =>
      rw [List.zipIdx_cons, List.foldlM_cons]
      cases opens : dialect.opensBlock line with
      | false =>
          have goesOn := inductionHypothesis (place + 1) { pass with
            namespaceName :=
              if pass.blocks.isEmpty then pass.namespaceName.or (dialect.namespaceName? [line])
              else pass.namespaceName } areNoted
          refine Eq.trans (congrArg (· >>= _) (add_of_not_opensBlock opens pass place)) ?_
          refine Eq.trans goesOn ?_
          have count : place + ((splitBlocks dialect later).1.length + 1) =
              place + 1 + (splitBlocks dialect later).1.length := by omega
          simp only [splitBlocks, opens, Bool.false_eq_true, if_false, List.length_cons, count]
          rw [namespaceName?_cons dialect line (splitBlocks dialect later).1]
          cases pass.blocks.isEmpty <;> simp [Option.or_assoc]
      | true =>
          rw [add_of_opensBlock opens areNoted place]
          simp only [splitBlocks, opens, if_true, Declaration.readAllAfter, bind_assoc]
          refine bind_congr fun header => ?_
          cases earlier.find? fun other => other.header.name == header.name with
          | some first => rfl
          | none =>
              have goesOn := inductionHypothesis (place + 1) { pass with
                blocks := pass.blocks ++ [{ header, start := place, location := line.location }] }
                (List.rel_append areNoted (.cons (b := Declaration.mk header
                  { heading := line, body := (splitBlocks dialect later).1 }) ⟨rfl, rfl⟩ .nil))
              refine Eq.trans goesOn ?_
              simp only [bind_assoc]
              refine bind_congr fun declarations => ?_
              have count : place + 1 + (splitBlocks dialect later).1.length =
                  place + ((splitBlocks dialect later).1.length + 1) := by omega
              simp [Declaration.noted, Declaration.location, Block.lines,
                Dialect.namespaceName?, count]

/-- The pass over all lines of a source notes their blocks, each at its place. -/
theorem collect_eq (dialect : Dialect) (lines : List Line) :
    collect dialect lines = (do
      let divided := splitBlocks dialect lines
      let declarations ← Declaration.readAllAfter dialect [] divided.2
      return {
        namespaceName := dialect.namespaceName? divided.1
        blocks := Declaration.noted divided.1.length declarations }) := by
  have nothing : NotedOf ({} : HeaderPass).blocks [] := .nil
  simpa [collect] using foldlM_add dialect lines 0 {} nothing

end HeaderPass

/-! ## The pass over the bodies -/

/-- The lines from behind a heading to the next one are the body of the block. -/
theorem Cursor.before_seek {cursor : Cursor} {front back : List Line} {block : Block}
    (whole : cursor.lines = front ++ block.lines ++ back) :
    (cursor.seek (front.length + 1)).before (front.length + block.lines.length) = block.body := by
  have position : min (front.length + 1) cursor.lines.length = front.length + 1 := by
    rw [whole]
    simp [Block.lines]
  have room : front.length + block.lines.length - (front.length + 1) = block.body.length := by
    simp only [Block.lines, List.length_cons]
    omega
  have behind : cursor.lines = (front ++ [block.heading]) ++ (block.body ++ back) := by
    simp [whole, Block.lines]
  simp only [before, seek, position, room]
  rw [behind, List.drop_left' (by simp), List.take_left' rfl]

/-- A block is read from behind its heading as it is read by itself. -/
theorem BlockHeader.assemble_eq (dialect : Dialect) {cursor : Cursor}
    (depths : ∀ line ∈ cursor.lines, line.depth? ≠ some 0) {front back : List Line}
    {declaration : Declaration}
    (whole : cursor.lines = front ++ declaration.block.lines ++ back) :
    assemble dialect cursor
        { header := declaration.header, start := front.length, location := declaration.location }
        (front.length + declaration.block.lines.length) =
      declaration.spoken.readEntity dialect := by
  have entries : (cursor.seek (front.length + 1)).entries
      (front.length + declaration.block.lines.length) = declaration.spoken.block.entries := by
    rw [Cursor.entries, Cursor.before_seek whole]
    rfl
  have depthsThere : ∀ line ∈ (cursor.seek (front.length + 1)).lines, line.depth? ≠ some 0 :=
    depths
  simp only [assemble, Model.assemble_eq, Enumeration.assemble_eq depthsThere, entries]
  rfl

/-- A block ends at the start of the next one, and the last at the end of the lines. -/
theorem zip_stops_noted (start lineCount : Nat) (declaration : Declaration)
    (later : List Declaration)
    (ends : later = [] → lineCount = start + declaration.block.lines.length) :
    let blocks := Declaration.noted start (declaration :: later)
    let behind := Declaration.noted (start + declaration.block.lines.length) later
    blocks.zip (BlockHeader.stops blocks lineCount) =
      ({ header := declaration.header, start, location := declaration.location },
        start + declaration.block.lines.length) ::
          behind.zip (BlockHeader.stops behind lineCount) := by
  cases later with
  | nil => simp [Declaration.noted, BlockHeader.stops, ends]
  | cons next later => simp [Declaration.noted, BlockHeader.stops]

/-- The blocks behind some lines are read one after the other, each up to the next. -/
theorem foldlM_assemble (dialect : Dialect) {cursor : Cursor}
    (depths : ∀ line ∈ cursor.lines, line.depth? ≠ some 0) (declarations : List Declaration)
    {front : List Line}
    (whole : cursor.lines = front ++ declarations.flatMap fun declaration =>
      declaration.block.lines)
    (document : Document) (warnings : List Diagnostic) :
    let blocks := Declaration.noted front.length declarations
    (blocks.zip (BlockHeader.stops blocks cursor.lines.length)).foldlM
        (fun (read : Document × List Diagnostic) block => do
          let (entity, warnings) ← block.1.assemble dialect cursor block.2
          return (read.1.insert entity, read.2 ++ warnings))
        (document, warnings) = (do
      let entities ← (declarations.map Declaration.spoken).mapM (Declaration.readEntity dialect)
      return (entities.foldl (fun document entity => document.insert entity.1) document,
        warnings ++ entities.flatMap Prod.snd)) := by
  induction declarations generalizing front document warnings with
  | nil => simp [Declaration.noted]
  | cons declaration later inductionHypothesis =>
      have wholeHere : cursor.lines = front ++ declaration.block.lines ++
          later.flatMap fun declaration => declaration.block.lines := by
        simpa using whole
      have ends : later = [] →
          cursor.lines.length = front.length + declaration.block.lines.length := by
        rintro rfl
        simp [wholeHere]
      have frontLength : (front ++ declaration.block.lines).length =
          front.length + declaration.block.lines.length := List.length_append
      have goesOn := inductionHypothesis wholeHere
      rw [frontLength] at goesOn
      simp only [zip_stops_noted _ _ _ _ ends, List.foldlM_cons, List.map_cons, List.mapM_cons,
        BlockHeader.assemble_eq dialect depths wholeHere, bind_assoc]
      refine bind_congr fun outcome => ?_
      simp only [pure_bind, goesOn]
      simp

namespace Document

/-- Both passes together read what the lines declare that say something. -/
theorem assembleBlocks_eq (dialect : Dialect) {cursor : Cursor}
    (depths : ∀ line ∈ cursor.lines, line.depth? ≠ some 0) :
    (do assembleBlocks dialect cursor (← HeaderPass.collect dialect cursor.lines)) =
      ofLines dialect (cursor.lines.filter fun line => !line.isIgnorable) := by
  have divided := isDivided_splitBlocks dialect cursor.lines
  have headings := Declaration.readAllAfter_spoken dialect [] (splitBlocks dialect cursor.lines).2
  rw [List.map_nil] at headings
  simp only [HeaderPass.collect_eq, ofLines, splitBlocks_eq_iff.mpr divided.spoken, headings,
    namespaceName?_spoken, bind_map_left, bind_assoc, pure_bind]
  cases areRead : Declaration.readAllAfter dialect [] (splitBlocks dialect cursor.lines).2 with
  | error => rfl
  | ok declarations =>
      have whole := divided.whole
      rw [← Declaration.map_block_of_readAllAfter areRead, List.flatMap_map] at whole
      have assembled := foldlM_assemble dialect depths declarations whole
      simp only [assembleBlocks]
      refine Eq.trans (assembled _ _) ?_
      simp only [List.nil_append]
      rfl

/-- A document is what the lines of its source declare that say something. -/
theorem read_eq (options : ReadingOptions) (source : Text) :
    read options source = ofSpokenLines options (spokenLines source) := by
  have depths : ∀ line ∈ (Cursor.ofSource source).lines, line.depth? ≠ some 0 :=
    depth?_readLines source
  have assembled := assembleBlocks_eq (options.dialect.dialectFor (readLines source)) depths
  simp only [Cursor.ofSource] at assembled
  rw [ofSpokenLines, spokenLines, dialectFor_spoken, ← assembled, read]
  simp only [bind_assoc, Cursor.ofSource]

end Document

end SchemaMarkup
