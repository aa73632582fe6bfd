import SchemaMarkup.Markup.Line

/-!
# What lines say

The kind and the content of a line are told by its own text and by what surrounds it, and what
surrounds the next line is told in the same way. So lines are scanned like words by an
automaton, whose states are the surroundings: `Surrounding.scan` leaves out where lines stand,
and it goes through the lines of two texts one after the other. Lines count without their
terminators here, so that `\n` and `\r\n` say the same.
-/

namespace SchemaMarkup

/-- What a line says: its kind and its content. -/
def Line.said (line : Line) : LineKind × Text :=
  (line.kind, line.content)

namespace Text

/-- The lines of a source without their terminators. -/
def rawLines (source : Text) : List Text :=
  source.splitLines.map dropReturn

/-- The lines of a source are what its line feeds divide it into. -/
theorem splitLines_eq_splitOn (source : Text) : source.splitLines = source.splitOn '\n' := by
  induction source with
  | nil => rfl
  | cons character rest inductionHypothesis =>
      rw [List.splitOn_cons_eq_if_modifyHead, ← inductionHypothesis]
      by_cases ends : character = '\n'
      · subst ends
        rfl
      · rw [if_neg (by simpa using ends)]
        cases split : splitLines rest with
        | nil =>
            rw [inductionHypothesis] at split
            exact absurd split (List.splitOn_ne_nil _ _)
        | cons line later => simp [splitLines, split]

/-- A line feed divides the lines before it from those after it. -/
theorem rawLines_append_newline (before after : Text) :
    rawLines (before ++ '\n' :: after) = before.rawLines ++ after.rawLines := by
  simp only [rawLines, splitLines_eq_splitOn, List.splitOn_append_cons_self, List.map_append]

/-- A text in one line, or what stands before and in the last one of its lines. -/
theorem lastLine_cases (source : Text) :
    '\n' ∉ source ∨ ∃ before last : Text, source = before ++ '\n' :: last ∧ '\n' ∉ last := by
  by_cases several : '\n' ∈ source
  · obtain ⟨last, before, reversed, within⟩ :=
      List.eq_append_cons_of_mem (List.mem_reverse.mpr several)
    refine .inr ⟨before.reverse, last.reverse, ?_, by simpa using within⟩
    rw [← List.reverse_reverse source, reversed]
    simp
  · exact .inl several

/-- A text in one line is its only line, with a carriage return behind it or without. -/
theorem rawLines_of_not_mem {line : Text} (within : '\n' ∉ line)
    (plain : line.getLast? ≠ some '\r') :
    rawLines line = [line] ∧ rawLines (line ++ ['\r']) = [line] := by
  have alsoWithin : '\n' ∉ line ++ ['\r'] := by simpa using within
  constructor
  · rw [rawLines, splitLines_eq_splitOn, List.splitOn_eq_singleton within]
    simp [dropReturn, plain]
  · rw [rawLines, splitLines_eq_splitOn, List.splitOn_eq_singleton alsoWithin]
    simp [dropReturn]

/-- A carriage return behind the last line belongs to its terminator. -/
theorem rawLines_concat_return {source : Text} (plain : source.getLast? ≠ some '\r') :
    rawLines (source ++ ['\r']) = source.rawLines := by
  rcases source.lastLine_cases with within | ⟨before, last, rfl, within⟩
  · obtain ⟨bare, returned⟩ := rawLines_of_not_mem within plain
    rw [bare, returned]
  · have lastPlain : last.getLast? ≠ some '\r' := by
      intro returns
      exact plain (by simp [List.getLast?_append, List.getLast?_cons, returns])
    obtain ⟨bare, returned⟩ := rawLines_of_not_mem within lastPlain
    rw [List.append_assoc, List.cons_append, rawLines_append_newline, rawLines_append_newline,
      bare, returned]

/-- A line ends with `\r\n` or with `\n`, and is the same line. -/
theorem rawLines_return_newline {before : Text} (plain : before.getLast? ≠ some '\r')
    (after : Text) :
    rawLines (before ++ '\r' :: '\n' :: after) = rawLines (before ++ '\n' :: after) := by
  have split : before ++ '\r' :: '\n' :: after = (before ++ ['\r']) ++ '\n' :: after := by simp
  rw [split, rawLines_append_newline, rawLines_append_newline, rawLines_concat_return plain]

end Text

namespace Surrounding

/-- What surrounds the line after some lines. -/
def afterAll (surrounding : Surrounding) (raws : List Text) : Surrounding :=
  raws.foldl (fun surrounding raw => surrounding.after raw.trim) surrounding

@[simp] theorem afterAll_nil (surrounding : Surrounding) : surrounding.afterAll [] = surrounding :=
  rfl

@[simp] theorem afterAll_cons (surrounding : Surrounding) (raw : Text) (later : List Text) :
    surrounding.afterAll (raw :: later) = (surrounding.after raw.trim).afterAll later := rfl

theorem afterAll_append (surrounding : Surrounding) (front back : List Text) :
    surrounding.afterAll (front ++ back) = (surrounding.afterAll front).afterAll back :=
  List.foldl_append

/-- What lines say one after the other. -/
def scan (surrounding : Surrounding) : List Text → List (LineKind × Text)
  | [] => []
  | raw :: later => surrounding.classify raw :: (surrounding.after raw.trim).scan later

theorem scan_append (surrounding : Surrounding) (front back : List Text) :
    surrounding.scan (front ++ back) =
      surrounding.scan front ++ (surrounding.afterAll front).scan back := by
  induction front generalizing surrounding with
  | nil => rfl
  | cons raw later inductionHypothesis =>
      rw [List.cons_append, scan, scan, inductionHypothesis, afterAll_cons, List.cons_append]

end Surrounding

/-! ## Sources -/

theorem map_said_readLinesFrom (surrounding : Surrounding) (number offset : Nat)
    (segments : List Text) :
    (readLinesFrom surrounding number offset segments).map Line.said =
      surrounding.scan (segments.map Text.dropReturn) := by
  induction segments generalizing surrounding number offset with
  | nil => rfl
  | cons segment later inductionHypothesis =>
      rw [readLinesFrom, List.map_cons, inductionHypothesis]
      rfl

theorem map_raw_readLinesFrom (surrounding : Surrounding) (number offset : Nat)
    (segments : List Text) :
    (readLinesFrom surrounding number offset segments).map Line.raw =
      segments.map Text.dropReturn := by
  induction segments generalizing surrounding number offset with
  | nil => rfl
  | cons segment later inductionHypothesis =>
      rw [readLinesFrom, List.map_cons, inductionHypothesis]
      rfl

/-- Lines are numbered one by one. -/
theorem map_number_readLinesFrom (surrounding : Surrounding) (number offset : Nat)
    (segments : List Text) :
    (readLinesFrom surrounding number offset segments).map Line.number =
      List.range' number segments.length := by
  induction segments generalizing surrounding number offset with
  | nil => rfl
  | cons segment later inductionHypothesis =>
      rw [readLinesFrom, List.map_cons, inductionHypothesis, List.length_cons, List.range'_succ]

/-- The lines of a source say what a scan of their texts says. -/
theorem map_said_readLines (source : Text) :
    (readLines source).map Line.said = Surrounding.plain.scan source.rawLines :=
  map_said_readLinesFrom ..

theorem map_raw_readLines (source : Text) : (readLines source).map Line.raw = source.rawLines :=
  map_raw_readLinesFrom ..

/-! ## The depth of items -/

/-- An item has a dash at least, so its depth is not zero. -/
theorem depth_pos_of_item? {raw content : Text} {depth : Nat}
    (isItem : raw.item? = some (.item depth, content)) : 0 < depth := by
  simp only [Text.item?] at isItem
  split at isItem
  · next blank =>
      simp only [Option.some.injEq, Prod.mk.injEq] at isItem
      obtain ⟨kind, _⟩ := isItem
      split at kind
      · contradiction
      · obtain rfl := LineKind.item.inj kind
        -- Without a dash the text would start with a blank, and those have been trimmed off.
        refine Nat.pos_of_ne_zero fun none => ?_
        have noDash : raw.trimStart.takeWhile (· == '-') = [] := by
          rw [← List.length_eq_zero_iff]
          omega
        have whole := List.takeWhile_append_dropWhile (p := (· == '-')) (l := raw.trimStart)
        rw [noDash, List.nil_append] at whole
        have trimmed := List.head?_dropWhile_not isBlank raw
        rw [whole] at blank
        rw [Text.trimStart] at blank
        cases start : (raw.dropWhile isBlank).head? with
        | none => simp [start] at blank
        | some first => simp_all
  · contradiction

theorem depth_pos_of_classify {surrounding : Surrounding} {raw : Text} {depth : Nat}
    (isItem : (surrounding.classify raw).1 = .item depth) : 0 < depth := by
  rw [Surrounding.classify] at isItem
  split at isItem
  · contradiction
  · simp only [Text.classify] at isItem
    split at isItem
    · contradiction
    · split at isItem
      · simp only [Text.heading?] at isItem
        split at isItem <;> contradiction
      · split at isItem
        · cases isRead : raw.item? with
          | none => simp [isRead] at isItem
          | some outcome =>
              obtain ⟨kind, content⟩ := outcome
              rw [isRead, Option.getD_some] at isItem
              obtain rfl : kind = .item depth := isItem
              exact depth_pos_of_item? isRead
        · split at isItem <;> contradiction

/-- No line of a source stands at depth zero. -/
theorem depth?_readLines (source : Text) : ∀ line ∈ readLines source, line.depth? ≠ some 0 := by
  have each : ∀ segments surrounding number offset,
      ∀ line ∈ readLinesFrom surrounding number offset segments, line.depth? ≠ some 0 := by
    intro segments
    induction segments with
    | nil => simp [readLinesFrom]
    | cons segment later inductionHypothesis =>
        intro surrounding number offset
        rw [readLinesFrom, List.forall_mem_cons]
        refine ⟨fun isRoot => ?_, inductionHypothesis _ _ _⟩
        rw [Line.depth?] at isRoot
        split at isRoot
        · next depth isItem =>
            obtain rfl := Option.some.inj isRoot
            exact absurd (depth_pos_of_classify isItem) (Nat.lt_irrefl 0)
        · contradiction
  exact each _ _ _ _

end SchemaMarkup
