import Vingilot.Lib.Chars

/-!
# Counting the lines of a diff (`coordinator/src/run.rs`)

`count_diff_lines` takes a line for a file header by its first three characters. An added line whose
text begins with `++` looks like one, and so does a removed line that begins with `--`.
-/

namespace Vingilot.Coordinator.Diff

/-- `str::starts_with`. -/
def startsWith (line : List Char) (start : String) : Bool := start.toList.isPrefixOf line

/-- One line in the loop of `count_diff_lines`, on the lines added and removed so far. -/
def countLine (counts : Int × Int) (line : List Char) : Int × Int :=
  let (added, removed) := counts
  if startsWith line "+++" || startsWith line "---" then (added, removed)
  else if startsWith line "+" then (added + 1, removed)
  else if startsWith line "-" then (added, removed + 1)
  else (added, removed)

def countDiffLines (diff : List Char) : Int × Int := (Text.lines diff).foldl countLine (0, 0)

/-! ## Unified diffs -/

abbrev LineText := { text : List Char // '\n' ∉ text }

inductive BodyLine where
  | context (text : LineText)
  | added (text : LineText)
  | removed (text : LineText)
  /-- `\ No newline at end of file`. -/
  | note (text : LineText)
  /-- A blank line of the context, without its space. -/
  | blank

namespace BodyLine

def text : BodyLine → List Char
  | context t => ' ' :: t.1
  | added t => '+' :: t.1
  | removed t => '-' :: t.1
  | note t => '\\' :: t.1
  | blank => []

def isAdded : BodyLine → Bool
  | added _ => true
  | _ => false

def isRemoved : BodyLine → Bool
  | removed _ => true
  | _ => false

def inOld : BodyLine → Bool
  | context _ | removed _ | blank => true
  | _ => false

def inNew : BodyLine → Bool
  | context _ | added _ | blank => true
  | _ => false

end BodyLine

structure Hunk where
  oldStart : Nat
  newStart : Nat
  /-- A count of 1 is left out. -/
  short : Bool
  /-- What stands behind the header's second `@@`. -/
  context : LineText
  body : List BodyLine

def rangeText (short : Bool) (start count : Nat) : List Char :=
  if short && count == 1 then Nat.toDigits 10 start
  else Nat.toDigits 10 start ++ ',' :: Nat.toDigits 10 count

namespace Hunk

def header (h : Hunk) : List Char :=
  "@@ -".toList ++ rangeText h.short h.oldStart (h.body.countP (·.inOld)) ++ " +".toList ++
    rangeText h.short h.newStart (h.body.countP (·.inNew)) ++ " @@".toList ++ h.context.1

def lines (h : Hunk) : List (List Char) := h.header :: h.body.map (·.text)

end Hunk

/-- A line of the header before the paths, such as `diff --git` or `index`. -/
abbrev ExtendedLine :=
  { text : List Char // '\n' ∉ text ∧ text.head? ≠ some '+' ∧ text.head? ≠ some '-' }

structure FileDiff where
  extended : List ExtendedLine
  paths : Option (LineText × LineText)
  hunks : List Hunk
  hunks_eq_nil : paths = none → hunks = []

namespace FileDiff

def pathLines (f : FileDiff) : List (List Char) :=
  match f.paths with
  | some (old, new) => ["--- ".toList ++ old.1, "+++ ".toList ++ new.1]
  | none => []

def lines (f : FileDiff) : List (List Char) :=
  f.extended.map (·.1) ++ f.pathLines ++ f.hunks.flatMap (·.lines)

def body (f : FileDiff) : List BodyLine := f.hunks.flatMap (·.body)

end FileDiff

structure UnifiedDiff where
  files : List FileDiff

namespace UnifiedDiff

def lines (d : UnifiedDiff) : List (List Char) := d.files.flatMap (·.lines)

def text (d : UnifiedDiff) : List Char := d.lines.flatMap (· ++ ['\n'])

def body (d : UnifiedDiff) : List BodyLine := d.files.flatMap (·.body)

end UnifiedDiff

/-! ## The count, line by line -/

def isHeaderLike (line : List Char) : Bool := startsWith line "+++" || startsWith line "---"

def countsAdded (line : List Char) : Bool := !isHeaderLike line && startsWith line "+"

def countsRemoved (line : List Char) : Bool := !isHeaderLike line && startsWith line "-"

variable {line : List Char}

theorem not_minus_of_plus (h : startsWith line "+" = true) : startsWith line "-" = false := by
  cases line with
  | nil => rfl
  | cons c line =>
    obtain rfl : '+' = c := by simpa [startsWith] using h
    rfl

theorem countLine_eq (counts : Int × Int) (line : List Char) :
    countLine counts line = (counts.1 + if countsAdded line then 1 else 0,
      counts.2 + if countsRemoved line then 1 else 0) := by
  have hnot : startsWith line "+" = true → startsWith line "-" = false := not_minus_of_plus
  unfold countLine countsAdded countsRemoved isHeaderLike
  dsimp only
  split_ifs <;> simp_all

theorem foldl_countLine (ls : List (List Char)) (counts : Int × Int) :
    ls.foldl countLine counts =
      (counts.1 + ls.countP countsAdded, counts.2 + ls.countP countsRemoved) := by
  induction ls generalizing counts with
  | nil => simp
  | cons line ls ih =>
    rw [List.foldl_cons, ih, countLine_eq, List.countP_cons, List.countP_cons]
    refine Prod.ext ?_ ?_
    · push_cast
      split_ifs <;> omega
    · push_cast
      split_ifs <;> omega

/-- What `str::lines` gives for a line. -/
def stripReturn (line : List Char) : List Char := (Text.stripSuffix line '\r').getD line

theorem startsWith_stripReturn (line : List Char) {start : String} (h : '\r' ∉ start.toList) :
    startsWith (stripReturn line) start = startsWith line start := by
  unfold stripReturn Text.stripSuffix
  split_ifs with hlast
  · obtain ⟨rest, rfl⟩ := List.getLast?_eq_some_iff.mp hlast
    rw [Option.getD_some, List.dropLast_concat, Bool.eq_iff_iff, startsWith, startsWith,
      List.isPrefixOf_iff_prefix, List.isPrefixOf_iff_prefix, List.prefix_concat_iff]
    refine ⟨.inr, fun hprefix => hprefix.resolve_left fun heq => h ?_⟩
    rw [heq]
    exact List.mem_append_right _ (List.mem_singleton_self _)
  · rfl

theorem counts_stripReturn (line : List Char) :
    countsAdded (stripReturn line) = countsAdded line ∧
      countsRemoved (stripReturn line) = countsRemoved line := by
  unfold countsAdded countsRemoved isHeaderLike
  rw [startsWith_stripReturn line (by decide), startsWith_stripReturn line (by decide),
    startsWith_stripReturn line (by decide), startsWith_stripReturn line (by decide)]
  exact ⟨rfl, rfl⟩

theorem lines_unlines {ls : List (List Char)} (h : ∀ line ∈ ls, '\n' ∉ line) :
    Text.lines (ls.flatMap (· ++ ['\n'])) = ls.map stripReturn := by
  induction ls with
  | nil => rfl
  | cons line ls ih =>
    obtain ⟨hline, hls⟩ := List.forall_mem_cons.mp h
    rw [List.flatMap_cons, List.append_assoc, List.singleton_append, Text.lines,
      Text.linesFrom_append [] fun c hc heq => hline (heq ▸ hc), List.nil_append, List.map_cons]
    exact congrArg _ (ih hls)

/-! ## The lines of a diff -/

theorem notMem_rangeText (short : Bool) (start count : Nat) :
    '\n' ∉ rangeText short start count := by
  have hdigits (n : Nat) : '\n' ∉ Nat.toDigits 10 n := by
    intro hmem
    have hdigit := Nat.isDigit_of_mem_toDigits (by omega) (by omega) hmem
    exact absurd hdigit (by decide)
  unfold rangeText
  split_ifs
  · exact hdigits start
  · rw [List.mem_append, List.mem_cons, not_or, not_or]
    exact ⟨hdigits start, by decide, hdigits count⟩

theorem Hunk.notMem_header (h : Hunk) : '\n' ∉ h.header := by
  unfold Hunk.header
  simp only [List.mem_append, not_or]
  exact ⟨⟨⟨⟨⟨by decide, notMem_rangeText _ _ _⟩, by decide⟩, notMem_rangeText _ _ _⟩, by decide⟩,
    h.context.2⟩

theorem BodyLine.notMem_text (b : BodyLine) : '\n' ∉ b.text := by
  cases b with
  | blank => exact List.not_mem_nil
  | context t | added t | removed t | note t =>
    exact fun hmem => (List.mem_cons.mp hmem).elim (by decide) t.2

theorem UnifiedDiff.notMem_lines {d : UnifiedDiff} (h : line ∈ d.lines) : '\n' ∉ line := by
  obtain ⟨f, -, hline⟩ := List.mem_flatMap.mp h
  rcases List.mem_append.mp hline with hline | hline
  · rcases List.mem_append.mp hline with hline | hline
    · obtain ⟨x, -, rfl⟩ := List.mem_map.mp hline
      exact x.2.1
    · unfold FileDiff.pathLines at hline
      split at hline
      · next old new hpaths =>
        rcases List.mem_cons.mp hline with rfl | hline
        · exact fun hmem => (List.mem_append.mp hmem).elim (by decide) old.2
        · cases List.mem_singleton.mp hline
          exact fun hmem => (List.mem_append.mp hmem).elim (by decide) new.2
      · cases hline
  · obtain ⟨hunk, -, hline⟩ := List.mem_flatMap.mp hline
    rcases List.mem_cons.mp hline with rfl | hline
    · exact hunk.notMem_header
    · obtain ⟨b, -, rfl⟩ := List.mem_map.mp hline
      exact b.notMem_text

/-! ## What is counted -/

def Uncounted (line : List Char) : Prop := countsAdded line = false ∧ countsRemoved line = false

theorem uncounted_of_head (hplus : line.head? ≠ some '+') (hminus : line.head? ≠ some '-') :
    Uncounted line := by
  cases line with
  | nil => exact ⟨rfl, rfl⟩
  | cons c line =>
    have hp : '+' ≠ c := fun heq => hplus (by rw [heq]; rfl)
    have hm : '-' ≠ c := fun heq => hminus (by rw [heq]; rfl)
    constructor
    · simp [countsAdded, startsWith, List.isPrefixOf, hp]
    · simp [countsRemoved, startsWith, List.isPrefixOf, hm]

theorem uncounted_of_headerLike (h : isHeaderLike line = true) : Uncounted line := by
  simp [Uncounted, countsAdded, countsRemoved, h]

theorem uncounted_pathLines (f : FileDiff) : ∀ line ∈ f.pathLines, Uncounted line := by
  unfold FileDiff.pathLines
  split
  · intro line hline
    rcases List.mem_cons.mp hline with rfl | hline
    · exact uncounted_of_headerLike (by simp [isHeaderLike, startsWith])
    · cases List.mem_singleton.mp hline
      exact uncounted_of_headerLike (by simp [isHeaderLike, startsWith])
  · exact fun _ h => (by cases h)

theorem uncounted_header (h : Hunk) : Uncounted h.header := by
  have hhead : h.header.head? = some '@' := rfl
  refine uncounted_of_head ?_ ?_ <;> rw [hhead] <;> decide

theorem countP_lines {p : List Char → Bool} (hp : ∀ line, Uncounted line → p line = false)
    (d : UnifiedDiff) : d.lines.countP p = d.body.countP fun b => p b.text := by
  have hhunk (h : Hunk) : h.lines.countP p = h.body.countP fun b => p b.text := by
    rw [Hunk.lines, List.countP_cons, hp _ (uncounted_header h), List.countP_map]
    rfl
  have hfile (f : FileDiff) : f.lines.countP p = f.body.countP fun b => p b.text := by
    have hextended : (f.extended.map (·.1)).countP p = 0 := by
      refine List.countP_eq_zero.mpr fun line hline => ?_
      obtain ⟨x, -, rfl⟩ := List.mem_map.mp hline
      simp [hp _ (uncounted_of_head x.2.2.1 x.2.2.2)]
    have hpaths : f.pathLines.countP p = 0 := by
      refine List.countP_eq_zero.mpr fun line hline => ?_
      simp [hp _ (uncounted_pathLines f line hline)]
    rw [FileDiff.lines, List.countP_append, List.countP_append, hextended, hpaths, FileDiff.body,
      List.countP_flatMap, List.countP_flatMap, Nat.zero_add]
    exact congrArg List.sum (List.map_congr_left fun h _ => hhunk h)
  rw [UnifiedDiff.lines, UnifiedDiff.body, List.countP_flatMap, List.countP_flatMap]
  exact congrArg List.sum (List.map_congr_left fun f _ => hfile f)

theorem countDiffLines_text (d : UnifiedDiff) :
    countDiffLines d.text = ((d.body.countP fun b => countsAdded b.text : Int),
      (d.body.countP fun b => countsRemoved b.text : Int)) := by
  have hstrip {p : List Char → Bool} (hp : ∀ line, p (stripReturn line) = p line) :
      (d.lines.map stripReturn).countP p = d.lines.countP p := by
    rw [List.countP_map]
    exact List.countP_congr fun line _ => by rw [Function.comp_apply, hp]
  rw [countDiffLines, UnifiedDiff.text, lines_unlines fun line => UnifiedDiff.notMem_lines,
    foldl_countLine, hstrip fun line => (counts_stripReturn line).1,
    hstrip fun line => (counts_stripReturn line).2, countP_lines (fun _ h => h.1),
    countP_lines (fun _ h => h.2)]
  simp

def BodyLine.Plain : BodyLine → Prop
  | added t => startsWith t.1 "++" = false
  | removed t => startsWith t.1 "--" = false
  | _ => True

instance : (b : BodyLine) → Decidable b.Plain
  | .added _ | .removed _ => inferInstanceAs (Decidable (_ = false))
  | .context _ | .note _ | .blank => isTrue trivial

theorem countsAdded_text (b : BodyLine) : countsAdded b.text = true ↔ b.isAdded = true ∧ b.Plain := by
  cases b with
  | added t => simp [countsAdded, isHeaderLike, startsWith, List.isPrefixOf, BodyLine.text,
      BodyLine.isAdded, BodyLine.Plain]
  | removed t => simp [countsAdded, startsWith, BodyLine.text, BodyLine.isAdded]
  | context t => simp [countsAdded, startsWith, BodyLine.text, BodyLine.isAdded]
  | note t => simp [countsAdded, startsWith, BodyLine.text, BodyLine.isAdded]
  | blank => simp [countsAdded, startsWith, BodyLine.text, BodyLine.isAdded]

theorem countsRemoved_text (b : BodyLine) :
    countsRemoved b.text = true ↔ b.isRemoved = true ∧ b.Plain := by
  cases b with
  | removed t => simp [countsRemoved, isHeaderLike, startsWith, List.isPrefixOf, BodyLine.text,
      BodyLine.isRemoved, BodyLine.Plain]
  | added t => simp [countsRemoved, startsWith, BodyLine.text, BodyLine.isRemoved]
  | context t => simp [countsRemoved, startsWith, BodyLine.text, BodyLine.isRemoved]
  | note t => simp [countsRemoved, startsWith, BodyLine.text, BodyLine.isRemoved]
  | blank => simp [countsRemoved, startsWith, BodyLine.text, BodyLine.isRemoved]

theorem countP_eq_countP_iff {α : Type*} {l : List α} {p q : α → Bool}
    (h : ∀ x ∈ l, q x = true → p x = true) :
    l.countP q = l.countP p ↔ ∀ x ∈ l, p x = true → q x = true := by
  induction l with
  | nil => simp
  | cons x l ih =>
    obtain ⟨hx, hl⟩ := List.forall_mem_cons.mp h
    have hle : l.countP q ≤ l.countP p := List.countP_mono_left hl
    rw [List.forall_mem_cons, ← ih hl, List.countP_cons, List.countP_cons]
    cases hq : q x with
    | true => simp [hx hq]
    | false =>
      cases hp : p x with
      | true => simp; omega
      | false => simp

def UnifiedDiff.added (d : UnifiedDiff) : Int := d.body.countP (·.isAdded)

def UnifiedDiff.removed (d : UnifiedDiff) : Int := d.body.countP (·.isRemoved)

/-- The count is right just when no added line begins with `+++` and no removed line with `---`. -/
theorem count_diff_lines_iff (d : UnifiedDiff) :
    countDiffLines d.text = (d.added, d.removed) ↔ ∀ b ∈ d.body, b.Plain := by
  rw [countDiffLines_text, UnifiedDiff.added, UnifiedDiff.removed, Prod.mk.injEq, Int.natCast_inj,
    Int.natCast_inj,
    countP_eq_countP_iff fun b _ h => ((countsAdded_text b).mp h).1,
    countP_eq_countP_iff fun b _ h => ((countsRemoved_text b).mp h).1]
  constructor
  · rintro ⟨hadded, hremoved⟩ b hb
    cases b with
    | added t => exact ((countsAdded_text _).mp (hadded _ hb rfl)).2
    | removed t => exact ((countsRemoved_text _).mp (hremoved _ hb rfl)).2
    | context t => trivial
    | note t => trivial
    | blank => trivial
  · intro hplain
    exact ⟨fun b hb h => (countsAdded_text b).mpr ⟨h, hplain b hb⟩,
      fun b hb h => (countsRemoved_text b).mpr ⟨h, hplain b hb⟩⟩

def droppedComment : UnifiedDiff where
  files := [{
    extended := []
    paths := some (⟨"a/x.sql".toList, by decide⟩, ⟨"b/x.sql".toList, by decide⟩)
    hunks := [⟨1, 1, true, ⟨[], by decide⟩, [.removed ⟨"-- old".toList, by decide⟩,
      .context ⟨"select 1;".toList, by decide⟩]⟩]
    hunks_eq_nil := nofun }]

example : droppedComment.text =
    "--- a/x.sql\n+++ b/x.sql\n@@ -1,2 +1 @@\n--- old\n select 1;\n".toList := by
  decide +kernel

theorem dropped_comment_uncounted :
    ¬ ∀ d : UnifiedDiff, countDiffLines d.text = (d.added, d.removed) := by
  intro h
  have hcount := congrArg Prod.snd (h droppedComment)
  have hnone : (countDiffLines droppedComment.text).2 = 0 := by decide +kernel
  have hone : droppedComment.removed = 1 := by decide +kernel
  rw [hnone, hone] at hcount
  cases hcount

end Vingilot.Coordinator.Diff
