import Vingilot.Terminal.Rows

/-!
# Where the clusters of a row are drawn

The reader of a span computes the column of each cluster. A spacer is skipped and does not end a run,
so the next cell of the run may stand further on than its reader thinks.
-/

namespace Vingilot.Terminal

/-! ## The reader -/

structure Cluster where
  column : Nat
  text : List Char
  width : Nat
  style : Style
deriving DecidableEq

/-- The rule that is documented at `Span`. -/
def Span.clusters (s : Span) : List Cluster :=
  if s.clusterCount = 1 then [⟨s.column, s.text, s.width, s.style⟩]
  else s.text.mapIdx fun i c => ⟨s.column + i * s.width, [c], s.width, s.style⟩

def decode (spans : List Span) : List Cluster := spans.flatMap Span.clusters

/-! ## The cells -/

def shownFrom : Nat → List Cell → List (Nat × Cell)
  | _, [] => []
  | column, cell :: cells =>
    if cell.flags.contains .wideCharSpacer then shownFrom (column + 1) cells
    else (column, cell) :: shownFrom (column + 1) cells

def shown (cells : List Cell) : List (Nat × Cell) := shownFrom 0 cells

def clusterOf (x : Nat × Cell) : Cluster := ⟨x.1, x.2.text, x.2.width, styleOf x.2⟩

structure PlacesEveryCell (cells : List Cell) : Prop where
  placed : decode (spans cells) = (shown cells).map clusterOf
  consistent : ∀ s ∈ spans cells, s.countsAreConsistent

def Cell.joins (a b : Cell) : Bool :=
  a.zerowidth.isNone && b.zerowidth.isNone && styleOf a = styleOf b && a.width = b.width

/-- Where a cell joins the one before it, it stands right behind it. A run of `n` cells ends with the
cell `prev`, and no run is longer than `u16Max`. -/
def Aligned : Option (Nat × Cell) → Nat → List (Nat × Cell) → Prop
  | _, _, [] => True
  | none, _, x :: xs => Aligned (some x) 1 xs
  | some prev, n, x :: xs =>
    if prev.2.joins x.2 ∧ n < u16Max then
      x.1 = prev.1 + prev.2.width ∧ Aligned (some x) (n + 1) xs
    else Aligned (some x) 1 xs

/-! ## One cell -/

variable {s : Span}

theorem clusters_one (h : s.clusterCount = 1) :
    s.clusters = [⟨s.column, s.text, s.width, s.style⟩] := if_pos h

theorem clusters_counted (h : s.clusterCount = s.text.length) :
    s.clusters = s.text.mapIdx fun i c => ⟨s.column + i * s.width, [c], s.width, s.style⟩ := by
  unfold Span.clusters
  split_ifs with hone
  · obtain ⟨c, htext⟩ := List.length_eq_one_iff.mp (h.symm.trans hone)
    simp [htext]
  · rfl

theorem clusters_grown (h : s.clusterCount = s.text.length) (c : Char) :
    Span.clusters { s with text := s.text ++ [c], clusterCount := s.clusterCount + 1 } =
      s.clusters ++ [⟨s.column + s.clusterCount * s.width, [c], s.width, s.style⟩] := by
  rw [clusters_counted (by simp [h]), clusters_counted h, List.mapIdx_append]
  simp [h]

theorem decode_reverse_cons (s : Span) (acc : List Span) :
    decode (s :: acc).reverse = decode acc.reverse ++ s.clusters := by
  simp [decode]

variable {opened : Bool} {acc : List Span}

theorem pushCell_cases (h : Counted opened acc) (x : Nat × Cell) :
    (∃ last rest, acc = last :: rest ∧ opened = true ∧ x.2.zerowidth.isNone = true ∧
      last.style = styleOf x.2 ∧ last.width = x.2.width ∧ last.clusterCount < u16Max ∧
      pushCell opened x.1 x.2 acc =
        { last with text := last.text ++ x.2.text, clusterCount := last.clusterCount + 1 } :: rest ∧
      decode (pushCell opened x.1 x.2 acc).reverse = decode acc.reverse ++
        [{ clusterOf x with column := last.column + last.clusterCount * last.width }]) ∨
    ((∀ last ∈ acc.head?, opened = true → x.2.zerowidth.isNone = true →
        last.style = styleOf x.2 → last.width = x.2.width → u16Max ≤ last.clusterCount) ∧
      pushCell opened x.1 x.2 acc = ⟨x.1, x.2.text, x.2.width, 1, styleOf x.2⟩ :: acc ∧
      decode (pushCell opened x.1 x.2 acc).reverse = decode acc.reverse ++ [clusterOf x]) := by
  have hnew : decode (⟨x.1, x.2.text, x.2.width, 1, styleOf x.2⟩ :: acc).reverse =
      decode acc.reverse ++ [clusterOf x] := by
    rw [decode_reverse_cons, clusters_one rfl]
    rfl
  cases acc with
  | nil => exact .inr ⟨fun _ hlast => (by cases hlast), rfl, hnew⟩
  | cons last rest =>
    rw [pushCell]
    split
    case isFalse hapart =>
      refine .inr ⟨?_, rfl, hnew⟩
      rintro _ ⟨⟩ hopened hplain hstyle hwidth
      by_contra hroom
      exact hapart (by simp [hopened, hplain, hstyle, hwidth, Nat.not_le.mp hroom])
    case isTrue hjoin =>
      simp only [Bool.and_eq_true, decide_eq_true_eq] at hjoin
      obtain ⟨⟨⟨⟨hopened, hplain⟩, hstyle⟩, hwidth⟩, hroom⟩ := hjoin
      refine .inl ⟨last, rest, rfl, hopened, hplain, hstyle, hwidth, hroom, rfl, ?_⟩
      have htext : x.2.text = [x.2.c] := by
        rw [Cell.text, Option.isNone_iff_eq_none.mp hplain]
      rw [decode_reverse_cons, decode_reverse_cons, htext,
        clusters_grown (h.last hopened last rfl), List.append_assoc, clusterOf, htext, hstyle, hwidth]

/-! ## The loop -/

/-- The loop of `spans`, the spacers taken out. -/
def spansShown : Bool → List Span → List (Nat × Cell) → List Span
  | _, acc, [] => acc
  | opened, acc, x :: xs => spansShown x.2.zerowidth.isNone (pushCell opened x.1 x.2 acc) xs

theorem spansLoop_eq (opened : Bool) (column : Nat) (acc : List Span) (cells : List Cell) :
    spansLoop opened column acc cells = spansShown opened acc (shownFrom column cells) := by
  induction cells generalizing opened column acc with
  | nil => rfl
  | cons cell cells ih =>
    rw [spansLoop, shownFrom]
    split_ifs
    · exact ih ..
    · exact ih ..

theorem spansShown_extends (h : Counted opened acc) (xs : List (Nat × Cell)) :
    ∃ more, decode (spansShown opened acc xs).reverse = decode acc.reverse ++ more := by
  induction xs generalizing opened acc with
  | nil => exact ⟨[], (List.append_nil _).symm⟩
  | cons x xs ih =>
    obtain ⟨more, hmore⟩ := ih (h.pushCell x.1 x.2)
    rcases pushCell_cases h x with ⟨_, _, -, -, -, -, -, -, -, hdecode⟩ | ⟨-, -, hdecode⟩
    · exact ⟨_ :: more, by rw [spansShown, hmore, hdecode, List.append_assoc]; rfl⟩
    · exact ⟨_ :: more, by rw [spansShown, hmore, hdecode, List.append_assoc]; rfl⟩

/-- The run in progress has `n` cells, and its last one is placed where it stands. -/
structure InRun (opened : Bool) (acc : List Span) (x : Nat × Cell) (n : Nat) : Prop where
  counted : Counted opened acc
  opened_eq : opened = x.2.zerowidth.isNone
  last : ∃ last rest, acc = last :: rest ∧ last.style = styleOf x.2 ∧ last.width = x.2.width ∧
    last.clusterCount = n ∧ last.column + n * last.width = x.1 + last.width

theorem InRun.begin (h : Counted opened acc) (x : Nat × Cell)
    (hnew : pushCell opened x.1 x.2 acc = ⟨x.1, x.2.text, x.2.width, 1, styleOf x.2⟩ :: acc) :
    InRun x.2.zerowidth.isNone (pushCell opened x.1 x.2 acc) x 1 :=
  ⟨h.pushCell x.1 x.2, rfl, _, _, hnew, rfl, rfl, rfl, by rw [Nat.one_mul]⟩

theorem InRun.placed_iff {prev : Nat × Cell} {n : Nat} (h : InRun opened acc prev n)
    (xs : List (Nat × Cell)) :
    decode (spansShown opened acc xs).reverse = decode acc.reverse ++ xs.map clusterOf ↔
      Aligned (some prev) n xs := by
  induction xs generalizing opened acc prev n with
  | nil => simp [spansShown, Aligned]
  | cons x xs ih =>
    obtain ⟨last, rest, rfl, hstyle, hwidth, hcount, hcolumn⟩ := h.last
    rw [spansShown, Aligned]
    rcases pushCell_cases h.counted x with
      ⟨_, _, ⟨⟩, hopened, hplain, hstyle', hwidth', hroom, hpush, hdecode⟩ | ⟨hapart, hpush, hdecode⟩
    · have hjoins : prev.2.joins x.2 ∧ n < u16Max := by
        rw [h.opened_eq] at hopened
        refine ⟨?_, hcount ▸ hroom⟩
        simp [Cell.joins, hopened, hplain, ← hstyle, ← hwidth, hstyle', hwidth']
      rw [if_pos hjoins]
      have hplace : last.column + last.clusterCount * last.width = prev.1 + prev.2.width := by
        rw [hcount, hcolumn, hwidth]
      rw [hplace] at hdecode
      by_cases halign : x.1 = prev.1 + prev.2.width
      · have hnext : InRun x.2.zerowidth.isNone (pushCell opened x.1 x.2 (last :: rest)) x (n + 1) := by
          refine ⟨h.counted.pushCell x.1 x.2, rfl, _, _, hpush, hstyle', hwidth', ?_, ?_⟩
          · rw [hcount]
          · show last.column + (n + 1) * last.width = x.1 + last.width
            rw [Nat.add_mul, Nat.one_mul, ← Nat.add_assoc, hcolumn, halign, hwidth]
        rw [and_iff_right halign, ← ih hnext, hdecode, ← halign, List.append_assoc]
        rfl
      · refine iff_of_false ?_ fun h => halign h.1
        obtain ⟨more, hmore⟩ := spansShown_extends (h.counted.pushCell x.1 x.2) xs
        rw [hmore, hdecode, List.append_assoc]
        intro heq
        have hfirst := List.cons.inj (List.append_cancel_left heq)
        exact halign (congrArg Cluster.column hfirst.1).symm
    · have hapart' : ¬ (prev.2.joins x.2 ∧ n < u16Max) := by
        rintro ⟨hjoins, hroom⟩
        simp only [Cell.joins, Bool.and_eq_true, decide_eq_true_eq] at hjoins
        obtain ⟨⟨⟨hplain, hplain'⟩, hstyles⟩, hwidths⟩ := hjoins
        have hfull := hapart last rfl (h.opened_eq.trans hplain) hplain' (hstyle.trans hstyles)
          (hwidth.trans hwidths)
        omega
      rw [if_neg hapart', ← ih (.begin h.counted x hpush), hdecode, List.append_assoc]
      rfl

/-- The spans place every cell just when each cell that joins a run stands right behind the one
before it. -/
theorem spans_place_iff_aligned (cells : List Cell) :
    PlacesEveryCell cells ↔ Aligned none 0 (shown cells) := by
  have hnone : Counted false [] :=
    ⟨fun _ hs => absurd hs List.not_mem_nil, (absurd · Bool.false_ne_true)⟩
  have hconsistent : ∀ s ∈ spans cells, s.countsAreConsistent :=
    fun s hs => countsAreConsistent_of_mem_spans hs
  have hplaced : PlacesEveryCell cells ↔ decode (spans cells) = (shown cells).map clusterOf :=
    ⟨PlacesEveryCell.placed, fun h => ⟨h, hconsistent⟩⟩
  rw [hplaced, spans, spansLoop_eq]
  change decode (spansShown false [] (shown cells)).reverse = _ ↔ _
  cases shown cells with
  | nil => exact iff_of_true rfl trivial
  | cons x xs =>
    rw [Aligned, ← (InRun.begin hnone x rfl).placed_iff xs]
    rfl

/-- Rows as they are written: each wide character has its spacer, and no other cell has one. -/
inductive Paired : List Cell → Prop
  | nil : Paired []
  | narrow {cell : Cell} {cells : List Cell} (hwide : cell.flags.contains .wideChar = false)
      (hspacer : cell.flags.contains .wideCharSpacer = false) (h : Paired cells) :
      Paired (cell :: cells)
  | wide {cell spacer : Cell} {cells : List Cell} (hwide : cell.flags.contains .wideChar = true)
      (hcell : cell.flags.contains .wideCharSpacer = false)
      (hspacer : spacer.flags.contains .wideCharSpacer = true) (h : Paired cells) :
      Paired (cell :: spacer :: cells)

theorem Aligned.cons {prev : Option (Nat × Cell)} {x : Nat × Cell} {xs : List (Nat × Cell)}
    (hprev : ∀ p ∈ prev, x.1 = p.1 + p.2.width) (n : Nat)
    (h : ∀ m, Aligned (some x) m xs) : Aligned prev n (x :: xs) := by
  cases prev with
  | none => exact h 1
  | some p =>
    rw [Aligned]
    split_ifs
    · exact ⟨hprev p rfl, h _⟩
    · exact h 1

theorem Paired.aligned {cells : List Cell} (h : Paired cells) (column : Nat)
    (prev : Option (Nat × Cell)) (hprev : ∀ p ∈ prev, column = p.1 + p.2.width) (n : Nat) :
    Aligned prev n (shownFrom column cells) := by
  induction h generalizing column prev n with
  | nil => cases prev <;> trivial
  | @narrow cell cells hwide hspacer _ ih =>
    rw [shownFrom, if_neg (by simp [hspacer])]
    refine Aligned.cons hprev n fun m => ih _ _ ?_ m
    rintro _ ⟨⟩
    simp [Cell.width, hwide]
  | @wide cell spacer cells hwide hcell hspacer _ ih =>
    rw [shownFrom, if_neg (by simp [hcell]), shownFrom, if_pos hspacer]
    refine Aligned.cons hprev n fun m => ih _ _ ?_ m
    rintro _ ⟨⟩
    simp [Cell.width, hwide]

theorem Paired.placesEveryCell {cells : List Cell} (h : Paired cells) : PlacesEveryCell cells := by
  refine (spans_place_iff_aligned cells).mpr (h.aligned 0 none ?_ 0)
  intro p hp
  cases hp

theorem wide_row_places_every_cell :
    PlacesEveryCell [plainCell 'a' .wideChar, plainCell ' ' .wideCharSpacer, plainCell 'b' ⟨0⟩] :=
  Paired.placesEveryCell (.wide rfl rfl rfl (.narrow rfl rfl .nil))

def orphanedSpacer : List Cell := [plainCell 'a' ⟨0⟩, plainCell ' ' .wideCharSpacer, plainCell 'b' ⟨0⟩]

/-- The last cell is drawn over the spacer. -/
theorem orphaned_spacer_misplaces : ¬ ∀ cells : List Cell, PlacesEveryCell cells := by
  intro h
  have hdiffers : decide (decode (spans orphanedSpacer) = (shown orphanedSpacer).map clusterOf) =
      false := by decide +kernel
  exact of_decide_eq_false hdiffers (h orphanedSpacer).placed

end Vingilot.Terminal
