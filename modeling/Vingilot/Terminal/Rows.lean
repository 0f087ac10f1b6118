import Vingilot.Lib.Codes

/-!
# Rows of a frame

A row of the grid is shown as spans, and a hash of its cells tells whether it has changed. The hash
is fed all that the spans are made of.
-/

namespace Vingilot.Terminal

open Codes

/-! ## Cells -/

structure Flags where
  bits : UInt16
deriving DecidableEq

namespace Flags

def wrapline : Flags := ⟨0x10⟩
def wideChar : Flags := ⟨0x20⟩
def wideCharSpacer : Flags := ⟨0x40⟩
def leadingWideCharSpacer : Flags := ⟨0x400⟩

def union (f g : Flags) : Flags := ⟨f.bits ||| g.bits⟩
def contains (f g : Flags) : Bool := f.bits &&& g.bits == g.bits
def difference (f g : Flags) : Flags := ⟨f.bits &&& ~~~g.bits⟩

end Flags

inductive NamedColor where
  | black | red | green | yellow | blue | magenta | cyan | white
  | brightBlack | brightRed | brightGreen | brightYellow
  | brightBlue | brightMagenta | brightCyan | brightWhite
  | foreground | background | cursor
  | dimBlack | dimRed | dimGreen | dimYellow | dimBlue | dimMagenta | dimCyan | dimWhite
  | brightForeground | dimForeground
deriving DecidableEq

/-- The discriminants: 0 to 15 for the palette, and from 256 on. -/
def NamedColor.toUInt32 : NamedColor → UInt32
  | black => 0
  | red => 1
  | green => 2
  | yellow => 3
  | blue => 4
  | magenta => 5
  | cyan => 6
  | white => 7
  | brightBlack => 8
  | brightRed => 9
  | brightGreen => 10
  | brightYellow => 11
  | brightBlue => 12
  | brightMagenta => 13
  | brightCyan => 14
  | brightWhite => 15
  | foreground => 256
  | background => 257
  | cursor => 258
  | dimBlack => 259
  | dimRed => 260
  | dimGreen => 261
  | dimYellow => 262
  | dimBlue => 263
  | dimMagenta => 264
  | dimCyan => 265
  | dimWhite => 266
  | brightForeground => 267
  | dimForeground => 268

inductive Color where
  | named (color : NamedColor)
  | indexed (index : UInt8)
  | spec (r g b : UInt8)
deriving DecidableEq

def packColor : Color → UInt32
  | .named color => (0x01000000 : UInt32) ||| color.toUInt32
  | .indexed index => (0x02000000 : UInt32) ||| index.toUInt32
  | .spec r g b =>
    (0x03000000 : UInt32) ||| (r.toUInt32 <<< 16) ||| (g.toUInt32 <<< 8) ||| b.toUInt32

/-- The characters of a vector: there are no more than a `usize` counts. -/
structure Marks where
  chars : List Char
  fits : chars.length < UInt64.size
deriving DecidableEq

structure Cell where
  c : Char
  fg : Color
  bg : Color
  flags : Flags
  zerowidth : Option Marks
deriving DecidableEq

/-! ## Spans -/

structure Style where
  fg : UInt32
  bg : UInt32
  flags : Flags
deriving DecidableEq

structure Span where
  column : Nat
  text : List Char
  width : Nat
  clusterCount : Nat
  style : Style
deriving DecidableEq

def Span.countsAreConsistent (s : Span) : Prop :=
  s.clusterCount = 1 ∨ s.clusterCount = s.text.length

def geometryFlags : Flags :=
  ((Flags.wrapline.union .wideChar).union .wideCharSpacer).union .leadingWideCharSpacer

def styleOf (cell : Cell) : Style :=
  ⟨packColor cell.fg, packColor cell.bg, cell.flags.difference geometryFlags⟩

namespace Cell

def width (cell : Cell) : Nat := if cell.flags.contains .wideChar then 2 else 1

def text (cell : Cell) : List Char :=
  cell.c :: match cell.zerowidth with
    | none => []
    | some marks => marks.chars

end Cell

def u16Max : Nat := 65535

/-- The spans, the last one first, with the next cell: `opened` says that the run in progress may
still be extended. -/
def pushCell (opened : Bool) (column : Nat) (cell : Cell) : List Span → List Span
  | last :: rest =>
    if opened && cell.zerowidth.isNone && last.style = styleOf cell && last.width = cell.width &&
        last.clusterCount < u16Max then
      { last with
        text := last.text ++ cell.text
        clusterCount := last.clusterCount + 1 } :: rest
    else
      ⟨column, cell.text, cell.width, 1, styleOf cell⟩ :: last :: rest
  | [] => [⟨column, cell.text, cell.width, 1, styleOf cell⟩]

/-- The loop of `spans`. -/
def spansLoop : Bool → Nat → List Span → List Cell → List Span
  | _, _, spans, [] => spans
  | opened, column, spans, cell :: cells =>
    if cell.flags.contains .wideCharSpacer then
      spansLoop opened (column + 1) spans cells
    else
      spansLoop cell.zerowidth.isNone (column + 1) (pushCell opened column cell spans) cells

/-- The assertion at its end always holds, by `countsAreConsistent_of_mem_spans`. -/
def spans (cells : List Cell) : List Span := (spansLoop false 0 [] cells).reverse

def wrapped (cells : List Cell) : Bool :=
  match cells.getLast? with
  | none => false
  | some cell => cell.flags.contains .wrapline

structure RowFrame where
  line : Nat
  wrapped : Bool
  spans : List Span

def RowFrame.of (line : Nat) (cells : List Cell) : RowFrame :=
  ⟨line, Terminal.wrapped cells, Terminal.spans cells⟩

/-! ## Counts -/

structure Counted (opened : Bool) (spans : List Span) : Prop where
  consistent : ∀ s ∈ spans, s.countsAreConsistent
  last : opened = true → ∀ s ∈ spans.head?, s.clusterCount = s.text.length

theorem Cell.length_text {cell : Cell} (h : cell.zerowidth.isNone = true) :
    cell.text.length = 1 := by
  rw [text, Option.isNone_iff_eq_none.mp h]
  rfl

theorem Counted.cons {spans : List Span} {s : Span} {opened opened' : Bool}
    (h : Counted opened spans) (hs : s.countsAreConsistent)
    (hlast : opened' = true → s.clusterCount = s.text.length) : Counted opened' (s :: spans) := by
  constructor
  · intro t ht
    rcases List.mem_cons.mp ht with rfl | ht
    · exact hs
    · exact h.consistent t ht
  · intro hopened t ht
    cases ht
    exact hlast hopened

theorem Counted.pushCell {opened : Bool} {spans : List Span} (column : Nat) (cell : Cell)
    (h : Counted opened spans) :
    Counted cell.zerowidth.isNone (pushCell opened column cell spans) := by
  have hnew : ∀ {tail : List Span}, Counted opened tail →
      Counted cell.zerowidth.isNone (⟨column, cell.text, cell.width, 1, styleOf cell⟩ :: tail) :=
    fun htail => htail.cons (.inl rfl) fun hplain => (Cell.length_text hplain).symm
  cases spans with
  | nil => exact hnew h
  | cons last rest =>
    rw [Terminal.pushCell]
    split
    case isFalse => exact hnew h
    case isTrue hjoin =>
      simp only [Bool.and_eq_true] at hjoin
      obtain ⟨⟨⟨⟨hopened, hplain⟩, -⟩, -⟩, -⟩ := hjoin
      have hcount : last.clusterCount = last.text.length := h.last hopened last rfl
      have hgrown : last.clusterCount + 1 = (last.text ++ cell.text).length := by
        rw [List.length_append, Cell.length_text hplain, hcount]
      have hrest : Counted false rest :=
        ⟨fun s hs => h.consistent s (List.mem_cons_of_mem _ hs),
          (absurd · Bool.false_ne_true)⟩
      exact hrest.cons (.inr hgrown) fun _ => hgrown

theorem Counted.spansLoop {opened : Bool} {spans : List Span} (h : Counted opened spans)
    (column : Nat) (cells : List Cell) :
    ∀ s ∈ spansLoop opened column spans cells, s.countsAreConsistent := by
  induction cells generalizing opened column spans with
  | nil => exact h.consistent
  | cons cell cells ih =>
    rw [Terminal.spansLoop]
    split
    · exact ih h _
    · exact ih (h.pushCell column cell) _

theorem countsAreConsistent_of_mem_spans {cells : List Cell} {s : Span} (h : s ∈ spans cells) :
    s.countsAreConsistent := by
  have hnone : Counted false [] := ⟨fun _ hs => absurd hs List.not_mem_nil, (absurd · Bool.false_ne_true)⟩
  exact hnone.spansLoop 0 cells s (List.mem_reverse.mp h)

/-! ## What the hasher is fed -/

namespace Cell

/-- What `hash_cells` writes of a cell, on a little-endian machine. -/
def hashed (cell : Cell) : List UInt8 :=
  leBytes 4 cell.c.toNat ++
  leBytes 4 (packColor cell.fg).toNat ++
  leBytes 4 (packColor cell.bg).toNat ++
  leBytes 2 cell.flags.bits.toNat ++
  match cell.zerowidth with
  | none => []
  -- A slice is hashed as its length and then its items.
  | some marks => leBytes 8 marks.chars.length ++ marks.chars.flatMap fun c => leBytes 4 c.toNat

end Cell

def hashStream (cells : List Cell) : List UInt8 := cells.flatMap Cell.hashed

/-- `hash` is the hasher: from all bytes written to what it finishes with. -/
def hashCells (hash : List UInt8 → UInt64) (cells : List Cell) : UInt64 := hash (hashStream cells)

/-! ## Reading it back -/

theorem packColor_tagged (color : Color) : 0x01000000 ≤ (packColor color).toNat := by
  cases color with
  | named color =>
    rw [packColor, UInt32.toNat_or]
    exact Nat.left_le_or
  | indexed index =>
    rw [packColor, UInt32.toNat_or]
    exact Nat.le_trans (by decide) Nat.left_le_or
  | spec r g b =>
    rw [packColor, UInt32.toNat_or, UInt32.toNat_or, UInt32.toNat_or]
    exact Nat.le_trans (by decide)
      (Nat.le_trans Nat.left_le_or (Nat.le_trans Nat.left_le_or Nat.left_le_or))

theorem Char.toNat_lt (c : Char) : c.toNat < 0x110000 := by
  rcases c.valid with h | ⟨-, h⟩
  · exact Nat.lt_trans h (by decide)
  · exact h

structure Packed where
  c : Char
  fg : UInt32
  bg : UInt32
  flags : Flags
  zerowidth : Option Marks
  fg_tagged : 0x01000000 ≤ fg.toNat
  bg_tagged : 0x01000000 ≤ bg.toNat

def Cell.packed (cell : Cell) : Packed where
  c := cell.c
  fg := packColor cell.fg
  bg := packColor cell.bg
  flags := cell.flags
  zerowidth := cell.zerowidth
  fg_tagged := packColor_tagged cell.fg
  bg_tagged := packColor_tagged cell.bg

namespace Packed

def plainBytes (p : Packed) : List UInt8 :=
  leBytes 4 p.c.toNat ++ leBytes 4 p.fg.toNat ++ leBytes 4 p.bg.toNat ++
    leBytes 2 p.flags.bits.toNat

def marksBytes : Option Marks → List UInt8
  | none => []
  | some marks => leBytes 8 marks.chars.length ++ marks.chars.flatMap fun c => leBytes 4 c.toNat

def bytes (p : Packed) : List UInt8 := p.plainBytes ++ marksBytes p.zerowidth

end Packed

theorem leBytes_uint32_inj {x y : UInt32} (h : leBytes 4 x.toNat = leBytes 4 y.toNat) : x = y :=
  UInt32.toNat_inj.mp (leBytes_inj x.toNat_lt y.toNat_lt h)

theorem leBytes_uint16_inj {x y : UInt16} (h : leBytes 2 x.toNat = leBytes 2 y.toNat) : x = y :=
  UInt16.toNat_inj.mp (leBytes_inj x.toNat_lt y.toNat_lt h)

theorem leBytes_char_inj {c d : Char} (h : leBytes 4 c.toNat = leBytes 4 d.toNat) : c = d :=
  Char.toNat_inj.mp (leBytes_inj (Nat.lt_trans (Char.toNat_lt c) (by decide))
    (Nat.lt_trans (Char.toNat_lt d) (by decide)) h)

theorem selfDelimiting_char : SelfDelimiting fun c : Char => leBytes 4 c.toNat :=
  .of_length 4 (fun _ => length_leBytes 4 _) fun _ _ h => leBytes_char_inj h

namespace Packed

theorem plainBytes_append_inj {p q : Packed} {r s : List UInt8}
    (h : p.plainBytes ++ r = q.plainBytes ++ s) :
    (p.c = q.c ∧ p.fg = q.fg ∧ p.bg = q.bg ∧ p.flags = q.flags) ∧ r = s := by
  simp only [plainBytes, List.append_assoc] at h
  obtain ⟨hc, h⟩ := List.append_inj h (by simp)
  obtain ⟨hfg, h⟩ := List.append_inj h (by simp)
  obtain ⟨hbg, h⟩ := List.append_inj h (by simp)
  obtain ⟨hflags, h⟩ := List.append_inj h (by simp)
  exact ⟨⟨leBytes_char_inj hc, leBytes_uint32_inj hfg, leBytes_uint32_inj hbg,
    congrArg Flags.mk (leBytes_uint16_inj hflags)⟩, h⟩

theorem marksBytes_some_inj {m n : Marks} {r s : List UInt8}
    (h : marksBytes (some m) ++ r = marksBytes (some n) ++ s) : m = n := by
  simp only [marksBytes, List.append_assoc] at h
  obtain ⟨hlength, h⟩ := List.append_inj h (by simp)
  have hcount : m.chars.length = n.chars.length := leBytes_inj m.fits n.fits hlength
  obtain ⟨hchars, -⟩ := List.append_inj h (by simp [List.length_flatMap, hcount])
  have heq : m.chars = n.chars :=
    selfDelimiting_char.flatMap_injective (fun c hnil => by
      have hlen := length_leBytes 4 c.toNat
      rw [hnil] at hlen
      cases hlen) hchars
  cases m
  cases n
  exact (Marks.mk.injEq ..).mpr heq

theorem words_ne_marksBytes (m : Marks) (s : List UInt8) (ps : List Packed) :
    ps.flatMap bytes ≠ marksBytes (some m) ++ s := by
  intro h
  cases ps with
  | nil =>
    have hlen := congrArg List.length h
    simp [marksBytes] at hlen
    omega
  | cons p ps =>
    simp only [List.flatMap_cons, bytes, plainBytes, marksBytes, List.append_assoc] at h
    cases hm : m.chars with
    | nil =>
      -- The length is zero, and so would be the foreground.
      rw [hm] at h
      have hzero : leBytes 8 ([] : List Char).length = leBytes 4 0 ++ leBytes 4 0 := by decide
      rw [hzero, List.append_assoc] at h
      obtain ⟨-, h⟩ := List.append_inj h (by simp)
      obtain ⟨hfg, -⟩ := List.append_inj h (by simp)
      have hfg : p.fg = 0 := leBytes_uint32_inj hfg
      have htag := p.fg_tagged
      rw [hfg] at htag
      exact absurd htag (by decide)
    | cons d ds =>
      -- The background would be the first mark.
      rw [hm, List.flatMap_cons] at h
      have hsplit : ∀ t, leBytes 4 p.c.toNat ++ (leBytes 4 p.fg.toNat ++ t) =
          (leBytes 4 p.c.toNat ++ leBytes 4 p.fg.toNat) ++ t := fun t =>
        (List.append_assoc _ _ _).symm
      rw [hsplit] at h
      obtain ⟨-, h⟩ := List.append_inj h (by simp)
      rw [List.append_assoc] at h
      obtain ⟨hbg, -⟩ := List.append_inj h (by simp)
      have hd := Char.toNat_lt d
      have hbg : p.bg.toNat = d.toNat :=
        leBytes_inj p.bg.toNat_lt (Nat.lt_trans hd (by decide)) hbg
      have htag := p.bg_tagged
      omega

theorem bytes_ne_nil (p : Packed) : p.bytes ≠ [] := by
  intro h
  have hlen := congrArg List.length h
  simp [bytes, plainBytes] at hlen

theorem eq_of_bytes_append {p q : Packed} {ps qs : List Packed}
    (h : p.bytes ++ ps.flatMap bytes = q.bytes ++ qs.flatMap bytes) : p = q := by
  simp only [bytes, List.append_assoc] at h
  obtain ⟨⟨hc, hfg, hbg, hflags⟩, hrest⟩ := plainBytes_append_inj h
  have hmarks : p.zerowidth = q.zerowidth := by
    cases hp : p.zerowidth with
    | none =>
      cases hq : q.zerowidth with
      | none => rfl
      | some n =>
        rw [hp, hq] at hrest
        exact absurd hrest (words_ne_marksBytes n _ ps)
    | some m =>
      cases hq : q.zerowidth with
      | none =>
        rw [hp, hq] at hrest
        exact absurd hrest.symm (words_ne_marksBytes m _ qs)
      | some n =>
        rw [hp, hq] at hrest
        rw [marksBytes_some_inj hrest]
  cases p
  cases q
  simp_all

end Packed

theorem hashStream_eq (cells : List Cell) :
    hashStream cells = (cells.map Cell.packed).flatMap Packed.bytes := by
  rw [List.flatMap_map]
  rfl

theorem hashStream_eq_iff {r r' : List Cell} :
    hashStream r = hashStream r' ↔ r.map Cell.packed = r'.map Cell.packed := by
  rw [hashStream_eq, hashStream_eq]
  constructor
  · intro h
    exact flatMap_injective_of_head Packed.bytes_ne_nil
      (fun _ _ _ _ hwords => Packed.eq_of_bytes_append hwords) h
  · exact congrArg _

theorem pushCell_congr {cell cell' : Cell} (h : cell.packed = cell'.packed) (opened : Bool)
    (column : Nat) (acc : List Span) :
    pushCell opened column cell acc = pushCell opened column cell' acc := by
  simp only [Cell.packed, Packed.mk.injEq] at h
  obtain ⟨hc, hfg, hbg, hflags, hmarks⟩ := h
  have hstyle : styleOf cell = styleOf cell' := by rw [styleOf, styleOf, hfg, hbg, hflags]
  have hwidth : cell.width = cell'.width := by rw [Cell.width, Cell.width, hflags]
  have htext : cell.text = cell'.text := by rw [Cell.text, Cell.text, hc, hmarks]
  cases acc with
  | nil => rw [pushCell, pushCell, hstyle, hwidth, htext]
  | cons last rest => rw [pushCell, pushCell, hstyle, hwidth, htext, hmarks]

theorem spansLoop_congr {r r' : List Cell} (h : r.map Cell.packed = r'.map Cell.packed)
    (opened : Bool) (column : Nat) (acc : List Span) :
    spansLoop opened column acc r = spansLoop opened column acc r' := by
  induction r generalizing r' opened column acc with
  | nil =>
    cases r' with
    | nil => rfl
    | cons cell' r' => cases h
  | cons cell r ih =>
    cases r' with
    | nil => cases h
    | cons cell' r' =>
      rw [List.map_cons, List.map_cons] at h
      obtain ⟨hcell, hrest⟩ := List.cons.inj h
      have hflags : cell.flags = cell'.flags := congrArg Packed.flags hcell
      have hmarks : cell.zerowidth = cell'.zerowidth := congrArg Packed.zerowidth hcell
      rw [spansLoop, spansLoop, hflags, hmarks, pushCell_congr hcell, ih hrest, ih hrest]

theorem wrapped_congr {r r' : List Cell} (h : r.map Cell.packed = r'.map Cell.packed) :
    wrapped r = wrapped r' := by
  have hflags : r.map Cell.flags = r'.map Cell.flags := by
    have hmap := congrArg (List.map Packed.flags) h
    rw [List.map_map, List.map_map] at hmap
    exact hmap
  have hlast : r.getLast?.map Cell.flags = r'.getLast?.map Cell.flags := by
    rw [← List.getLast?_map, ← List.getLast?_map, hflags]
  rw [wrapped, wrapped]
  cases hr : r.getLast? with
  | none =>
    cases hr' : r'.getLast? with
    | none => rfl
    | some cell' =>
      rw [hr, hr'] at hlast
      cases hlast
  | some cell =>
    cases hr' : r'.getLast? with
    | none =>
      rw [hr, hr'] at hlast
      cases hlast
    | some cell' =>
      rw [hr, hr'] at hlast
      exact congrArg (Flags.contains · .wrapline) (Option.some.inj hlast)

theorem RowFrame.of_congr {r r' : List Cell} (h : hashStream r = hashStream r') (line : Nat) :
    RowFrame.of line r = RowFrame.of line r' := by
  have hpacked := hashStream_eq_iff.mp h
  rw [RowFrame.of, RowFrame.of, wrapped_congr hpacked, Terminal.spans, Terminal.spans,
    spansLoop_congr hpacked]

/-! ## Rows that are shown the same -/

def plainCell (c : Char) (flags : Flags) : Cell :=
  ⟨c, .named .foreground, .named .background, flags, none⟩

def wrappedAfterBlank : List Cell := [plainCell 'a' ⟨0⟩, plainCell ' ' .wrapline]

def wrappedBeforeWide : List Cell :=
  [plainCell 'a' ⟨0⟩, plainCell ' ' (Flags.wrapline.union .leadingWideCharSpacer)]

/-- The stream also has flags that are not shown. -/
theorem stream_not_function_of_shown :
    spans wrappedAfterBlank = spans wrappedBeforeWide ∧
      wrapped wrappedAfterBlank = wrapped wrappedBeforeWide ∧
      ¬ ∃ f : Bool × List Span → List UInt8,
        Function.Injective f ∧ ∀ row, hashStream row = f (wrapped row, spans row) := by
  have hspans : spans wrappedAfterBlank = spans wrappedBeforeWide := by decide +kernel
  have hwrapped : wrapped wrappedAfterBlank = wrapped wrappedBeforeWide := by decide +kernel
  refine ⟨hspans, hwrapped, ?_⟩
  rintro ⟨f, -, hf⟩
  have hstream : hashStream wrappedAfterBlank = hashStream wrappedBeforeWide := by
    rw [hf, hf, hspans, hwrapped]
  exact absurd hstream (by decide +kernel)

end Vingilot.Terminal
