import Mathlib.Logic.Function.Basic
import Vingilot.Lib.Machine
import Vingilot.Terminal.Rows

/-!
# From grid changes to frames

A frame is captured under the terminal's lock and encoded after it. A renderer takes the damage,
and so only the rows that changed. A snapshot takes all rows and leaves the damage alone.
-/

namespace Vingilot.Terminal

set_option linter.dupNamespace false

/-! ## The emulator -/

structure Point where
  line : Int
  column : Nat

inductive TermDamage where
  | full
  | part (lines : List Nat)

inductive Scroll where
  | delta (lines : Int)
  | bottom

structure Size where
  columns : Nat
  screenLines : Nat
  scrollback : Nat
deriving DecidableEq

structure Emulator (ε : Type) where
  columns : ε → Nat
  screenLines : ε → Nat
  displayOffset : ε → Nat
  row : ε → Int → List Cell
  cursorPoint : ε → Point
  showCursor : ε → Bool
  damage : ε → TermDamage × ε
  resetDamage : ε → ε
  scrollDisplay : ε → Scroll → ε
  resize : ε → Size → ε

structure Viewport where
  generation : Nat
  columns : Nat
  screenLines : Nat

structure Terminal (ε : Type) where
  term : ε
  size : Size
  generation : Nat

structure CursorFrame where
  line : Nat
  column : Nat
  visible : Bool
deriving DecidableEq

structure RawFrame where
  rows : List (Nat × List Cell)
  cursor : CursorFrame
  full : Bool
  viewport : Viewport

structure Frame where
  rows : List RowFrame
  cursor : CursorFrame
  cursorChanged : Bool
  full : Bool
  viewport : Viewport

def rowOf (screenRow displayOffset : Nat) : Int := screenRow - displayOffset

def cursorFrame (cursorPoint : Point) (displayOffset screenLines : Nat) (shown : Bool) :
    CursorFrame :=
  let line := (max cursorPoint.line 0).toNat + displayOffset
  { line := min line (screenLines - 1)
    column := cursorPoint.column
    visible := shown && line < screenLines }

variable {ε κ : Type}

namespace Terminal

variable (E : Emulator ε) (t : Terminal ε)

def viewport : Viewport := ⟨t.generation, t.size.columns, t.size.screenLines⟩

def resize (size : Size) : Terminal ε :=
  if size = t.size then t
  else ⟨E.resize t.term size, size, t.generation + 1⟩

def scroll (lines : Int) : Terminal ε := { t with term := E.scrollDisplay t.term (.delta lines) }

def scrollToBottom : Terminal ε := { t with term := E.scrollDisplay t.term .bottom }

def capture : RawFrame × Terminal ε :=
  let displayOffset := E.displayOffset t.term
  let columns := E.columns t.term
  let screenLines := E.screenLines t.term
  let cursorPoint := E.cursorPoint t.term
  let shown := E.showCursor t.term
  let (damage, term) := E.damage t.term
  let (lines, full) := match damage with
    | .full => (List.range screenLines, true)
    | .part lines => (lines.filter (· < screenLines), false)
  let rows := lines.map fun line => (line, (E.row term (rowOf line displayOffset)).take columns)
  (⟨rows, cursorFrame cursorPoint displayOffset screenLines shown, full, t.viewport⟩,
    { t with term := E.resetDamage term })

def captureAll : RawFrame :=
  let displayOffset := E.displayOffset t.term
  let columns := E.columns t.term
  let screenLines := E.screenLines t.term
  let rows := (List.range screenLines).map fun line =>
    (line, (E.row t.term (rowOf line displayOffset)).take columns)
  ⟨rows, cursorFrame (E.cursorPoint t.term) displayOffset screenLines (E.showCursor t.term), true,
    t.viewport⟩

end Terminal

/-! ## The encoder -/

structure Encoder where
  hashes : List UInt64
  cursor : Option CursorFrame

namespace Encoder

def new : Encoder := ⟨[], none⟩

/-- `hashes.resize(line + 1, 0)` when the line has no hash yet. -/
def grow (hashes : List UInt64) (line : Nat) : List UInt64 :=
  if hashes.length ≤ line then hashes ++ List.replicate (line + 1 - hashes.length) 0 else hashes

variable (hash : List UInt8 → UInt64)

def encodeRows : List UInt64 → List (Nat × List Cell) → List UInt64 × List RowFrame
  | hashes, [] => (hashes, [])
  | hashes, (line, cells) :: raw =>
    let hashes := grow hashes line
    if hashes[line]? = some (hashCells hash cells) then
      encodeRows hashes raw
    else
      let (hashes, rows) := encodeRows (hashes.set line (hashCells hash cells)) raw
      (hashes, RowFrame.of line cells :: rows)

def encode (e : Encoder) (raw : RawFrame) : Encoder × Frame :=
  let hashes := if raw.full then [] else e.hashes
  let (hashes, rows) := encodeRows hash hashes raw.rows
  (⟨hashes, some raw.cursor⟩,
    ⟨rows, raw.cursor, decide (e.cursor ≠ some raw.cursor), raw.full, raw.viewport⟩)

end Encoder

/-! ## Consumers -/

structure View where
  rows : Nat → Option RowFrame
  cursor : Option CursorFrame

namespace View

def blank : View := ⟨fun _ => none, none⟩

def draw (v : View) (f : Frame) : View where
  rows := f.rows.foldl (fun rows row => Function.update rows row.line (some row))
    (if f.full then blank.rows else v.rows)
  cursor := some f.cursor

end View

structure Picture where
  rows : List (List Cell)
  cursor : CursorFrame

def Emulator.visible (E : Emulator ε) (e : ε) (line : Nat) : List Cell :=
  (E.row e (rowOf line (E.displayOffset e))).take (E.columns e)

def Emulator.picture (E : Emulator ε) (e : ε) : Picture where
  rows := (List.range (E.screenLines e)).map (E.visible e)
  cursor := cursorFrame (E.cursorPoint e) (E.displayOffset e) (E.screenLines e) (E.showCursor e)

/-- The consumer has the rows of the picture, with their wrap flags, no others, and its cursor. -/
structure View.Shows (v : View) (p : Picture) : Prop where
  rows : ∀ line, v.rows line = p.rows[line]?.map (RowFrame.of line)
  cursor : v.cursor = some p.cursor

/-- An encoder and the frames it made. `raw` is captured and not encoded yet, with what the terminal
showed then, and `seen` is what it showed at the capture of the last frame. -/
structure Consumer where
  encoder : Encoder
  frames : List Frame
  raw : Option (RawFrame × Picture)
  seen : Option Picture

namespace Consumer

def new : Consumer := ⟨.new, [], none, none⟩

def view (c : Consumer) : View := c.frames.foldl View.draw .blank

def captured (c : Consumer) (raw : RawFrame) (picture : Picture) : Consumer :=
  { c with raw := some (raw, picture) }

def encode (hash : List UInt8 → UInt64) (c : Consumer) (raw : RawFrame) (picture : Picture) :
    Consumer :=
  let (encoder, frame) := c.encoder.encode hash raw
  ⟨encoder, c.frames ++ [frame], none, some picture⟩

end Consumer

/-! ## Shared terminals -/

/-- One encoder renders, and any others take snapshots. `lastReset` is the emulator as it was when
its damage was last reset. -/
structure Shared (ε κ : Type) where
  terminal : Terminal ε
  renderer : Consumer
  others : κ → Consumer
  lastReset : Option ε

inductive SharedAction (ε κ : Type) where
  | parse (term : ε)
  | scroll (lines : Int)
  | scrollToBottom
  | resize (size : Size)
  /-- The two halves of `render`. -/
  | capture
  | encode
  /-- The two halves of `snapshot`. -/
  | captureAll (k : κ)
  | encodeAll (k : κ)

def Shared.start (t : Terminal ε) : Shared ε κ := ⟨t, .new, fun _ => .new, none⟩

def sharedStep [DecidableEq κ] (E : Emulator ε) (hash : List UInt8 → UInt64) (w : Shared ε κ) :
    SharedAction ε κ → Option (Shared ε κ)
  | .parse term => some { w with terminal := { w.terminal with term := term } }
  | .scroll lines => some { w with terminal := w.terminal.scroll E lines }
  | .scrollToBottom => some { w with terminal := w.terminal.scrollToBottom E }
  | .resize size => some { w with terminal := w.terminal.resize E size }
  | .capture =>
    match w.renderer.raw with
    | some _ => none
    | none =>
      let (raw, terminal) := w.terminal.capture E
      some { w with
        terminal := terminal
        renderer := w.renderer.captured raw (E.picture w.terminal.term)
        lastReset := some w.terminal.term }
  | .encode =>
    match w.renderer.raw with
    | none => none
    | some (raw, picture) => some { w with renderer := w.renderer.encode hash raw picture }
  | .captureAll k =>
    match (w.others k).raw with
    | some _ => none
    | none =>
      let consumer := (w.others k).captured (w.terminal.captureAll E) (E.picture w.terminal.term)
      some { w with others := Function.update w.others k consumer }
  | .encodeAll k =>
    match (w.others k).raw with
    | none => none
    | some (raw, picture) =>
      some { w with others := Function.update w.others k ((w.others k).encode hash raw picture) }

/-! ## What is assumed -/

/-- The report covers every visible row that changed since the last reset. A change of the height
is reported in full. -/
def Emulator.CoveredBy (E : Emulator ε) (now : ε) : TermDamage → Option ε → Prop
  | .full, _ => True
  | .part _, none => False
  | .part lines, some before => E.screenLines now = E.screenLines before ∧
      ∀ line < E.screenLines now, E.visible now line ≠ E.visible before line → line ∈ lines

instance (E : Emulator ε) (now : ε) : (damage : TermDamage) → (lastReset : Option ε) →
    Decidable (E.CoveredBy now damage lastReset)
  | .full, _ => .isTrue trivial
  | .part _, none => .isFalse id
  | .part _, some _ => inferInstanceAs (Decidable (_ ∧ ∀ line < _, _))

structure Distinguishes (hash : List UInt8 → UInt64) (streams : List (List UInt8)) : Prop where
  injective : ∀ x ∈ streams, ∀ y ∈ streams, hash x = hash y → x = y
  nonzero : ∀ x ∈ streams, hash x ≠ 0

def Reported (E : Emulator ε) (streams : List (List UInt8)) (w : Shared ε κ) :
    SharedAction ε κ → Prop
  | .capture => E.CoveredBy w.terminal.term (E.damage w.terminal.term).1 w.lastReset ∧
      ∀ row ∈ (E.picture w.terminal.term).rows, hashStream row ∈ streams
  | .captureAll _ => ∀ row ∈ (E.picture w.terminal.term).rows, hashStream row ∈ streams
  | _ => True

instance (E : Emulator ε) (streams : List (List UInt8)) (w : Shared ε κ) :
    (a : SharedAction ε κ) → Decidable (Reported E streams w a)
  | .capture => inferInstanceAs (Decidable (_ ∧ _))
  | .captureAll _ => inferInstanceAs (Decidable (∀ row ∈ _, _))
  | .parse _ | .scroll _ | .scrollToBottom | .resize _ | .encode | .encodeAll _ => .isTrue trivial

end Vingilot.Terminal
