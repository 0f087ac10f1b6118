import Vingilot.Lib.Lossy
import Vingilot.Coordinator.Evidence

/-!
# The output of a command as evidence (`executor/src/lib.rs`)

Each read is decoded by itself. A character that lies over the border of two reads is recorded as
broken pieces, though the output as a whole is sound.
-/

namespace Vingilot.Coordinator.Evidence

open Machine Transactions

def evidenceChunkBytes : Nat := 8 * 1024

/-- `String::from_utf8_lossy`. -/
def fromUtf8Lossy (bytes : List UInt8) : String := String.ofList (Lossy.decode bytes)

theorem fromUtf8Lossy_utf8 (text : List Char) :
    fromUtf8Lossy (Codes.utf8 text) = String.ofList text := by
  rw [fromUtf8Lossy, Lossy.decode_utf8]

structure Filled where
  bytes : List UInt8
  size_le : bytes.length ≤ evidenceChunkBytes

def Filled.chunk (f : Filled) : Chunk where
  text := fromUtf8Lossy f.bytes
  size_le := (Lossy.byteSize_decode_le f.bytes).trans (Nat.mul_le_mul_left 3 f.size_le)

/-- The chunks that `stream_to_evidence` appends. `none` is a read that fails. -/
def streamToEvidence : List (Option Filled) → List Chunk
  | [] => []
  | none :: _ => []
  | some f :: reads => if f.bytes = [] then [] else f.chunk :: streamToEvidence reads

structure Split (output : List UInt8) where
  parts : List Filled
  nonempty : ∀ f ∈ parts, f.bytes ≠ []
  flatten_eq : (parts.map (·.bytes)).flatten = output

namespace Split

variable {output : List UInt8}

def reads (s : Split output) : List (Option Filled) :=
  s.parts.map some ++ [some ⟨[], Nat.zero_le _⟩]

theorem streamToEvidence_reads (s : Split output) :
    streamToEvidence s.reads = s.parts.map (·.chunk) := by
  have hparts : ∀ parts : List Filled, (∀ f ∈ parts, f.bytes ≠ []) →
      streamToEvidence (parts.map some ++ [some ⟨[], Nat.zero_le _⟩]) = parts.map (·.chunk) := by
    intro parts hne
    induction parts with
    | nil => rfl
    | cons f parts ih =>
      rw [List.map_cons, List.cons_append, streamToEvidence, if_neg (hne f List.mem_cons_self),
        ih fun g hg => hne g (List.mem_cons_of_mem _ hg), List.map_cons]
  exact hparts s.parts s.nonempty

def Whole (s : Split output) : Prop := Lossy.Whole (s.parts.map (·.bytes))

instance (s : Split output) : Decidable s.Whole := inferInstanceAs (Decidable (Lossy.Whole _))

theorem flatMap_chunk_iff (s : Split output) :
    s.parts.flatMap (·.chunk.text.toList) = (fromUtf8Lossy output).toList ↔ s.Whole := by
  have htexts : s.parts.flatMap (·.chunk.text.toList) =
      (s.parts.map (·.bytes)).flatMap Lossy.decode := by
    rw [List.flatMap_map]
    refine List.flatMap_congr fun f _ => ?_
    exact String.toList_ofList
  have hiff := Lossy.flatMap_decode_iff (s.parts.map (·.bytes))
  rw [s.flatten_eq] at hiff
  rw [htexts, fromUtf8Lossy, String.toList_ofList]
  exact hiff

end Split

/-! ## What the streams were given -/

def given (actions : List Action) : List (List Chunk) :=
  actions.filterMap fun
    | .spawn _ _ chunks => some chunks
    | _ => none

structure Given (w : World) (chunks : List (List Chunk)) : Prop where
  spawned : w.spawned = chunks.length
  streams : ∀ i s, w.streams.get? i = some s → chunks[i]? = some (s.read ++ s.unread)

variable {w : World}

theorem given_step {w' : World} {a : Action} {chunks : List (List Chunk)} (h : Given w chunks)
    (hstep : step w a = some w') : Given w' (chunks ++ given [a]) := by
  have hlift : ∀ {b}, w.lift b = some w' → given [a] = [] → Given w' (chunks ++ given [a]) := by
    intro b hb hnone
    obtain ⟨appends, -, rfl⟩ := lift_some hb
    rw [hnone, List.append_nil]
    exact ⟨h.spawned, h.streams⟩
  cases a with
  | append runId kind content => exact hlift hstep rfl
  | exec tx => exact hlift hstep rfl
  | commit tx => exact hlift hstep rfl
  | spawn runId kind new =>
    cases hstep
    refine ⟨?_, fun i s hs => ?_⟩
    · show w.spawned + 1 = (chunks ++ [new]).length
      rw [List.length_append, List.length_singleton, h.spawned]
    · show (chunks ++ [new])[i]? = _
      rw [Table.get?_set] at hs
      split_ifs at hs with hi
      · cases hs
        rw [hi, h.spawned, List.getElem?_concat_length]
        rfl
      · have hold := h.streams i s hs
        rw [List.getElem?_append_left (List.getElem?_eq_some_iff.mp hold).1, hold]
  | read i =>
    show Given w' (chunks ++ [])
    rw [List.append_nil]
    obtain ⟨s, hs, hstep⟩ := Option.bind_eq_some_iff.mp hstep
    split at hstep
    · cases hstep
    · rename_i chunk unread hunread
      split_ifs at hstep
      obtain ⟨w'', hbegin, hstep⟩ := Option.bind_eq_some_iff.mp hstep
      obtain ⟨appends, -, rfl⟩ := lift_some hbegin
      cases hstep
      refine ⟨h.spawned, fun j s' hs' => ?_⟩
      rw [Table.get?_set] at hs'
      split_ifs at hs' with hj
      · cases hs'
        rw [hj, h.streams i s hs, hunread, List.append_assoc]
        rfl
      · exact h.streams j s' hs'

theorem given_run {runs : Table Uuid Run} {actions : List Action}
    (hrun : run step (.init runs) actions = some w) : Given w (given actions) := by
  induction actions using List.reverseRecOn generalizing w with
  | nil =>
    cases hrun
    exact ⟨rfl, fun _ _ h => (by cases h)⟩
  | append_singleton actions a ih =>
    obtain ⟨v, hv, hlast⟩ := run_append_some.mp hrun
    obtain ⟨w', hstep, hnil⟩ := run_cons_some.mp hlast
    cases hnil
    have hgiven : given (actions ++ [a]) = given actions ++ given [a] := List.filterMap_append
    rw [hgiven]
    exact given_step (ih hv) hstep

/-! ## What stands in the log -/

def recorded (w : World) (i : Nat) : String :=
  String.ofList (((answered w.appends.pub.answers i).filter (·.2.isOk)).flatMap (·.1.content.toList))

def Finished (w : World) (i : Nat) : Prop :=
  ∃ s, w.streams.get? i = some s ∧ s.unread = [] ∧ pending w s = none ∧
    ∀ x ∈ answered w.appends.pub.answers i, x.2.isOk = true

theorem recorded_eq {runs : Table Uuid Run} {actions : List Action}
    (hrun : run step (.init runs) actions = some w) {i : Nat} {chunks : List Chunk}
    (hgiven : (given actions)[i]? = some chunks) (hfinished : Finished w i) :
    recorded w i = String.ofList (chunks.flatMap (·.text.toList)) := by
  obtain ⟨s, hs, hunread, hidle, hok⟩ := hfinished
  have hkept := run_invariant Kept (fun _ _ _ hs hstep => (kept_step hs hstep).1) (kept_init runs) hrun
  have hread : chunks = s.read := by
    have hall := (given_run hrun).streams i s hs
    rw [hgiven, hunread, List.append_nil] at hall
    exact Option.some.inj hall
  have hrows := congrArg (List.map (·.content)) ((hkept.streams.sent i s hs).idle hidle)
  rw [List.map_map, List.map_map] at hrows
  have htexts := congrArg (List.flatMap String.toList) hrows
  rw [List.flatMap_map, List.flatMap_map] at htexts
  rw [recorded, List.filter_eq_self.mpr hok, hread]
  exact congrArg String.ofList htexts

/-- The log holds the output, decoded as a whole, exactly when no character lies over the border of
two reads. The decoding of a valid output is its text. -/
theorem output_recorded_iff {runs : Table Uuid Run} {actions : List Action} {w : World}
    (hrun : run step (.init runs) actions = some w) {output : List UInt8} (split : Split output)
    {i : Nat} (hgiven : (given actions)[i]? = some (streamToEvidence split.reads))
    (hfinished : Finished w i) :
    (recorded w i = fromUtf8Lossy output ↔ split.Whole) ∧
      ∀ text, output = Codes.utf8 text → (recorded w i = String.ofList text ↔ split.Whole) := by
  have hlossy : recorded w i = fromUtf8Lossy output ↔ split.Whole := by
    rw [recorded_eq hrun hgiven hfinished, split.streamToEvidence_reads, List.flatMap_map,
      ← split.flatMap_chunk_iff, ← String.toList_inj, String.toList_ofList]
  refine ⟨hlossy, fun text htext => ?_⟩
  rw [← fromUtf8Lossy_utf8, ← htext]
  exact hlossy

/-- The output `né`. The letter with the accent has two bytes. -/
def accentedOutput : List UInt8 := [0x6E, 0xC3, 0xA9]

def beforeLetter : Split accentedOutput :=
  ⟨[⟨[0x6E], by decide⟩, ⟨[0xC3, 0xA9], by decide⟩], by decide, rfl⟩

def withinLetter : Split accentedOutput :=
  ⟨[⟨[0x6E, 0xC3], by decide⟩, ⟨[0xA9], by decide⟩], by decide, rfl⟩

def appendBoth (split : Split accentedOutput) : List Action :=
  [.spawn 1 .output (streamToEvidence split.reads),
    .read 0, .exec 0, .exec 0, .exec 0, .commit 0, .read 0, .exec 1, .exec 1, .exec 1, .commit 1]

def finishedWith (w : World) (text : String) : Bool :=
  (w.streams.get? 0).any (fun s => s.unread.isEmpty && (pending w s).isNone) &&
    (answered w.appends.pub.answers 0).all (·.2.isOk) && recorded w 0 == text

theorem finished_of_finishedWith {text : String} (h : finishedWith w text = true) :
    Finished w 0 ∧ recorded w 0 = text := by
  simp only [finishedWith, Bool.and_eq_true, beq_iff_eq, List.all_eq_true, Option.any_eq_true,
    List.isEmpty_iff, Option.isNone_iff_eq_none] at h
  obtain ⟨⟨⟨s, hs, hunread, hidle⟩, hok⟩, htext⟩ := h
  exact ⟨⟨s, hs, hunread, hidle, hok⟩, htext⟩

theorem output_recorded_before_letter : ∃ w,
    run step (.init oneRun) (appendBoth beforeLetter) = some w ∧ beforeLetter.Whole ∧
      (recorded w 0 = fromUtf8Lossy accentedOutput ↔ beforeLetter.Whole) ∧
      ∀ text, accentedOutput = Codes.utf8 text →
        (recorded w 0 = String.ofList text ↔ beforeLetter.Whole) := by
  have hdemo : ((run step (.init oneRun) (appendBoth beforeLetter)).any
      (finishedWith · "né")) = true := by decide +kernel
  obtain ⟨w, hrun, h⟩ := (Option.any_eq_true _ _).mp hdemo
  obtain ⟨hfinished, -⟩ := finished_of_finishedWith h
  exact ⟨w, hrun, by decide, output_recorded_iff hrun beforeLetter rfl hfinished⟩

/-- The output is valid, and two broken pieces stand in the log. -/
theorem split_letter_broken :
    ¬ ∀ (runs : Table Uuid Run) (actions : List Action) (w : World),
      run step (.init runs) actions = some w → ∀ (output : List UInt8) (split : Split output)
        (i : Nat), (given actions)[i]? = some (streamToEvidence split.reads) → Finished w i →
          recorded w i = fromUtf8Lossy output ∧
            ∀ text, output = Codes.utf8 text → recorded w i = String.ofList text := by
  have hdemo : ((run step (.init oneRun) (appendBoth withinLetter)).any
      (finishedWith · "n\uFFFD\uFFFD")) = true := by decide +kernel
  obtain ⟨w, hrun, h⟩ := (Option.any_eq_true _ _).mp hdemo
  obtain ⟨hfinished, htext⟩ := finished_of_finishedWith h
  intro hall
  have hvalid := (hall _ _ w hrun _ withinLetter 0 rfl hfinished).2 "né".toList (by decide)
  rw [htext] at hvalid
  exact absurd hvalid (by decide)

end Vingilot.Coordinator.Evidence
