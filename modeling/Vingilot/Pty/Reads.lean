import Vingilot.Lib.Lossy

/-!
# The text of a pty, read by read (`vingilot_pty/utf8_stream.rs`, `vingilot_pty/mod.rs`)

A character that a read breaks off is held back until the next one completes it. The thread ends
at an empty read, at an error, and when the session has been closed under it.
-/

namespace Vingilot.Pty

open Lossy

/-- `str::from_utf8` finds an error at the byte. -/
def fails (s : State) (b : UInt8) : Bool :=
  match s.due with
  | [] => decide (0x7F < b.toNat) && (lead b.toNat).isNone
  | r :: _ => !r.has b

/-- What is left at the end of a sequence that stops too early, `held` being what is there of it.
`none` when `str::from_utf8` finds another error. -/
def fragment (held : List UInt8) : State → List UInt8 → Option (List UInt8)
  | _, [] => some held
  | s, b :: bytes =>
    if fails s b then none
    else fragment (if (next s b).1.due = [] then [] else held ++ [b]) (next s b).1 bytes

def decodeStream (bytes : List UInt8) : List Char × List UInt8 :=
  match fragment [] idle bytes with
  | some rest => (decode (bytes.take (bytes.length - rest.length)), rest)
  | none => (decode bytes, [])

structure PtyOutputPayload where
  data : List Char
  seq : Nat

/-- The thread of `spawn_reader_thread` and its session. -/
structure Reader where
  /-- `next_seq` of the session while it is open. -/
  session : Option Nat
  partialBytes : List UInt8
  emitted : List PtyOutputPayload
  running : Bool

inductive Event where
  | read (bytes : List UInt8)
  | readError
  /-- Another caller closes the session. -/
  | close

def Reader.init (seq : Nat) : Reader := ⟨some seq, [], [], true⟩

/-- The loop is left, and the thread closes the session. -/
def Reader.leave (r : Reader) : Reader := { r with session := none, running := false }

/-- `record_output` counts the chunk, and gives nothing when the session is gone. -/
def Reader.emit (r : Reader) (data : List Char) : Reader :=
  match r.session with
  | none => r.leave
  | some seq =>
    { r with session := some (min (seq + 1) (2 ^ 64 - 1)), emitted := r.emitted ++ [⟨data, seq⟩] }

def Reader.take (r : Reader) (data : List Char) (rest : List UInt8) : Reader :=
  if data = [] then { r with partialBytes := rest }
  else { r with partialBytes := rest }.emit data

def Reader.step (r : Reader) : Event → Reader
  | .close => { r with session := none }
  | .readError => if r.running then r.leave else r
  | .read bytes =>
    if r.running = false then r
    else if bytes = [] then r.leave
    else
      let (data, rest) := decodeStream (r.partialBytes ++ bytes)
      r.take data rest

def Reader.run (r : Reader) (events : List Event) : Reader := events.foldl Reader.step r

def Reader.reads (r : Reader) (chunks : List (List UInt8)) : Reader := r.run (chunks.map .read)

def Reader.text (r : Reader) : List Char := r.emitted.flatMap PtyOutputPayload.data

def Event.bytes : Event → List UInt8
  | .read bytes => bytes
  | .readError | .close => []

variable {s : State} {b : UInt8} {n : Nat} {held rest : List UInt8}

theorem decode_nil : decode [] = [] := rfl

/-! ## One byte -/

theorem due_of_lead (h : lead n = some s) : s.due ≠ [] := by
  unfold lead at h
  split_ifs at h <;> cases h <;> exact List.cons_ne_nil _ _

theorem next_of_fails (h : fails s b = true) : ∃ out, (next s b).2 = replacement :: out := by
  cases hdue : s.due with
  | nil =>
    simp only [fails, hdue, Bool.and_eq_true, decide_eq_true_eq, Option.isNone_iff_eq_none] at h
    rw [next_of_due_nil hdue, first, if_neg (by omega), h.2]
    exact ⟨[], rfl⟩
  | cons r due =>
    have hhas : r.has b = false := by simpa [fails, hdue] using h
    rw [next_of_not_has hdue hhas]
    exact ⟨_, rfl⟩

theorem next_cases (h : fails s b = false) :
    ((next s b).1 = idle ∧ ∃ c, (next s b).2 = [c]) ∨
      (next s b).1.due ≠ [] ∧ (next s b).2 = [] := by
  cases hdue : s.due with
  | nil =>
    rw [next_of_due_nil hdue]
    unfold first
    split_ifs with hascii
    · exact .inl ⟨rfl, _, rfl⟩
    · cases hlead : lead b.toNat with
      | none =>
        simp [fails, hdue, hlead] at h
        omega
      | some t => exact .inr ⟨due_of_lead hlead, rfl⟩
  | cons r due =>
    have hhas : r.has b = true := by simpa [fails, hdue] using h
    cases due with
    | nil =>
      rw [next_last hdue hhas]
      exact .inl ⟨rfl, _, rfl⟩
    | cons r' due =>
      rw [next_inner hdue hhas]
      exact .inr ⟨List.cons_ne_nil _ _, rfl⟩

/-! ## One read -/

/-- The bytes `held` bring the decoder to `s` and say nothing yet. -/
structure Leads (held : List UInt8) (s : State) : Prop where
  reads : ∀ x, decode (held ++ x) = decodeFrom s x
  scans : ∀ x, fragment [] idle (held ++ x) = fragment held s x

/-- What stands before a fragment is decoded without it, and the fragment goes on as it began. -/
theorem Leads.split (h : Leads held s) {bytes : List UInt8}
    (hrest : fragment held s bytes = some rest) : ∃ done, held ++ bytes = done ++ rest ∧
      (∀ x, decode (done ++ x) = decode done ++ decode x) ∧
      ∀ x, fragment held s (bytes ++ x) = fragment [] idle (rest ++ x) := by
  induction bytes generalizing held s with
  | nil =>
    cases hrest
    exact ⟨[], List.append_nil _, fun _ => rfl, fun x => (h.scans x).symm⟩
  | cons b bytes ih =>
    cases hfails : fails s b with
    | true =>
      rw [fragment, if_pos hfails] at hrest
      cases hrest
    | false =>
      have hreads x : decode (held ++ b :: x) = (next s b).2 ++ decodeFrom (next s b).1 x :=
        h.reads (b :: x)
      have hscans x : fragment held s (b :: x) = fragment
          (if (next s b).1.due = [] then [] else held ++ [b]) (next s b).1 x := by
        rw [fragment, if_neg (by simp [hfails])]
      rw [hscans] at hrest
      obtain ⟨hidle, -⟩ | ⟨hdue, hsilent⟩ := next_cases hfails
      · have hdue : idle.due = [] := rfl
        rw [hidle, if_pos hdue] at hrest
        obtain ⟨done, hdone, hread, hscan⟩ := ih ⟨fun _ => rfl, fun _ => rfl⟩ hrest
        refine ⟨held ++ b :: done, by simpa using hdone, fun x => ?_, fun x => ?_⟩
        · rw [List.append_assoc, List.cons_append, hreads, hreads, hidle, List.append_assoc]
          exact congrArg _ (hread x)
        · rw [List.cons_append, hscans, hidle, if_pos hdue]
          exact hscan x
      · rw [if_neg hdue] at hrest
        have hleads : Leads (held ++ [b]) (next s b).1 := by
          refine ⟨fun x => ?_, fun x => ?_⟩
          · rw [List.append_assoc, List.singleton_append, hreads, hsilent, List.nil_append]
          · rw [List.append_assoc, List.singleton_append, h.scans, hscans, if_neg hdue]
        obtain ⟨done, hdone, hread, hscan⟩ := ih hleads hrest
        refine ⟨done, by simpa using hdone, hread, fun x => ?_⟩
        rw [List.cons_append, hscans, if_neg hdue]
        exact hscan x

theorem fragment_append {bytes : List UInt8} (x : List UInt8)
    (h : fragment held s bytes = none) : fragment held s (bytes ++ x) = none := by
  induction bytes generalizing held s with
  | nil => cases h
  | cons b bytes ih =>
    rw [fragment] at h
    rw [List.cons_append, fragment]
    split at h
    · rw [if_pos ‹_›]
    · rw [if_neg ‹_›]
      exact ih h

/-! ## Sound texts -/

theorem eq_nil_of_decodeFrom {bytes : List UInt8} (h : decodeFrom s bytes = []) :
    s.due = [] ∧ bytes = [] := by
  induction bytes generalizing s with
  | nil =>
    cases hdue : s.due with
    | nil => exact ⟨rfl, rfl⟩
    | cons r due => simp [decodeFrom, finish, hdue] at h
  | cons b bytes ih =>
    obtain ⟨hnext, hrest⟩ := List.append_eq_nil_iff.mp h
    cases hfails : fails s b with
    | true =>
      obtain ⟨out, hout⟩ := next_of_fails hfails
      simp [hnext] at hout
    | false =>
      obtain ⟨-, c, hc⟩ | ⟨hdue, -⟩ := next_cases hfails
      · simp [hnext] at hc
      · exact absurd (ih hrest).1 hdue

theorem fragment_of_one {bytes : List UInt8} {c : Char} (hc : c ≠ replacement)
    (h : decodeFrom s bytes = [c]) (x : List UInt8) :
    fragment held s (bytes ++ x) = fragment [] idle x := by
  induction bytes generalizing held s with
  | nil =>
    unfold decodeFrom finish at h
    split at h
    · cases h
    · exact absurd (List.cons.inj h).1.symm hc
  | cons b bytes ih =>
    rw [decodeFrom] at h
    cases hfails : fails s b with
    | true =>
      obtain ⟨out, hout⟩ := next_of_fails hfails
      rw [hout] at h
      exact absurd (List.cons.inj h).1.symm hc
    | false =>
      rw [List.cons_append, fragment, if_neg (by simp [hfails])]
      obtain ⟨hidle, c', hc'⟩ | ⟨hdue, hsilent⟩ := next_cases hfails
      · rw [hc'] at h
        rw [hidle, (eq_nil_of_decodeFrom (List.cons.inj h).2).2]
        rfl
      · rw [hsilent] at h
        exact ih h

theorem fragment_utf8 (text : List Char) : fragment [] idle (Codes.utf8 text) = some [] := by
  induction text with
  | nil => rfl
  | cons c text ih =>
    rw [Codes.utf8, List.flatMap_cons]
    by_cases hc : c = replacement
    · rw [hc]
      exact ih
    · have hone : decodeFrom idle (String.utf8EncodeChar c) = [c] := by
        have henc := decode_encoded c []
        rwa [List.append_nil] at henc
      rw [fragment_of_one hc hone]
      exact ih

/-! ## The thread -/

structure Live (r : Reader) : Prop where
  running : r.running = true
  isOpen : r.session.isSome = true

variable {r : Reader}

theorem live_init (seq : Nat) : Live (.init seq) := ⟨rfl, rfl⟩

theorem not_live_leave (r : Reader) : ¬ Live r.leave := fun h => by cases h.running

theorem not_live_close (r : Reader) : ¬ Live (r.step .close) := fun h => by cases h.isOpen

/-- An open session emits what is decoded. -/
theorem take_live (h : Live r) (data : List Char) (rest : List UInt8) :
    Live (r.take data rest) ∧ (r.take data rest).text = r.text ++ data ∧
      (r.take data rest).partialBytes = rest := by
  unfold Reader.take
  split_ifs with hdata
  · refine ⟨⟨h.running, h.isOpen⟩, ?_, rfl⟩
    rw [hdata, List.append_nil]
    rfl
  · obtain ⟨seq, hseq⟩ := Option.isSome_iff_exists.mp h.isOpen
    have hemit : { r with partialBytes := rest }.emit data = { r with
        partialBytes := rest, session := some (min (seq + 1) (2 ^ 64 - 1)),
        emitted := r.emitted ++ [⟨data, seq⟩] } := by
      simp only [Reader.emit, hseq]
    rw [hemit]
    exact ⟨⟨h.running, rfl⟩, by simp [Reader.text], rfl⟩

theorem take_silent (h : r.session = none) (data : List Char) (rest : List UInt8) :
    ¬ Live (r.take data rest) ∧ (r.take data rest).text = r.text := by
  unfold Reader.take
  split_ifs
  · exact ⟨fun hlive => by simpa [h] using hlive.isOpen, rfl⟩
  · simp only [Reader.emit, h]
    exact ⟨not_live_leave _, rfl⟩

theorem step_read (h : r.running = true) {chunk : List UInt8} (hchunk : chunk ≠ []) :
    r.step (.read chunk) = r.take (decodeStream (r.partialBytes ++ chunk)).1
      (decodeStream (r.partialBytes ++ chunk)).2 := by
  simp [Reader.step, h, hchunk]

/-- A thread that has ended, or whose session is closed, emits nothing more. -/
theorem step_silent (h : ¬ Live r) (event : Event) :
    ¬ Live (r.step event) ∧ (r.step event).text = r.text := by
  cases hrunning : r.running with
  | false =>
    cases event with
    | close => exact ⟨not_live_close r, rfl⟩
    | readError | read bytes => simpa [Reader.step, hrunning] using h
  | true =>
    have hsession : r.session = none := by
      rw [← Option.not_isSome_iff_eq_none]
      exact fun hopen => h ⟨hrunning, hopen⟩
    cases event with
    | close => exact ⟨not_live_close r, rfl⟩
    | readError =>
      simp only [Reader.step, hrunning, if_true]
      exact ⟨not_live_leave r, rfl⟩
    | read bytes =>
      by_cases hbytes : bytes = []
      · have hleft : r.step (.read bytes) = r.leave := by simp [Reader.step, hrunning, hbytes]
        rw [hleft]
        exact ⟨not_live_leave r, rfl⟩
      · rw [step_read hrunning hbytes]
        exact take_silent hsession _ _

theorem run_silent (h : ¬ Live r) (events : List Event) : (r.run events).text = r.text := by
  induction events generalizing r with
  | nil => rfl
  | cons event events ih =>
    obtain ⟨hsilent, htext⟩ := step_silent h event
    exact (ih hsilent).trans htext

/-- Whatever happens to it, a thread has emitted what some first reads of an open session give. -/
theorem run_text (h : Live r) (events : List Event) :
    ∃ chunks, [] ∉ chunks ∧ chunks.flatten <+: events.flatMap Event.bytes ∧
      (r.run events).text = (r.reads chunks).text := by
  induction events generalizing r with
  | nil => exact ⟨[], List.not_mem_nil, List.prefix_refl _, rfl⟩
  | cons event events ih =>
    have hstop (hsilent : ¬ Live (r.step event)) (htext : (r.step event).text = r.text) :
        ∃ chunks, [] ∉ chunks ∧ chunks.flatten <+: (event :: events).flatMap Event.bytes ∧
          (r.run (event :: events)).text = (r.reads chunks).text :=
      ⟨[], List.not_mem_nil, List.nil_prefix, (run_silent hsilent events).trans htext⟩
    cases event with
    | close => exact hstop (not_live_close r) rfl
    | readError =>
      have hleft : r.step .readError = r.leave := by rw [Reader.step, if_pos h.running]
      rw [hleft] at hstop
      exact hstop (not_live_leave r) rfl
    | read bytes =>
      by_cases hbytes : bytes = []
      · have hleft : r.step (.read bytes) = r.leave := by
          simp [Reader.step, h.running, hbytes]
        rw [hleft] at hstop
        exact hstop (not_live_leave r) rfl
      · have hlive := (take_live h (decodeStream (r.partialBytes ++ bytes)).1
          (decodeStream (r.partialBytes ++ bytes)).2).1
        rw [← step_read h.running hbytes] at hlive
        obtain ⟨chunks, hread, hprefix, htext⟩ := ih hlive
        refine ⟨bytes :: chunks, ?_, ?_, htext⟩
        · rw [List.mem_cons, not_or]
          exact ⟨fun heq => hbytes heq.symm, hread⟩
        · rw [List.flatten_cons, List.flatMap_cons]
          exact (List.prefix_append_right_inj bytes).mpr hprefix

/-! ## All reads -/

theorem reads_text {chunks : List (List UInt8)} (hlive : Live r) (hread : [] ∉ chunks)
    (hcarry : fragment [] idle r.partialBytes = some r.partialBytes)
    (h : fragment [] idle (r.partialBytes ++ chunks.flatten) = some rest) :
    ∃ done, r.partialBytes ++ chunks.flatten = done ++ rest ∧
      (r.reads chunks).text = r.text ++ decode done ∧ (r.reads chunks).partialBytes = rest := by
  induction chunks generalizing r with
  | nil =>
    rw [List.flatten_nil, List.append_nil] at h ⊢
    rw [hcarry] at h
    refine ⟨[], Option.some.inj h, ?_, Option.some.inj h⟩
    rw [decode_nil, List.append_nil]
    rfl
  | cons chunk chunks ih =>
    rw [List.mem_cons, not_or] at hread
    obtain ⟨hlive', htext, hpartial⟩ := take_live hlive (decodeStream (r.partialBytes ++ chunk)).1
      (decodeStream (r.partialBytes ++ chunk)).2
    rw [← step_read hlive.running (Ne.symm hread.1)] at hlive' htext hpartial
    rw [List.flatten_cons, ← List.append_assoc] at h ⊢
    cases hpass : fragment [] idle (r.partialBytes ++ chunk) with
    | none =>
      rw [fragment_append _ hpass] at h
      cases h
    | some carry =>
      obtain ⟨done, hdone, hdecode, hscan⟩ := Leads.split ⟨fun _ => rfl, fun _ => rfl⟩ hpass
      rw [List.nil_append] at hdone
      have hcarry' := hscan []
      rw [List.append_nil, List.append_nil, hpass] at hcarry'
      have hstream : decodeStream (r.partialBytes ++ chunk) = (decode done, carry) := by
        rw [decodeStream, hpass, hdone]
        simp
      simp only [hstream] at htext hpartial
      rw [hscan, ← hpartial] at h
      rw [← hpartial] at hcarry'
      obtain ⟨done', hdone', htext', hrest⟩ := ih hlive' hread.2 hcarry'.symm h
      refine ⟨done ++ done', ?_, ?_, hrest⟩
      · rw [hdone, List.append_assoc, ← hpartial, hdone', List.append_assoc]
      · rw [hdecode, ← List.append_assoc, ← htext]
        exact htext'

/-- The text of sound output, and what is held back at its end, are those of one single read. -/
theorem reads_do_not_matter (seq : Nat) {chunks : List (List UInt8)} (hread : [] ∉ chunks)
    (h : fragment [] idle chunks.flatten = some rest) :
    let r := (Reader.init seq).reads chunks
    (r.text, r.partialBytes) = decodeStream chunks.flatten := by
  have hnil : fragment [] idle [] = some [] := rfl
  obtain ⟨done, hdone, htext, hrest⟩ := reads_text (live_init seq) hread hnil h
  change chunks.flatten = done ++ rest at hdone
  change _ = decode done at htext
  intro r
  rw [htext, hrest, decodeStream, h, hdone]
  simp

theorem reads_do_not_matter_inside_letter :
    let r := (Reader.init 0).reads [[0x6F, 0xC3], [0xA9], [0xF0, 0x9F]]
    (r.text, r.partialBytes) = (['o', 'é'], [0xF0, 0x9F]) := by
  have hsound : fragment [] idle [0x6F, 0xC3, 0xA9, 0xF0, 0x9F] = some [0xF0, 0x9F] := by decide
  have hread : ([] : List UInt8) ∉ [[0x6F, 0xC3], [0xA9], [0xF0, 0x9F]] := by decide
  exact (reads_do_not_matter 0 hread hsound).trans (by decide)

/-- Whatever ends the thread, what it has emitted is a prefix of what was written. With all of it
read from an open session, that is the whole text. -/
theorem reads_emit_text (seq : Nat) {text : List Char} {events : List Event} {later : List UInt8}
    (h : events.flatMap Event.bytes ++ later = Codes.utf8 text) :
    ((Reader.init seq).run events).text <+: text ∧
      ∀ chunks, events = chunks.map .read → [] ∉ chunks → later = [] →
        ((Reader.init seq).reads chunks).text = text ∧
          ((Reader.init seq).reads chunks).partialBytes = [] := by
  have hnil : fragment [] idle [] = some [] := rfl
  have hscan := fragment_utf8 text
  have hpart {chunks : List (List UInt8)} {later : List UInt8} (hread : [] ∉ chunks)
      (h : chunks.flatten ++ later = Codes.utf8 text) :
      ∃ done rest, ((Reader.init seq).reads chunks).text = decode done ∧
        ((Reader.init seq).reads chunks).partialBytes = rest ∧
        text = decode done ++ decode (rest ++ later) ∧
        fragment [] idle chunks.flatten = some rest := by
    have htext := decode_utf8 text
    rw [← h] at htext hscan
    cases hrest : fragment [] idle chunks.flatten with
    | none =>
      rw [fragment_append _ hrest] at hscan
      cases hscan
    | some rest =>
      obtain ⟨done, hdone, hreads, hpartial⟩ := reads_text (live_init seq) hread hnil hrest
      obtain ⟨done', hdone', hdecode, -⟩ := Leads.split ⟨fun _ => rfl, fun _ => rfl⟩ hrest
      change chunks.flatten = done ++ rest at hdone
      rw [List.nil_append] at hdone'
      obtain rfl : done' = done := List.append_cancel_right (hdone'.symm.trans hdone)
      rw [hdone, List.append_assoc, hdecode] at htext
      exact ⟨done', rest, hreads, hpartial, htext.symm, rfl⟩
  constructor
  · obtain ⟨chunks, hread, ⟨more, hmore⟩, htext⟩ := run_text (live_init seq) events
    rw [← hmore, List.append_assoc] at h
    obtain ⟨done, rest, hreads, -, hwhole, -⟩ := hpart hread h
    rw [htext, hreads, hwhole]
    exact List.prefix_append _ _
  · rintro chunks rfl hread rfl
    have hflat : (chunks.map Event.read).flatMap Event.bytes = chunks.flatten := by
      rw [List.flatMap_map, List.flatten_eq_flatMap]
      rfl
    rw [hflat] at h
    obtain ⟨done, rest, hreads, hpartial, hwhole, hrest⟩ := hpart hread h
    rw [List.append_nil] at h hwhole
    rw [h, hscan] at hrest
    obtain rfl : [] = rest := Option.some.inj hrest
    rw [decode_nil, List.append_nil] at hwhole
    exact ⟨hreads.trans hwhole.symm, hpartial⟩

theorem reads_emit_text_inside_letter :
    ((Reader.init 0).run [.read [0x6F, 0xC3], .read [], .read [0xA9]]).text <+: ['o', 'é'] ∧
      ((Reader.init 0).reads [[0x6F, 0xC3], [0xA9]]).text = ['o', 'é'] ∧
        ((Reader.init 0).reads [[0x6F, 0xC3], [0xA9]]).partialBytes = [] := by
  have hended : [Event.read [0x6F, 0xC3], .read [], .read [0xA9]].flatMap Event.bytes ++ [] =
      Codes.utf8 ['o', 'é'] := by decide
  have hread : [Event.read [0x6F, 0xC3], .read [0xA9]].flatMap Event.bytes ++ [] =
      Codes.utf8 ['o', 'é'] := by decide
  exact ⟨(reads_emit_text 0 hended).1,
    (reads_emit_text 0 hread).2 [[0x6F, 0xC3], [0xA9]] rfl (by decide) rfl⟩

end Vingilot.Pty
