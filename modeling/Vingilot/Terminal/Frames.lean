import Vingilot.Terminal.Damage

/-!
# Frames reconstruct the viewport

An encoder leaves a row out when it has the hash of the row sent before. So a nonzero hash must
always be that of the row the consumer has, and then every frame brings it up to date.
-/

namespace Vingilot.Terminal

set_option linter.dupNamespace false

open Machine

variable {ε κ : Type} {hash : List UInt8 → UInt64} {streams : List (List UInt8)}

/-! ## Encoding -/

def Held (hash : List UInt8 → UInt64) (streams : List (List UInt8)) (hashes : List UInt64)
    (rows : Nat → Option RowFrame) : Prop :=
  ∀ line h, hashes[line]? = some h → h = 0 ∨ ∃ cells, hashStream cells ∈ streams ∧
    h = hashCells hash cells ∧ rows line = some (RowFrame.of line cells)

theorem held_nil (rows : Nat → Option RowFrame) : Held hash streams [] rows := by
  intro line h hline
  rw [List.getElem?_nil] at hline
  cases hline

variable {hashes : List UInt64} {rows : Nat → Option RowFrame}

theorem Held.grow (h : Held hash streams hashes rows) (line : Nat) :
    Held hash streams (Encoder.grow hashes line) rows := by
  unfold Encoder.grow
  split
  · intro n x hx
    by_cases hn : n < hashes.length
    · rw [List.getElem?_append_left hn] at hx
      exact h n x hx
    · rw [List.getElem?_append_right (by omega)] at hx
      exact .inl (List.eq_of_mem_replicate (List.mem_of_getElem? hx))
  · exact h

variable {cells : List Cell}

theorem Held.set (h : Held hash streams hashes rows) (line : Nat)
    (hcells : hashStream cells ∈ streams) :
    Held hash streams (hashes.set line (hashCells hash cells))
      (Function.update rows line (some (RowFrame.of line cells))) := by
  intro n x hx
  by_cases hn : n = line
  · subst hn
    rw [List.getElem?_set_self'] at hx
    obtain ⟨-, -, rfl⟩ := Option.map_eq_some_iff.mp hx
    exact .inr ⟨cells, hcells, rfl, Function.update_self ..⟩
  · rw [List.getElem?_set_ne (Ne.symm hn)] at hx
    rw [Function.update_of_ne hn]
    exact h n x hx

variable {line : Nat}

theorem Held.of_hash_eq (hd : Distinguishes hash streams) (h : Held hash streams hashes rows)
    (hcells : hashStream cells ∈ streams) (hline : hashes[line]? = some (hashCells hash cells)) :
    rows line = some (RowFrame.of line cells) := by
  rcases h line _ hline with hzero | ⟨sent, hsent, hhash, hrow⟩
  · exact absurd hzero (hd.nonzero _ hcells)
  · have hstream : hashStream cells = hashStream sent := hd.injective _ hcells _ hsent hhash
    rw [hrow, RowFrame.of_congr hstream]

def drawRows (rows : Nat → Option RowFrame) (sent : List RowFrame) : Nat → Option RowFrame :=
  sent.foldl (fun rows row => Function.update rows row.line (some row)) rows

variable {raw : List (Nat × List Cell)}

theorem encodeRows_of_sent (h : (Encoder.grow hashes line)[line]? ≠ some (hashCells hash cells)) :
    Encoder.encodeRows hash hashes ((line, cells) :: raw) =
      ((Encoder.encodeRows hash
          ((Encoder.grow hashes line).set line (hashCells hash cells)) raw).1,
        RowFrame.of line cells :: (Encoder.encodeRows hash
          ((Encoder.grow hashes line).set line (hashCells hash cells)) raw).2) := by
  rw [Encoder.encodeRows]
  exact if_neg h

theorem encodeRows_of_left_out (h : (Encoder.grow hashes line)[line]? = some (hashCells hash cells)) :
    Encoder.encodeRows hash hashes ((line, cells) :: raw) =
      Encoder.encodeRows hash (Encoder.grow hashes line) raw := by
  rw [Encoder.encodeRows]
  exact if_pos h

structure Drawn (hash : List UInt8 → UInt64) (streams : List (List UInt8))
    (raw : List (Nat × List Cell)) (before : Nat → Option RowFrame) (hashes : List UInt64)
    (after : Nat → Option RowFrame) : Prop where
  held : Held hash streams hashes after
  carried : ∀ x ∈ raw, after x.1 = some (RowFrame.of x.1 x.2)
  others : ∀ line, (∀ x ∈ raw, x.1 ≠ line) → after line = before line

theorem Drawn.cons {before mid after : Nat → Option RowFrame} {now : Nat → Option (List Cell)}
    (h : Drawn hash streams raw mid hashes after)
    (hnow : ∀ x ∈ (line, cells) :: raw, now x.1 = some x.2)
    (hmid : mid line = some (RowFrame.of line cells)) (hother : ∀ n, n ≠ line → mid n = before n) :
    Drawn hash streams ((line, cells) :: raw) before hashes after := by
  refine ⟨h.held, ?_, ?_⟩
  · intro x hx
    rcases List.mem_cons.mp hx with rfl | hx
    · by_cases hagain : ∀ y ∈ raw, y.1 ≠ line
      · rw [h.others line hagain]
        exact hmid
      · -- The line comes again, with the same cells.
        obtain ⟨y, hy, rfl⟩ : ∃ y ∈ raw, y.1 = line := by simpa using hagain
        have hcells : y.2 = cells := by
          have hfirst := hnow _ List.mem_cons_self
          rw [hnow y (List.mem_cons_of_mem _ hy)] at hfirst
          exact Option.some.inj hfirst
        rw [h.carried y hy, hcells]
    · exact h.carried x hx
  · intro n hn
    rw [h.others n fun x hx => hn x (List.mem_cons_of_mem _ hx)]
    exact hother n (Ne.symm (hn _ List.mem_cons_self))

theorem encodeRows_spec (hd : Distinguishes hash streams) (now : Nat → Option (List Cell))
    (hnow : ∀ x ∈ raw, now x.1 = some x.2) (hraw : ∀ x ∈ raw, hashStream x.2 ∈ streams)
    (h : Held hash streams hashes rows) :
    Drawn hash streams raw rows (Encoder.encodeRows hash hashes raw).1
      (drawRows rows (Encoder.encodeRows hash hashes raw).2) := by
  induction raw generalizing hashes rows with
  | nil => exact ⟨h, fun _ hx => absurd hx List.not_mem_nil, fun _ _ => rfl⟩
  | cons x raw ih =>
    obtain ⟨line, cells⟩ := x
    have hcells : hashStream cells ∈ streams := hraw _ List.mem_cons_self
    have hnow' : ∀ x ∈ raw, now x.1 = some x.2 := fun x hx => hnow x (List.mem_cons_of_mem _ hx)
    have hraw' : ∀ x ∈ raw, hashStream x.2 ∈ streams := fun x hx =>
      hraw x (List.mem_cons_of_mem _ hx)
    have hgrown := h.grow line
    by_cases hhash : (Encoder.grow hashes line)[line]? = some (hashCells hash cells)
    · rw [encodeRows_of_left_out hhash]
      exact (ih hnow' hraw' hgrown).cons hnow (hgrown.of_hash_eq hd hcells hhash) fun _ _ => rfl
    · rw [encodeRows_of_sent hhash]
      exact (ih hnow' hraw' (hgrown.set line hcells)).cons hnow (Function.update_self ..)
        fun n hn => Function.update_of_ne hn ..

/-! ## Captures -/

structure RawFrame.Updates (raw : RawFrame) (before : Option Picture) (now : Picture) : Prop where
  cursor : raw.cursor = now.cursor
  carried : ∀ x ∈ raw.rows, now.rows[x.1]? = some x.2
  complete : ∀ line cells, now.rows[line]? = some cells → (line, cells) ∈ raw.rows ∨
    raw.full = false ∧ ∃ p ∈ before, p.rows[line]? = some cells
  sameHeight : raw.full = false → ∃ p ∈ before, p.rows.length = now.rows.length

theorem Emulator.getElem?_picture (E : Emulator ε) (e : ε) :
    (E.picture e).rows[line]? = some cells ↔ line < E.screenLines e ∧ E.visible e line = cells := by
  rw [picture]
  simp only [List.getElem?_map, Option.map_eq_some_iff, List.getElem?_eq_some_iff,
    List.getElem_range, List.length_range]
  constructor
  · rintro ⟨n, ⟨hn, rfl⟩, hcells⟩
    exact ⟨hn, hcells⟩
  · rintro ⟨hn, hcells⟩
    exact ⟨line, ⟨hn, rfl⟩, hcells⟩

def Emulator.DamageKeepsRows (E : Emulator ε) : Prop :=
  ∀ e line, E.row (E.damage e).2 line = E.row e line

theorem Terminal.capture_updates {E : Emulator ε} (hE : E.DamageKeepsRows) (t : Terminal ε)
    {lastReset : Option ε} (h : E.CoveredBy t.term (E.damage t.term).1 lastReset) :
    (t.capture E).1.Updates (lastReset.map E.picture) (E.picture t.term) := by
  have hrow : ∀ line, (E.row (E.damage t.term).2 (rowOf line (E.displayOffset t.term))).take
      (E.columns t.term) = E.visible t.term line := by
    intro line
    rw [hE, Emulator.visible]
  unfold capture
  simp only [hrow]
  cases hdamage : (E.damage t.term).1 with
  | full =>
    refine ⟨rfl, ?_, ?_, fun hf => by cases hf⟩
    · intro x hx
      obtain ⟨line, hline, rfl⟩ := List.mem_map.mp hx
      exact E.getElem?_picture t.term |>.mpr ⟨List.mem_range.mp hline, rfl⟩
    · intro line cells hline
      obtain ⟨hlt, rfl⟩ := (E.getElem?_picture t.term).mp hline
      exact .inl (List.mem_map_of_mem (List.mem_range.mpr hlt))
  | part lines =>
    rw [hdamage] at h
    cases lastReset with
    | none => exact absurd h id
    | some before =>
      obtain ⟨hheight, hcovers⟩ := h
      refine ⟨rfl, ?_, ?_, fun _ => ⟨E.picture before, rfl, ?_⟩⟩
      · intro x hx
        obtain ⟨line, hline, rfl⟩ := List.mem_map.mp hx
        have hlt := of_decide_eq_true (List.mem_filter.mp hline).2
        exact (E.getElem?_picture t.term).mpr ⟨hlt, rfl⟩
      · intro line cells hline
        obtain ⟨hlt, rfl⟩ := (E.getElem?_picture t.term).mp hline
        by_cases hsame : E.visible t.term line = E.visible before line
        · refine .inr ⟨rfl, E.picture before, rfl, ?_⟩
          exact (E.getElem?_picture before).mpr ⟨by omega, hsame.symm⟩
        · have hmem := hcovers line hlt hsame
          exact .inl (List.mem_map_of_mem (List.mem_filter.mpr ⟨hmem, decide_eq_true hlt⟩))
      · simp only [Emulator.picture, List.length_map, List.length_range, hheight]

theorem Terminal.captureAll_updates (E : Emulator ε) (t : Terminal ε) (before : Option Picture) :
    (t.captureAll E).Updates before (E.picture t.term) := by
  refine ⟨rfl, ?_, ?_, fun hf => by cases hf⟩
  · intro x hx
    obtain ⟨line, hline, rfl⟩ := List.mem_map.mp hx
    exact (E.getElem?_picture t.term).mpr ⟨List.mem_range.mp hline, rfl⟩
  · intro line cells hline
    obtain ⟨hlt, rfl⟩ := (E.getElem?_picture t.term).mp hline
    exact .inl (List.mem_map_of_mem (List.mem_range.mpr hlt))

/-! ## One consumer -/

structure Consumer.Good (hash : List UInt8 → UInt64) (streams : List (List UInt8)) (c : Consumer) :
    Prop where
  held : Held hash streams c.encoder.hashes c.view.rows
  shows : ∀ p ∈ c.seen, c.view.Shows p
  sent : c.frames ≠ [] → c.seen.isSome
  updates : ∀ raw p, c.raw = some (raw, p) → raw.Updates c.seen p
  known : ∀ raw p, c.raw = some (raw, p) → ∀ cells ∈ p.rows, hashStream cells ∈ streams

theorem Consumer.good_new : Consumer.new.Good hash streams := by
  refine ⟨held_nil _, ?_, fun h => absurd rfl h, ?_, ?_⟩
  · intro p hp
    cases hp
  all_goals
    intro raw p h
    cases h

theorem Consumer.view_encode (c : Consumer) (raw : RawFrame) (picture : Picture) :
    (c.encode hash raw picture).view = c.view.draw (c.encoder.encode hash raw).2 := by
  rw [view, encode, List.foldl_append]
  rfl

namespace Consumer.Good

variable {c : Consumer} (h : c.Good hash streams)

include h

theorem captured {raw : RawFrame} {picture : Picture} (hupdates : raw.Updates c.seen picture)
    (hknown : ∀ cells ∈ picture.rows, hashStream cells ∈ streams) :
    (c.captured raw picture).Good hash streams where
  held := h.held
  shows := h.shows
  sent := h.sent
  updates := by
    rintro _ _ heq
    cases heq
    exact hupdates
  known := by
    rintro _ _ heq
    cases heq
    exact hknown

theorem encode (hd : Distinguishes hash streams) {raw : RawFrame} {picture : Picture}
    (hraw : c.raw = some (raw, picture)) : (c.encode hash raw picture).Good hash streams := by
  have hupdates := h.updates raw picture hraw
  have hstreams : ∀ x ∈ raw.rows, hashStream x.2 ∈ streams := fun x hx =>
    h.known raw picture hraw _ (List.mem_of_getElem? (hupdates.carried x hx))
  have hstart : Held hash streams (if raw.full then [] else c.encoder.hashes)
      (if raw.full then View.blank.rows else c.view.rows) := by
    cases raw.full with
    | true => exact held_nil _
    | false => exact h.held
  have hdrawn := encodeRows_spec hd (fun line => picture.rows[line]?) hupdates.carried hstreams
    hstart
  have hshows : (c.encode hash raw picture).view.Shows picture := by
    rw [view_encode]
    refine ⟨?_, congrArg some hupdates.cursor⟩
    intro line
    by_cases hin : ∃ x ∈ raw.rows, x.1 = line
    · obtain ⟨x, hx, rfl⟩ := hin
      rw [hupdates.carried x hx]
      exact hdrawn.carried x hx
    · have hout : ∀ x ∈ raw.rows, x.1 ≠ line := fun x hx heq => hin ⟨x, hx, heq⟩
      refine (hdrawn.others line hout).trans ?_
      cases hcells : picture.rows[line]? with
      | none =>
        -- Below the last row there is nothing, cleared or as before.
        cases hfull : raw.full with
        | true => rfl
        | false =>
          obtain ⟨p, hp, hheight⟩ := hupdates.sameHeight hfull
          have hnone : p.rows[line]? = none := by
            rw [List.getElem?_eq_none_iff] at hcells ⊢
            omega
          have hshown := (h.shows p hp).rows line
          rw [hnone] at hshown
          exact hshown
      | some cells =>
        rcases hupdates.complete line cells hcells with hx | ⟨hfull, p, hp, hsame⟩
        · exact absurd rfl (hout _ hx)
        · have hshown := (h.shows p hp).rows line
          rw [hsame] at hshown
          rw [hfull]
          exact hshown
  refine ⟨?_, ?_, fun _ => rfl, ?_, ?_⟩
  · rw [view_encode]
    exact hdrawn.held
  · intro p hp
    cases hp
    exact hshows
  all_goals
    intro raw p heq
    cases heq

end Consumer.Good

/-! ## Steps -/

variable {a : SharedAction ε κ}

namespace Shared

structure Inv (E : Emulator ε) (hash : List UInt8 → UInt64) (streams : List (List UInt8))
    (w : Shared ε κ) : Prop where
  renderer : w.renderer.Good hash streams
  others : ∀ k, (w.others k).Good hash streams
  upToReset : w.renderer.raw = none → w.renderer.seen = w.lastReset.map E.picture
  captured : ∀ raw p, w.renderer.raw = some (raw, p) → w.lastReset.map E.picture = some p

theorem inv_start (E : Emulator ε) (t : Terminal ε) :
    Inv E hash streams (start t : Shared ε κ) where
  renderer := Consumer.good_new
  others _ := Consumer.good_new
  upToReset _ := rfl
  captured := by
    intro raw p h
    cases h

variable [DecidableEq κ] {E : Emulator ε} {w w' : Shared ε κ}

theorem Inv.update (h : Inv E hash streams w) (k : κ) {c : Consumer} (hc : c.Good hash streams) :
    Inv E hash streams { w with others := Function.update w.others k c } := by
  refine ⟨h.renderer, ?_, h.upToReset, h.captured⟩
  intro j
  change (Function.update w.others k c j).Good hash streams
  by_cases hj : j = k
  · subst hj
    rw [Function.update_self]
    exact hc
  · rw [Function.update_of_ne hj]
    exact h.others j

theorem Inv.step (hE : E.DamageKeepsRows) (hd : Distinguishes hash streams)
    (h : Inv E hash streams w) (hreported : Reported E streams w a)
    (hstep : sharedStep E hash w a = some w') : Inv E hash streams w' := by
  cases a with
  | parse term | scroll lines | scrollToBottom | resize size =>
    cases hstep
    exact ⟨h.renderer, h.others, h.upToReset, h.captured⟩
  | capture =>
    simp only [sharedStep] at hstep
    split at hstep
    · cases hstep
    case h_2 hraw =>
      cases hstep
      obtain ⟨hcovered, hknown⟩ := hreported
      have hupdates := w.terminal.capture_updates hE hcovered
      rw [← h.upToReset hraw] at hupdates
      refine ⟨h.renderer.captured hupdates hknown, h.others, (absurd · (Option.some_ne_none _)), ?_⟩
      rintro _ _ heq
      cases heq
      rfl
  | encode =>
    simp only [sharedStep] at hstep
    split at hstep
    · cases hstep
    case h_2 raw p hraw =>
      cases hstep
      refine ⟨h.renderer.encode hd hraw, h.others, fun _ => (h.captured raw p hraw).symm, ?_⟩
      rintro _ _ heq
      cases heq
  | captureAll k =>
    simp only [sharedStep] at hstep
    split at hstep
    · cases hstep
    · cases hstep
      exact h.update k ((h.others k).captured (w.terminal.captureAll_updates E _) hreported)
  | encodeAll k =>
    simp only [sharedStep] at hstep
    split at hstep
    · cases hstep
    case h_2 hraw =>
      cases hstep
      exact h.update k ((h.others k).encode hd hraw)

/-! ## Snapshots -/

end Shared

def SharedAction.isSnapshotFor [DecidableEq κ] (k : κ) : SharedAction ε κ → Bool
  | .captureAll j | .encodeAll j => j = k
  | _ => false

namespace Shared

structure SameBut (k : κ) (w w' : Shared ε κ) : Prop where
  terminal : w'.terminal = w.terminal
  renderer : w'.renderer = w.renderer
  others : ∀ j, j ≠ k → w'.others j = w.others j
  lastReset : w'.lastReset = w.lastReset

theorem SameBut.refl (k : κ) (w : Shared ε κ) : SameBut k w w := ⟨rfl, rfl, fun _ _ => rfl, rfl⟩

variable [DecidableEq κ] {E : Emulator ε} {w w' v : Shared ε κ} {k : κ}

theorem SameBut.update_left (h : SameBut k w v) (c : Consumer) :
    SameBut k { w with others := Function.update w.others k c } v :=
  ⟨h.terminal, h.renderer, fun j hj => by
    rw [h.others j hj]
    exact (Function.update_of_ne hj ..).symm, h.lastReset⟩

theorem SameBut.update (h : SameBut k w v) (j : κ) (c : Consumer) :
    SameBut k { w with others := Function.update w.others j c }
      { v with others := Function.update v.others j c } := by
  refine ⟨h.terminal, h.renderer, ?_, h.lastReset⟩
  intro i hi
  change Function.update v.others j c i = Function.update w.others j c i
  by_cases hij : i = j
  · subst hij
    rw [Function.update_self, Function.update_self]
  · rw [Function.update_of_ne hij, Function.update_of_ne hij]
    exact h.others i hi

theorem SameBut.drop (h : SameBut k w v) (ha : a.isSnapshotFor k = true)
    (hstep : sharedStep E hash w a = some w') : SameBut k w' v := by
  cases a with
  | captureAll j =>
    have hj : j = k := of_decide_eq_true ha
    subst hj
    simp only [sharedStep] at hstep
    split at hstep
    · cases hstep
    · cases hstep
      exact h.update_left _
  | encodeAll j =>
    have hj : j = k := of_decide_eq_true ha
    subst hj
    simp only [sharedStep] at hstep
    split at hstep
    · cases hstep
    · cases hstep
      exact h.update_left _
  | parse term | scroll lines | scrollToBottom | resize size | capture | encode => cases ha

theorem SameBut.keep (h : SameBut k w v) (ha : a.isSnapshotFor k = false)
    (hstep : sharedStep E hash w a = some w') :
    ∃ v', sharedStep E hash v a = some v' ∧ SameBut k w' v' := by
  cases a with
  | parse term =>
    cases hstep
    exact ⟨_, rfl, by rw [h.terminal], h.renderer, h.others, h.lastReset⟩
  | scroll lines =>
    cases hstep
    exact ⟨_, rfl, by rw [h.terminal], h.renderer, h.others, h.lastReset⟩
  | scrollToBottom =>
    cases hstep
    exact ⟨_, rfl, by rw [h.terminal], h.renderer, h.others, h.lastReset⟩
  | resize size =>
    cases hstep
    exact ⟨_, rfl, by rw [h.terminal], h.renderer, h.others, h.lastReset⟩
  | capture =>
    simp only [sharedStep] at hstep ⊢
    rw [h.renderer, h.terminal]
    split at hstep
    · cases hstep
    case h_2 hraw =>
      cases hstep
      exact ⟨_, rfl, rfl, rfl, h.others, rfl⟩
  | encode =>
    simp only [sharedStep] at hstep ⊢
    rw [h.renderer]
    split at hstep
    · cases hstep
    case h_2 hraw =>
      cases hstep
      exact ⟨_, rfl, h.terminal, rfl, h.others, h.lastReset⟩
  | captureAll j =>
    have hj : j ≠ k := of_decide_eq_false ha
    simp only [sharedStep] at hstep ⊢
    rw [h.others j hj, h.terminal]
    split at hstep
    · cases hstep
    case h_2 hraw =>
      cases hstep
      exact ⟨_, rfl, rfl, h.renderer, (h.update j _).others, h.lastReset⟩
  | encodeAll j =>
    have hj : j ≠ k := of_decide_eq_false ha
    simp only [sharedStep] at hstep ⊢
    rw [h.others j hj]
    split at hstep
    · cases hstep
    case h_2 hraw =>
      cases hstep
      exact ⟨_, rfl, h.update j _⟩

theorem run_without_snapshots (k : κ) {acts : List (SharedAction ε κ)}
    (hrun : run (sharedStep E hash) w acts = some w') :
    ∃ v, run (sharedStep E hash) w (acts.filter fun a => !a.isSnapshotFor k) = some v ∧
      SameBut k w' v := by
  refine run_filter (SameBut k) _ ?_ ?_ (SameBut.refl k w) hrun
  · intro s t a s' hst hkeep hstep
    exact hst.keep (by simpa using hkeep) hstep
  · intro s t a s' hst hkeep hstep
    exact hst.drop (by simpa using hkeep) hstep

end Shared

/-! ## Runs -/

def Consumer.Exact (c : Consumer) : Prop :=
  c.frames ≠ [] → ∃ p, c.seen = some p ∧ c.view.Shows p

theorem Consumer.Good.exact {c : Consumer} (h : c.Good hash streams) : c.Exact := by
  intro hframes
  obtain ⟨p, hp⟩ := Option.isSome_iff_exists.mp (h.sent hframes)
  exact ⟨p, hp, h.shows p hp⟩

theorem Shared.frames_reconstruct [DecidableEq κ] {E : Emulator ε} (hE : E.DamageKeepsRows)
    (hd : Distinguishes hash streams) (t : Terminal ε) {acts : List (SharedAction ε κ)}
    {w : Shared ε κ} (hmeets : Meets (sharedStep E hash) (Reported E streams) (start t) acts)
    (hrun : run (sharedStep E hash) (start t) acts = some w) :
    w.renderer.Exact ∧ (∀ k, (w.others k).Exact) ∧
      (∀ k, ∃ v, run (sharedStep E hash) (start t) (acts.filter fun a => !a.isSnapshotFor k) =
        some v ∧ SameBut k w v) ∧
      (∀ r r', hashStream r = hashStream r' ↔ r.map Cell.packed = r'.map Cell.packed) ∧
      ∀ r r', hashStream r = hashStream r' → spans r = spans r' ∧ wrapped r = wrapped r' := by
  have hinv : Inv E hash streams w :=
    run_invariant_of_meets (Inv E hash streams)
      (fun _ _ _ hi hreported hstep => hi.step hE hd hreported hstep) (inv_start E t) hmeets hrun
  refine ⟨hinv.renderer.exact, fun k => (hinv.others k).exact,
    fun k => run_without_snapshots k hrun, fun _ _ => hashStream_eq_iff, ?_⟩
  intro r r' hstream
  have hpacked := hashStream_eq_iff.mp hstream
  exact ⟨by rw [spans, spans, spansLoop_congr hpacked], wrapped_congr hpacked⟩

/-! ## An emulator -/

structure SipState where
  v0 : UInt64
  v1 : UInt64
  v2 : UInt64
  v3 : UInt64

namespace SipState

def rotl (x : UInt64) (n : UInt64) : UInt64 := (x <<< n) ||| (x >>> (64 - n))

def new : SipState :=
  ⟨0x736f6d6570736575, 0x646f72616e646f6d, 0x6c7967656e657261, 0x7465646279746573⟩

def round (s : SipState) : SipState :=
  let v0 := s.v0 + s.v1
  let v2 := s.v2 + s.v3
  let v1 := rotl s.v1 13 ^^^ v0
  let v3 := rotl s.v3 16 ^^^ v2
  let v0 := rotl v0 32
  let v2 := v2 + v1
  let v0 := v0 + v3
  ⟨v0, rotl v1 17 ^^^ v2, rotl v2 32, rotl v3 21 ^^^ v0⟩

def word (s : SipState) (m : UInt64) : SipState :=
  let s := round { s with v3 := s.v3 ^^^ m }
  { s with v0 := s.v0 ^^^ m }

def leWord (bytes : List UInt8) : UInt64 :=
  bytes.foldr (fun b acc => acc <<< 8 ||| b.toUInt64) 0

def words (length : UInt64) : SipState → List UInt8 → SipState
  | s, b0 :: b1 :: b2 :: b3 :: b4 :: b5 :: b6 :: b7 :: rest =>
    words length (s.word (leWord [b0, b1, b2, b3, b4, b5, b6, b7])) rest
  | s, rest => s.word (leWord rest ||| length <<< 56)

def finish (s : SipState) : UInt64 :=
  let s := ({ s with v2 := s.v2 ^^^ 0xff }).round.round.round
  s.v0 ^^^ s.v1 ^^^ s.v2 ^^^ s.v3

end SipState

def sipHash13 (bytes : List UInt8) : UInt64 :=
  (SipState.new.words bytes.length.toUInt64 bytes).finish

example : sipHash13 [] = 15130871412783076140 := by decide +kernel

/-- A grid with its history: the last `lines` rows are the active area. -/
structure Grid where
  columns : Nat
  lines : Nat
  rows : List (List Cell)
  offset : Nat
  cursor : Point
  full : Bool
  changed : List Nat

namespace Grid

def scrollTo (g : Grid) (offset : Nat) : Grid :=
  if offset = g.offset then g
  else
    { g with
      offset := offset
      full := true }

def emulator : Emulator Grid where
  columns := columns
  screenLines := lines
  displayOffset := offset
  row g line := g.rows.getD (line + (g.rows.length - g.lines)).toNat []
  cursorPoint := cursor
  showCursor _ := true
  damage g := (if g.full then .full else .part ((g.cursor.line.toNat + g.offset) :: g.changed), g)
  resetDamage g :=
    { g with
      full := false
      changed := [] }
  scrollDisplay g
    | .delta lines => g.scrollTo (min (g.offset + lines).toNat (g.rows.length - g.lines))
    | .bottom => g.scrollTo 0
  resize g size :=
    { g with
      columns := size.columns
      lines := size.screenLines
      full := true }

def text (s : String) : List Cell := s.toList.map (plainCell · ⟨0⟩)

def start : Terminal Grid where
  term := ⟨2, 1, [text "ab", text "cd"], 0, ⟨0, 0⟩, true, []⟩
  size := ⟨2, 1, 10⟩
  generation := 0

def write (s : String) : SharedAction Grid Unit :=
  .parse ⟨2, 1, [text "ab", text s], 0, ⟨0, 1⟩, false, [0]⟩

/-- A snapshot is taken between a change and the frame for it, and the row changes again before that
frame is encoded. -/
def session : List (SharedAction Grid Unit) :=
  [.capture, .encode, write "xy", .captureAll (), .capture, write "zz", .encode, .encodeAll (),
    .scroll 1, .capture, .encode, .resize ⟨2, 2, 10⟩, .scrollToBottom, .capture, .encode,
    .capture, .encode]

def shown : List (List UInt8) := ["ab", "cd", "xy", "zz"].map fun s => hashStream (text s)

end Grid

theorem Grid.distinguishes_shown : Distinguishes sipHash13 Grid.shown :=
  ⟨by decide +kernel, by decide +kernel⟩

theorem Grid.reported_session : Meets (sharedStep Grid.emulator sipHash13)
    (Reported Grid.emulator Grid.shown) (Shared.start Grid.start) Grid.session := by
  decide +kernel

theorem Shared.frames_reconstruct_session :
    ∃ w, run (sharedStep Grid.emulator sipHash13) (start Grid.start) Grid.session = some w ∧
      w.renderer.frames.map (fun f => f.rows.map RowFrame.line) = [[0], [0], [0], [0, 1], []] ∧
      w.renderer.Exact ∧ (w.others ()).Exact := by
  have hsession : ((run (sharedStep Grid.emulator sipHash13) (start Grid.start)
      Grid.session).any fun w => w.renderer.frames.map (fun f => f.rows.map RowFrame.line) =
        [[0], [0], [0], [0, 1], []]) = true := by decide +kernel
  obtain ⟨w, hrun, hlines⟩ := (Option.any_eq_true _ _).mp hsession
  have hexact := frames_reconstruct (fun _ _ => rfl) Grid.distinguishes_shown Grid.start
    Grid.reported_session hrun
  exact ⟨w, hrun, of_decide_eq_true hlines, hexact.1, hexact.2.1 ()⟩

end Vingilot.Terminal
