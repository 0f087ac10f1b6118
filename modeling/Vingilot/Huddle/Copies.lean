import Vingilot.Huddle.Delivery

/-!
# Media over a whole call

Each kind of step keeps the copies of a frame in balance. When nothing is on its way any more, each
participant has got as many copies of a frame as the pod he is on makes of it.
-/

namespace Vingilot.Huddle

open Tunnel (RuntimeId FencedHeader)
open Machine

variable {w w' : Mesh} {l : Layout}

theorem Mesh.inFlight_concat {d : RuntimeId × MeshDatagram} (h : w'.network = w.network ++ [d])
    (pod : RuntimeId) (x : Bytes) :
    w'.inFlight pod x = w.inFlight pod x + if d.1 = pod ∧ d.2.payload = x then 1 else 0 := by
  rw [inFlight, inFlight, h, List.countP_append, List.countP_singleton]
  simp

theorem Mesh.inFlight_erase {n : Nat} {d : RuntimeId × MeshDatagram} (hn : w.network[n]? = some d)
    (h : w'.network = w.network.eraseIdx n) (pod : RuntimeId) (x : Bytes) :
    w.inFlight pod x = w'.inFlight pod x + if d.1 = pod ∧ d.2.payload = x then 1 else 0 := by
  obtain ⟨hlt, hd⟩ := List.getElem?_eq_some_iff.mp hn
  have hperm := List.getElem_cons_eraseIdx_perm hlt
  rw [inFlight, inFlight, h, ← hperm.countP_eq, List.countP_cons, hd]
  simp

structure Mesh.Fans (w w' : Mesh) (pod : RuntimeId) (a : UInt8) (f : Bytes) : Prop where
  fenced : w'.fenced = w.fenced
  sinks : w'.sinks = w.sinks
  sessions : w'.sessions = w.sessions
  heard : w'.heard = w.heard
  room : ∀ q, w'.room q =
    if q = pod then (w.room pod).deliverPrefixed a (a :: f) else w.room q
  lost : w'.lost = (w.lost || (w.room pod).overflows fun p => p.peerIndex = a)

variable {x : Participant}

namespace Mesh.Fans

variable {pod : RuntimeId} {a : UInt8} {f : Bytes}

theorem owner (hf : w.Fans w' pod a f) : w'.owner = w.owner :=
  congrArg FencedHeader.ownerRuntimeId hf.fenced

theorem layout (hf : w.Fans w' pod a f) : w'.layout = w.layout := by
  refine Mesh.layout_of_seats hf.fenced (Mesh.seats_of_room hf.room (Room.seats_fanOut ..)) ?_ ?_
  · intro id
    rw [hf.sinks]
  · intro p
    rw [hf.sessions]

theorem room_at (hf : w.Fans w' pod a f) (x : Participant) : w'.room x.1 =
    if x.1 = pod then (w.room pod).deliverPrefixed a (a :: f) else w.room x.1 := hf.room x.1

theorem others (hf : w.Fans w' pod a f) (hplaced : w.layout.Placed) (hx : w.layout.Sits x)
    (hothers : ∀ y ∈ w.puts x, ∃ b g, y = b :: g ∧ b ≠ w.layout.index x) :
    ∀ y ∈ w'.puts x, ∃ b g, y = b :: g ∧ b ≠ w.layout.index x := by
  rw [Mesh.puts, hf.heard, hf.room_at]
  exact Mesh.others_fan hplaced hx hothers

theorem count_owner (hf : w.Fans w' w.owner a f) (hplaced : w.layout.Placed)
    (hlost : w'.lost = false) (hx : w.layout.Sits x) {b : UInt8} (hb : b ≠ w.layout.index x)
    (g : Bytes) : (w'.puts x).count (b :: g) + w'.queuedTo x.1 (b :: g) =
      (w.puts x).count (b :: g) + w.queuedTo x.1 (b :: g) +
        if a :: f = b :: g then w.layout.copies x.1 b else 0 := by
  have hfull := (Bool.or_eq_false_iff.mp (hf.lost.symm.trans hlost)).2
  have hcount := Mesh.count_fan_owner (f := f) hplaced hfull hx hb g
  rw [Mesh.room_setRoom, ← hf.room x.1] at hcount
  rw [← hcount, Mesh.queuedTo, hf.layout, hf.owner, hf.room, if_pos rfl, Mesh.puts, hf.heard]

theorem count_other (hf : w.Fans w' pod a f) (hpod : pod ≠ w.owner) (hplaced : w.layout.Placed)
    (hlost : w'.lost = false) (hx : w.layout.Sits x) {b : UInt8} (hb : b ≠ w.layout.index x)
    (g : Bytes) : (w'.puts x).count (b :: g) =
        (w.puts x).count (b :: g) + (if pod = x.1 ∧ a :: f = b :: g then 1 else 0) ∧
      w'.queuedTo x.1 (b :: g) = w.queuedTo x.1 (b :: g) := by
  have hfull := (Bool.or_eq_false_iff.mp (hf.lost.symm.trans hlost)).2
  constructor
  · rw [← Mesh.count_fan_other hplaced hfull hx hb g, Mesh.puts, hf.heard, hf.room_at]
  · rw [Mesh.queuedTo, hf.layout, hf.owner, hf.room, if_neg hpod.symm]
    rfl

end Mesh.Fans

variable {p : AudioPeer}

namespace Mesh.Steady

theorem of_fans (h : w.Steady l) {pod : RuntimeId} {a : UInt8} {f : Bytes}
    (hf : w.Fans w' pod a f) (hnetwork : ∀ d ∈ w'.network, d.2.fenced = w.fenced)
    (hfloors : ∀ pod seen, w'.floors.get? pod = some seen → ∀ known,
      seen.get? w.fenced.sessionId = some known → known ≤ w.fenced.generation)
    (hsits : ∀ s ∈ w'.sent, l.Sits s.1) : w'.Steady l := by
  refine ⟨hf.layout.trans h.layout, h.placed, ?_, ?_, ?_, ?_, hsits, ?_⟩
  · rw [hf.fenced]
    exact hnetwork
  · rw [hf.sinks, hf.fenced]
    exact h.sinks
  · rw [hf.sessions, hf.fenced, hf.owner]
    exact h.sessions
  · rw [hf.fenced]
    exact hfloors
  · intro x hx
    have hplaced := h.placed
    have hothers := h.others x hx
    rw [← h.layout] at hx hplaced hothers ⊢
    exact hf.others hplaced hx hothers

theorem seat (h : w.Steady l) (hp : (w.room x.1).find? x.2 = some p) :
    (x.2, p.peerIndex) ∈ l.seats x.1 := by
  rw [← h.layout]
  exact Room.mem_seats hp

theorem index_eq (h : w.Steady l) (hp : (w.room x.1).find? x.2 = some p) :
    l.index x = p.peerIndex :=
  h.placed.index_eq (h.seat hp)

end Mesh.Steady

variable {peerId : Uuid} {frame : Bytes}

namespace Mesh.Speaks

theorem send_remote (h : w.Speaks l) {pod : RuntimeId} {session : RemoteHuddleSession}
    (hsession : w.sessions.get? (pod, peerId) = some session)
    (hw' : w' = { w with
      sent := w.sent ++ [((pod, peerId), frame)]
      network := w.network ++
        [(session.owner, mediaDatagram session.peerIndex session.fenced session.seq frame)]
      sessions := w.sessions.set (pod, peerId) { session with seq := session.seq + 1 } }) :
    w'.Speaks l := by
  obtain ⟨hfenced, howner⟩ := h.sessions _ _ hsession
  have hindexOf : l.indexOf (pod, peerId) = some session.peerIndex := by
    rw [← h.layout]
    exact congrArg (Option.map (·.peerIndex)) hsession
  obtain ⟨hpod, hseat⟩ := (h.placed.sessions pod peerId _).mp hindexOf
  have hsits : l.Sits (pod, peerId) :=
    ⟨List.mem_map.mpr ⟨_, hseat, rfl⟩, fun heq => absurd heq hpod⟩
  have hlayout : w'.layout = w.layout := by
    refine Mesh.layout_of_seats (by rw [hw']) (fun q => by rw [hw']; rfl) (fun id => by rw [hw']) ?_
    · intro p
      rw [hw', Table.get?_set]
      split_ifs with hp
      · rw [hp, hsession]
        rfl
      · rfl
  refine ⟨⟨hlayout.trans h.layout, h.placed, ?_, ?_, ?_, ?_, ?_, ?_⟩, ?_⟩
  · rw [hw']
    intro d hd
    rcases List.mem_append.mp hd with hd | hd
    · exact h.network d hd
    · rw [List.mem_singleton] at hd
      rw [hd]
      exact hfenced
  · rw [hw']
    exact h.sinks
  · rw [hw']
    intro p s hs
    rw [Table.get?_set] at hs
    split_ifs at hs
    · cases hs
      exact ⟨hfenced, howner⟩
    · exact h.sessions p s hs
  · rw [hw']
    exact h.floors
  · rw [hw']
    intro s hs
    rcases List.mem_append.mp hs with hs | hs
    · exact h.sits s hs
    · rw [List.mem_singleton] at hs
      rw [hs]
      exact hsits
  · rw [hw']
    exact h.others
  · intro hlost x hx a f ha
    rw [hlayout] at hx ha ⊢
    have hold := h.balanced (by rwa [hw'] at hlost) x hx a f ha
    have hprefixed : w.layout.prefixed ((pod, peerId), frame) = session.peerIndex :: frame := by
      rw [h.layout, Layout.prefixed, h.placed.index_eq hseat]
    have hnetwork : w'.network = w.network ++ [(session.owner,
        mediaDatagram session.peerIndex session.fenced session.seq frame)] := by rw [hw']
    have hflight := fun q => Mesh.inFlight_concat hnetwork q (a :: f)
    have hputs : w'.puts x = w.puts x := by rw [hw']; rfl
    have hqueued : w'.queuedTo x.1 (a :: f) = w.queuedTo x.1 (a :: f) := by
      rw [Mesh.queuedTo, hlayout, hw']
      rfl
    have hsame : w'.owner = w.owner := by rw [hw']; rfl
    have hsent : (w'.sent.map w.layout.prefixed).count (a :: f) =
        (w.sent.map w.layout.prefixed).count (a :: f) +
          if session.peerIndex :: frame = a :: f then 1 else 0 := by
      rw [hw', List.map_append, List.count_append, List.map_singleton, hprefixed,
        List.count_singleton]
      simp
    rw [hputs, hqueued, hsame, hflight, hflight, hsent, howner, Nat.add_mul, Nat.add_mul, ← hold,
      mediaDatagram]
    by_cases hx' : x.1 = w.owner
    · rw [if_pos hx', if_pos hx']
      simp [Nat.add_assoc]
    · have hne : ¬ (w.owner = x.1 ∧ session.peerIndex :: frame = a :: f) := fun h => hx' h.1.symm
      rw [if_neg hx', if_neg hx', if_neg hne]
      simp [Nat.add_assoc]

theorem send_local (h : w.Speaks l) {pod : RuntimeId} (hp : (w.room pod).find? peerId = some p)
    (hsession : w.sessions.get? (pod, peerId) = none)
    (hsink : pod = w.owner → w.sinks.get? peerId = none)
    (hw' : w' = { w.setRoom pod ((w.room pod).broadcastFrame peerId frame) with
      sent := w.sent ++ [((pod, peerId), frame)]
      lost := w.lost || (w.room pod).overflows fun p => p.peerId = peerId }) : w'.Speaks l := by
  have hseat := h.toSteady.seat (x := (pod, peerId)) hp
  have hidx := h.toSteady.index_eq (x := (pod, peerId)) hp
  have hpod : pod = w.owner := by
    by_contra hne
    have hindexOf := (h.placed.sessions pod peerId p.peerIndex).mpr
      ⟨fun heq => hne (heq.trans (congrArg Layout.owner h.layout).symm), hseat⟩
    rw [← h.layout] at hindexOf
    change (w.sessions.get? (pod, peerId)).map _ = _ at hindexOf
    rw [hsession] at hindexOf
    cases hindexOf
  subst hpod
  have hsits : l.Sits (w.owner, peerId) := by
    refine ⟨List.mem_map.mpr ⟨_, hseat, rfl⟩, fun _ => ?_⟩
    rw [← h.layout]
    exact congrArg (Option.map (·.dest)) (hsink rfl)
  have hplaced : w.layout.Placed := h.layout.symm ▸ h.placed
  obtain ⟨hfan, hfull⟩ := Room.broadcastFrame_eq (hplaced.ids w.owner) (hplaced.indices w.owner)
    hp frame
  have hf : w.Fans w' w.owner p.peerIndex frame := by
    rw [hw', hfan, hfull]
    exact ⟨rfl, rfl, rfl, rfl, fun q => Mesh.room_setRoom .., rfl⟩
  refine ⟨h.toSteady.of_fans hf ?_ ?_ ?_, ?_⟩
  · rw [hw']
    exact h.network
  · rw [hw']
    exact h.floors
  · rw [hw']
    intro s hs
    rcases List.mem_append.mp hs with hs | hs
    · exact h.sits s hs
    · rw [List.mem_singleton] at hs
      rw [hs]
      exact hsits
  · intro hlost x hx a f ha
    rw [hf.layout] at hx ha ⊢
    have hold := h.balanced (Bool.or_eq_false_iff.mp (hf.lost.symm.trans hlost)).1 x hx a f ha
    have hflight : ∀ q, w'.inFlight q (a :: f) = w.inFlight q (a :: f) := by
      intro q
      rw [Mesh.inFlight, hw']
      rfl
    have hprefixed : w.layout.prefixed ((w.owner, peerId), frame) = p.peerIndex :: frame := by
      rw [h.layout, Layout.prefixed, hidx]
    have hsent : (w'.sent.map w.layout.prefixed).count (a :: f) =
        (w.sent.map w.layout.prefixed).count (a :: f) +
          if p.peerIndex :: frame = a :: f then 1 else 0 := by
      rw [hw', List.map_append, List.count_append, List.map_singleton, hprefixed,
        List.count_singleton]
      simp
    rw [hf.count_owner hplaced hlost hx ha, hflight, hflight, hf.owner, hsent, Nat.add_mul, ← hold]
    by_cases heq : p.peerIndex :: frame = a :: f
    · rw [if_pos heq, if_pos heq, Nat.one_mul]
      omega
    · rw [if_neg heq, if_neg heq, Nat.zero_mul]
      omega

theorem arrive (h : w.Speaks l) {n : Nat} {pod : RuntimeId} {d : MeshDatagram}
    (hn : w.network[n]? = some (pod, d)) (hforeign : pod ∉ w.foreign)
    (hw' : w' = onMediaDatagram { w with network := w.network.eraseIdx n } pod d) :
    w'.Speaks l := by
  obtain ⟨w₁, hw₁⟩ : ∃ w₁ : Mesh, w₁ = { w with network := w.network.eraseIdx n } := ⟨_, rfl⟩
  have hlayout₁ : w₁.layout = w.layout := by rw [hw₁]; rfl
  have hforeign₁ : pod ∉ w₁.foreign := by rwa [hw₁]
  have hnetwork₁ : w₁.network = w.network.eraseIdx n := by rw [hw₁]
  have hflight₁ := Mesh.inFlight_erase hn hnetwork₁
  have hsteady₁ : w₁.Steady l := by
    rw [hw₁]
    exact ⟨h.layout, h.placed, fun e he => h.network e (List.mem_of_mem_eraseIdx he), h.sinks,
      h.sessions, h.floors, h.sits, h.others⟩
  have hbalanced₁ : w₁.lost = false → ∀ x, w.layout.Sits x → ∀ a f, a ≠ w.layout.index x →
      (w₁.puts x).count (a :: f) + w₁.queuedTo x.1 (a :: f) +
          (if x.1 = w₁.owner then 0 else w.inFlight x.1 (a :: f)) +
          w.inFlight w₁.owner (a :: f) * w.layout.copies x.1 a =
        (w₁.sent.map w.layout.prefixed).count (a :: f) * w.layout.copies x.1 a := by
    rw [hw₁]
    exact h.balanced
  have hfenced : d.fenced = w₁.fenced := by
    rw [hw₁]
    exact h.network _ (List.mem_of_getElem? hn)
  rw [← hw₁] at hw'
  clear hw₁
  obtain ⟨hsame, hfloors, hcase⟩ := onMediaDatagram_spec hforeign₁ hfenced hsteady₁.floors
  rw [← hw'] at hsame hfloors hcase
  clear hw'
  have hflight : ∀ q y, w'.inFlight q y = w₁.inFlight q y := by
    intro q y
    rw [Mesh.inFlight, hsame.network]
    rfl
  rcases hcase with ⟨hpayload, hroom, hlost⟩ | ⟨b, g, hpayload, hroom, hlost⟩
  · -- An empty datagram is dropped.
    have hputs : ∀ x, w'.puts x = w₁.puts x := by
      intro x
      rw [Mesh.puts, hsame.heard, hroom]
      rfl
    have howner : w'.owner = w₁.owner := congrArg FencedHeader.ownerRuntimeId hsame.fenced
    have hlayout : w'.layout = w₁.layout := by
      refine Mesh.layout_of_seats hsame.fenced (fun q => by rw [hroom]) ?_ ?_
      · intro id
        rw [hsame.sinks]
      · intro p
        rw [hsame.sessions]
    refine ⟨⟨hlayout.trans hsteady₁.layout, h.placed, ?_, ?_, ?_, ?_, ?_, ?_⟩, ?_⟩
    · rw [hsame.network, hsame.fenced]
      exact hsteady₁.network
    · rw [hsame.sinks, hsame.fenced]
      exact hsteady₁.sinks
    · rw [hsame.sessions, hsame.fenced, howner]
      exact hsteady₁.sessions
    · rw [hsame.fenced]
      exact hfloors
    · rw [hsame.sent]
      exact hsteady₁.sits
    · intro x hx
      rw [hputs]
      exact hsteady₁.others x hx
    · intro hlost' x hx a f ha
      rw [hlayout, hlayout₁] at hx ha ⊢
      have hold := hbalanced₁ (hlost.symm.trans hlost') x hx a f ha
      have hqueued : w'.queuedTo x.1 (a :: f) = w₁.queuedTo x.1 (a :: f) := by
        rw [Mesh.queuedTo, hlayout, howner, hroom]
        rfl
      have hnone : ∀ q, w.inFlight q (a :: f) = w₁.inFlight q (a :: f) := by
        intro q
        rw [hflight₁, hpayload]
        simp
      rw [hnone, hnone] at hold
      rw [hputs, hqueued, howner, hflight, hflight, hsame.sent, hold]
  · have hf : w₁.Fans w' pod b g :=
      ⟨hsame.fenced, hsame.sinks, hsame.sessions, hsame.heard, hroom, hlost⟩
    refine ⟨hsteady₁.of_fans hf ?_ hfloors ?_, ?_⟩
    · rw [hsame.network]
      exact hsteady₁.network
    · rw [hsame.sent]
      exact hsteady₁.sits
    · intro hlost' x hx a f ha
      have hplaced₁ : w₁.layout.Placed := hsteady₁.layout.symm ▸ h.placed
      have hx₁ : w₁.layout.Sits x := by rwa [hf.layout] at hx
      have ha₁ : a ≠ w₁.layout.index x := by rwa [hf.layout] at ha
      rw [hf.layout, hlayout₁] at hx ha ⊢
      have hold := hbalanced₁ (Bool.or_eq_false_iff.mp (hlost.symm.trans hlost')).1 x hx a f ha
      rw [hflight₁, hflight₁, hpayload] at hold
      rw [hflight, hflight, hf.owner, hsame.sent, ← hold, Nat.add_mul]
      by_cases hpod : pod = w₁.owner
      · rw [hpod] at hf ⊢
        have hcount := hf.count_owner hplaced₁ hlost' hx₁ ha₁ f
        rw [hlayout₁] at hcount
        rw [hcount]
        by_cases hx' : x.1 = w₁.owner
        · rw [if_pos hx', if_pos hx']
          by_cases heq : b :: g = a :: f
          · simp [heq]
            omega
          · simp [heq]
        · have hne : ¬ (w₁.owner = x.1 ∧ b :: g = a :: f) := fun h => hx' h.1.symm
          rw [if_neg hx', if_neg hx', if_neg hne]
          by_cases heq : b :: g = a :: f
          · simp [heq]
            omega
          · simp [heq]
      · obtain ⟨hcount, hqueued⟩ := hf.count_other hpod hplaced₁ hlost' hx₁ ha₁ f
        have hne : ¬ (pod = w₁.owner ∧ b :: g = a :: f) := fun h => hpod h.1
        rw [hcount, hqueued, if_neg hne]
        by_cases hx' : x.1 = w₁.owner
        · have hne' : ¬ (pod = x.1 ∧ b :: g = a :: f) := fun h => hpod (h.1.trans hx')
          rw [if_pos hx', if_pos hx', if_neg hne']
          simp
        · rw [if_neg hx', if_neg hx']
          simp
          omega

theorem pump (h : w.Speaks l) {reg : Uuid} {sink : Sink} {rest : List Bytes}
    (hsink : w.sinks.get? reg = some sink) (hp : (w.room w.owner).find? reg = some p)
    (haudio : p.audio = frame :: rest)
    (hw' : w' = { w.setRoom w.owner ((w.room w.owner).take reg) with
      network := w.network ++ [(sink.dest, ⟨sink.fenced, sink.seq, frame⟩)]
      sinks := w.sinks.set reg { sink with seq := sink.seq + 1 } }) : w'.Speaks l := by
  have hroom : ∀ q, w'.room q = if q = w.owner then (w.room w.owner).take reg else w.room q := by
    intro q
    rw [hw']
    exact Mesh.room_setRoom ..
  have hlayout : w'.layout = w.layout := by
    refine Mesh.layout_of_seats (by rw [hw']; rfl) (Mesh.seats_of_room hroom (Room.seats_take ..))
      ?_ ?_
    · intro id
      rw [hw']
      change (Option.map _ ((w.sinks.set reg _).get? id)) = _
      rw [Table.get?_set]
      split_ifs with hid
      · rw [hid, hsink]
        rfl
      · rfl
    · rw [hw']
      exact fun _ => rfl
  have hplaced : w.layout.Placed := h.layout.symm ▸ h.placed
  have hsinkTo : w.layout.sinkTo reg = some sink.dest := congrArg (Option.map Sink.dest) hsink
  have hdest := (hplaced.sinks _ _ hsinkTo).1
  have howner : w'.owner = w.owner := by rw [hw']; rfl
  -- The queue of the sink is nobody's own.
  have hputs : ∀ x, w.layout.Sits x → w'.puts x = w.puts x := by
    intro x hx
    obtain ⟨q, hq, -⟩ := w.find?_of_sits hplaced hx
    rw [Mesh.puts, Mesh.puts, hroom, hw']
    congr 1
    split_ifs with hpod
    · have hne : x.2 ≠ reg := by
        intro heq
        rw [← heq, hx.2 hpod] at hsinkTo
        cases hsinkTo
      rw [hpod] at hq ⊢
      rw [Room.audioOf_take hq, if_neg hne, Room.audioOf, hq]
      rfl
    · rfl
  refine ⟨⟨hlayout.trans h.layout, h.placed, ?_, ?_, ?_, ?_, ?_, ?_⟩, ?_⟩
  · rw [hw']
    intro d hd
    rcases List.mem_append.mp hd with hd | hd
    · exact h.network d hd
    · rw [List.mem_singleton] at hd
      rw [hd]
      exact h.sinks _ _ hsink
  · rw [hw']
    intro id s hs
    change (w.sinks.set reg _).get? id = some s at hs
    rw [Table.get?_set] at hs
    split_ifs at hs
    · cases hs
      exact h.sinks reg sink hsink
    · exact h.sinks id s hs
  · rw [hw']
    exact h.sessions
  · rw [hw']
    exact h.floors
  · rw [hw']
    exact h.sits
  · intro x hx
    rw [hputs x (h.layout.symm ▸ hx)]
    exact h.others x hx
  · intro hlost x hx a f ha
    rw [hlayout] at hx ha ⊢
    have hold := h.balanced (by rwa [hw'] at hlost) x hx a f ha
    have hflight : ∀ q, w'.inFlight q (a :: f) = w.inFlight q (a :: f) +
        if sink.dest = q ∧ frame = a :: f then 1 else 0 := fun q =>
      Mesh.inFlight_concat (d := (sink.dest, ⟨sink.fenced, sink.seq, frame⟩)) (by rw [hw']) q _
    have hqueued : w'.queuedTo x.1 (a :: f) +
        (if sink.dest = x.1 ∧ frame = a :: f then 1 else 0) = w.queuedTo x.1 (a :: f) := by
      have htake := Room.queued_take (hplaced.ids w.owner) hp haudio
        (fun id => w.layout.sinkTo id = some x.1) (a :: f)
      rw [hsinkTo] at htake
      rw [Mesh.queuedTo, hlayout, howner, hroom, if_pos rfl, Mesh.queuedTo, ← htake]
      simp
    have hsent : w'.sent = w.sent := by rw [hw']; rfl
    have hne : ¬ (sink.dest = w.owner ∧ frame = a :: f) := fun h => hdest h.1
    rw [hputs x hx, hflight, hflight, howner, hsent, if_neg hne, Nat.add_zero, ← hold, ← hqueued]
    by_cases hx' : x.1 = w.owner
    · have hne' : ¬ (sink.dest = x.1 ∧ frame = a :: f) := fun h => hdest (h.1.trans hx')
      rw [if_pos hx', if_pos hx', if_neg hne', Nat.add_zero, Nat.add_zero,
        Nat.add_zero]
    · rw [if_neg hx', if_neg hx']
      omega

theorem hear (h : w.Speaks l) {pod : RuntimeId} {rest : List Bytes}
    (hsink : pod = w.owner → w.sinks.get? peerId = none) (hp : (w.room pod).find? peerId = some p)
    (haudio : p.audio = frame :: rest)
    (hw' : w' = { w.setRoom pod ((w.room pod).take peerId) with
      heard := w.heard.set (pod, peerId)
        ((w.heard.get? (pod, peerId)).getD [] ++ [frame]) }) : w'.Speaks l := by
  have hroom : ∀ q, w'.room q = if q = pod then (w.room pod).take peerId else w.room q := by
    intro q
    rw [hw']
    exact Mesh.room_setRoom ..
  have hlayout : w'.layout = w.layout := by
    refine Mesh.layout_of_seats (by rw [hw']; rfl) (Mesh.seats_of_room hroom (Room.seats_take ..))
      ?_ ?_
    · rw [hw']
      exact fun _ => rfl
    · rw [hw']
      exact fun _ => rfl
  have hplaced : w.layout.Placed := h.layout.symm ▸ h.placed
  have howner : w'.owner = w.owner := by rw [hw']; rfl
  have hputs : ∀ x, w.layout.Sits x → w'.puts x = w.puts x := by
    intro x hx
    obtain ⟨q, hq, -⟩ := w.find?_of_sits hplaced hx
    rw [Mesh.puts, Mesh.puts, hroom]
    by_cases hpod : x.1 = pod
    · have haudioOf : ((w.room pod).take peerId).audioOf x.2 =
          if x.2 = peerId then q.audio.tail else q.audio := Room.audioOf_take (hpod ▸ hq) peerId
      rw [if_pos hpod, haudioOf, hw']
      change ((w.heard.set _ _).get? x).getD [] ++ _ = _ ++ (w.room x.1).audioOf x.2
      rw [Room.audioOf, hq, Table.get?_set]
      by_cases hid : x.2 = peerId
      · have hx' : x = (pod, peerId) := Prod.ext hpod hid
        have hsame : q = p := by
          rw [hid, hpod, hp] at hq
          exact (Option.some.inj hq).symm
        rw [if_pos hx', if_pos hid, hsame, haudio, hx']
        simp [haudio]
      · rw [if_neg hid, if_neg fun heq => hid (congrArg Prod.snd heq)]
        rfl
    · rw [if_neg hpod, hw']
      change ((w.heard.set _ _).get? x).getD [] ++ _ = _
      rw [Table.get?_set, if_neg fun heq => hpod (congrArg Prod.fst heq)]
  refine ⟨⟨hlayout.trans h.layout, h.placed, ?_, ?_, ?_, ?_, ?_, ?_⟩, ?_⟩
  · rw [hw']
    exact h.network
  · rw [hw']
    exact h.sinks
  · rw [hw']
    exact h.sessions
  · rw [hw']
    exact h.floors
  · rw [hw']
    exact h.sits
  · intro x hx
    rw [hputs x (h.layout.symm ▸ hx)]
    exact h.others x hx
  · intro hlost x hx a f ha
    rw [hlayout] at hx ha ⊢
    have hold := h.balanced (by rwa [hw'] at hlost) x hx a f ha
    have hflight : ∀ q, w'.inFlight q (a :: f) = w.inFlight q (a :: f) := by
      intro q
      rw [Mesh.inFlight, hw']
      rfl
    have hqueued : w'.queuedTo x.1 (a :: f) = w.queuedTo x.1 (a :: f) := by
      rw [Mesh.queuedTo, hlayout, howner, hroom, Mesh.queuedTo]
      split_ifs with hpod
      · have hnone : w.layout.sinkTo peerId = none :=
          congrArg (Option.map Sink.dest) (hsink hpod.symm)
        have htake := Room.queued_take (hplaced.ids pod) hp haudio
          (fun id => w.layout.sinkTo id = some x.1) (a :: f)
        rw [hnone] at htake
        rw [hpod, ← htake]
        simp
      · rfl
    have hsent : w'.sent = w.sent := by rw [hw']; rfl
    rw [hputs x hx, hflight, hflight, howner, hsent, hqueued, hold]

theorem step (h : w.Speaks l) {a : Traffic} (hcond : w.Unambiguous a)
    (hstep : trafficStep w a = some w') : w'.Speaks l := by
  cases a with
  | send pod peerId frame =>
    simp only [trafficStep] at hstep
    split at hstep
    · cases hstep
    · next hguard =>
      rw [Bool.or_eq_true, not_or, Bool.and_eq_true, not_and, decide_eq_true_eq] at hguard
      obtain ⟨hpeer, hsink⟩ := hguard
      cases hsession : w.sessions.get? (pod, peerId) with
      | some session =>
        rw [hsession] at hstep
        exact h.send_remote hsession (Option.some.inj hstep).symm
      | none =>
        rw [hsession] at hstep
        obtain ⟨p, hp⟩ : ∃ p, (w.room pod).find? peerId = some p := by
          exact Option.ne_none_iff_exists'.mp (by simpa using hpeer)
        exact h.send_local hp hsession (by simpa using hsink) (Option.some.inj hstep).symm
  | pump registeredId =>
    simp only [trafficStep] at hstep
    split at hstep
    · next sink p hsink hp =>
      cases haudio : p.audio with
      | nil =>
        rw [haudio] at hstep
        cases hstep
      | cons frame rest =>
        rw [haudio] at hstep
        exact h.pump hsink hp haudio (Option.some.inj hstep).symm
    · cases hstep
  | arrive n =>
    simp only [trafficStep] at hstep
    split at hstep
    · cases hstep
    · next pod d hn => exact h.arrive hn (hcond _ hn) (Option.some.inj hstep).symm
  | lose n =>
    simp only [trafficStep] at hstep
    split_ifs at hstep
    cases hstep
    refine ⟨⟨h.layout, h.placed, fun d hd => h.network d (List.mem_of_mem_eraseIdx hd), h.sinks,
      h.sessions, h.floors, h.sits, h.others⟩, fun hlost => ?_⟩
    cases hlost
  | hear pod peerId =>
    simp only [trafficStep] at hstep
    split at hstep
    · cases hstep
    · next hsink =>
      rw [Bool.and_eq_true, not_and, decide_eq_true_eq] at hsink
      cases hp : (w.room pod).find? peerId with
      | none =>
        rw [hp] at hstep
        cases hstep
      | some p =>
        rw [hp] at hstep
        cases haudio : p.audio with
        | nil =>
          simp only [haudio] at hstep
          cases hstep
        | cons frame rest =>
          simp only [haudio] at hstep
          exact h.hear (by simpa using hsink) hp haudio (Option.some.inj hstep).symm
  | foreign pod present =>
    cases hstep
    exact ⟨⟨h.layout, h.placed, h.network, h.sinks, h.sessions, h.floors, h.sits, h.others⟩,
      h.balanced⟩

theorem run (h : w.Speaks l) {media : List Traffic}
    (hmeets : Meets trafficStep Mesh.Unambiguous w media)
    (hrun : Machine.run trafficStep w media = some w') : w'.Speaks l :=
  run_invariant_of_meets (Mesh.Speaks l) (fun _ _ _ hspeaks hcond hstep => hspeaks.step hcond hstep)
    h hmeets hrun

end Mesh.Speaks

/-! ## Who is who -/

namespace Layout.Placed

theorem owner_seat (h : l.Placed) (hx : l.Sits x) : ∃ reg, (reg, l.index x) ∈ l.seats l.owner ∧
      ((x.1 = l.owner ∧ reg = x.2 ∧ l.sinkTo reg = none) ∨
        x.1 ≠ l.owner ∧ l.sinkTo reg = some x.1) := by
  have hseat := h.mem_seats hx
  by_cases hpod : x.1 = l.owner
  · exact ⟨x.2, hpod ▸ hseat, Or.inl ⟨hpod, rfl, hx.2 hpod⟩⟩
  · have hmem : l.index x ∈ (l.seats x.1).map Prod.snd := List.mem_map.mpr ⟨_, hseat, rfl⟩
    rw [(h.mirror x.1 hpod).mem_iff, List.mem_map] at hmem
    obtain ⟨s, hs, hidx⟩ := hmem
    obtain ⟨howner, hsink⟩ := List.mem_filter.mp hs
    exact ⟨s.1, hidx ▸ howner, Or.inr ⟨hpod, by simpa using hsink⟩⟩

theorem index_inj (h : l.Placed) {y : Participant} (hx : l.Sits x) (hy : l.Sits y)
    (heq : l.index x = l.index y) : x = y := by
  obtain ⟨reg, hreg, hcase⟩ := h.owner_seat hx
  obtain ⟨reg', hreg', hcase'⟩ := h.owner_seat hy
  have hsame := List.inj_on_of_nodup_map (h.indices l.owner) hreg hreg' heq
  obtain rfl : reg = reg' := congrArg Prod.fst hsame
  rcases hcase with ⟨hpod, hid, hnone⟩ | ⟨hpod, hsink⟩
  · rcases hcase' with ⟨hpod', hid', -⟩ | ⟨-, hsink'⟩
    · exact Prod.ext (hpod.trans hpod'.symm) (hid.symm.trans hid')
    · rw [hnone] at hsink'
      cases hsink'
  · rcases hcase' with ⟨-, -, hnone'⟩ | ⟨-, hsink'⟩
    · rw [hsink] at hnone'
      cases hnone'
    · have hpods : x.1 = y.1 := Option.some.inj (hsink.symm.trans hsink')
      have hseat := h.mem_seats hx
      have hseat' := h.mem_seats hy
      rw [← heq, ← hpods] at hseat'
      have hids := List.inj_on_of_nodup_map (h.indices x.1) hseat hseat' rfl
      exact Prod.ext hpods (congrArg Prod.fst hids)

theorem sits_of_seat (h : l.Placed) {pod : RuntimeId} (hpod : pod ≠ l.owner) {t : Uuid × UInt8}
    (ht : t ∈ l.seats pod) : l.Sits (pod, t.1) ∧ l.index (pod, t.1) = t.2 :=
  ⟨⟨List.mem_map.mpr ⟨t, ht, rfl⟩, fun heq => absurd heq hpod⟩, h.index_eq ht⟩

theorem copies_eq (h : l.Placed) {pod : RuntimeId} (hpod : pod ≠ l.owner) {s : Participant}
    (hs : l.Sits s) :
    l.copies pod (l.index s) = ((l.seats pod).filter fun t => (pod, t.1) ≠ s).length := by
  have hmap := (h.mirror pod hpod).countP_eq fun i => decide (i ≠ l.index s)
  rw [List.countP_map, List.countP_map] at hmap
  rw [Layout.copies, if_neg hpod, ← List.countP_eq_length_filter]
  refine hmap.symm.trans (List.countP_congr fun t ht => ?_)
  obtain ⟨hsits, hidx⟩ := h.sits_of_seat hpod ht
  have hiff : t.2 = l.index s ↔ (pod, t.1) = s := by
    constructor
    · intro heq
      exact h.index_inj hsits hs (hidx.trans heq)
    · rintro rfl
      exact hidx.symm
  simp [hiff]

end Layout.Placed

/-! ## The whole call -/

def Traffic.spoken : Traffic → Option (Participant × Bytes)
  | .send pod peerId frame => some ((pod, peerId), frame)
  | _ => none

def Mesh.Settled (w : Mesh) : Prop :=
  w.network = [] ∧
    ∀ p ∈ (w.room w.owner).peers, (w.sinks.get? p.peerId).isSome = true → p.audio = []

/-- Each participant has been given every frame of the others once, after the index of its author,
and none of his own. -/
def DeliveredOnce (w₀ : Mesh) (media : List Traffic) (w : Mesh) : Prop :=
  ∀ x, w₀.layout.Sits x →
    (w.puts x).Perm (((media.filterMap Traffic.spoken).filter fun s => s.1 ≠ x).map
      w₀.layout.prefixed)

def Mesh.Spread (w₀ : Mesh) (media : List Traffic) : Prop :=
  ∀ s ∈ media.filterMap Traffic.spoken, ∀ pod, pod ≠ w₀.owner →
    ((w₀.layout.seats pod).filter fun t => (pod, t.1) ≠ s.1).length ≤ 1

theorem onMediaDatagram_sent (w : Mesh) (pod : RuntimeId) (d : MeshDatagram) :
    (onMediaDatagram w pod d).sent = w.sent := by
  unfold onMediaDatagram
  dsimp only
  split
  · rfl
  · split <;> rfl

theorem sent_trafficStep {a : Traffic} (h : trafficStep w a = some w') :
    w'.sent = w.sent ++ a.spoken.toList := by
  cases a with
  | send pod peerId frame =>
    simp only [trafficStep] at h
    split at h
    · cases h
    · split at h
      · cases h
        rfl
      · cases h
        rfl
  | pump registeredId =>
    simp only [trafficStep] at h
    split at h
    · split at h
      · cases h
      · cases h
        exact (List.append_nil _).symm
    · cases h
  | arrive n =>
    simp only [trafficStep] at h
    split at h
    · cases h
    · cases h
      rw [onMediaDatagram_sent]
      exact (List.append_nil _).symm
  | lose n =>
    simp only [trafficStep] at h
    split_ifs at h
    cases h
    exact (List.append_nil _).symm
  | hear pod peerId =>
    simp only [trafficStep] at h
    split at h
    · cases h
    · split at h
      · cases h
      · split at h
        · cases h
        · cases h
          exact (List.append_nil _).symm
  | foreign pod present =>
    cases h
    exact (List.append_nil _).symm

theorem sent_run {media : List Traffic} (h : run trafficStep w media = some w') :
    w'.sent = w.sent ++ media.filterMap Traffic.spoken := by
  induction media generalizing w with
  | nil =>
    cases h
    exact (List.append_nil _).symm
  | cons a media ih =>
    obtain ⟨w₁, hstep, hrest⟩ := run_cons_some.mp h
    rw [ih hrest, sent_trafficStep hstep, List.append_assoc]
    cases hspoken : a.spoken with
    | none => rw [List.filterMap_cons_none hspoken]; rfl
    | some s => rw [List.filterMap_cons_some hspoken]; rfl

theorem Mesh.Speaks.count_puts (h : w.Speaks l) (hsettled : w.Settled) (hlost : w.lost = false)
    (hx : l.Sits x) {a : UInt8} (ha : a ≠ l.index x) (f : Bytes) :
    (w.puts x).count (a :: f) = (w.sent.map l.prefixed).count (a :: f) * l.copies x.1 a := by
  obtain ⟨hnetwork, hsinks⟩ := hsettled
  have hflight : ∀ q, w.inFlight q (a :: f) = 0 := by
    intro q
    rw [inFlight, hnetwork]
    rfl
  have hqueued : w.queuedTo x.1 (a :: f) = 0 := by
    rw [queuedTo, Room.queued, List.sum_eq_zero]
    intro n hn
    obtain ⟨p, hp, rfl⟩ := List.mem_map.mp hn
    split_ifs with hsel
    · have hsome : (w.sinks.get? p.peerId).isSome = true := by
        rw [decide_eq_true_eq] at hsel
        change (w.sinks.get? p.peerId).map _ = _ at hsel
        obtain ⟨sink, hsink, -⟩ := Option.map_eq_some_iff.mp hsel
        rw [hsink]
        rfl
      rw [hsinks p hp hsome]
      rfl
    · rfl
  have hbalanced := h.balanced hlost
  rw [← h.layout] at hx ha ⊢
  have hcount := hbalanced x hx a f ha
  rw [hqueued, hflight, hflight, ite_self, Nat.zero_mul] at hcount
  exact hcount

theorem count_others {sent : List (Participant × Bytes)} {a : UInt8} (ha : a ≠ l.index x)
    (f : Bytes) : ((sent.filter fun s => s.1 ≠ x).map l.prefixed).count (a :: f) =
      (sent.map l.prefixed).count (a :: f) := by
  rw [List.count_eq_countP, List.count_eq_countP, List.countP_map, List.countP_map,
    List.countP_filter]
  refine List.countP_congr fun s _ => ?_
  rw [Function.comp_apply, beq_iff_eq, Bool.and_eq_true, beq_iff_eq, decide_eq_true_eq,
    and_iff_left_iff_imp]
  rintro hs rfl
  exact ha (List.cons.inj hs).1.symm

def demoPod (b : UInt8) : RuntimeId := .ofByte b

def demoFenced : FencedHeader := ⟨1, 1, demoPod 1⟩

def demoApart : List Membership :=
  [.join (demoPod 1) 10 110 "a" 2, .join (demoPod 2) 20 120 "b" 2, .join (demoPod 3) 30 130 "c" 2]

/-- Another community's room comes to the third pod and goes before the frame gets there. -/
def demoCall : List Traffic :=
  [.send (demoPod 2) 20 [5, 6], .foreign (demoPod 3) true, .arrive 0, .hear (demoPod 1) 10,
    .pump 130, .foreign (demoPod 3) false, .arrive 0, .hear (demoPod 3) 30]

def demoShared : List Membership :=
  [.join (demoPod 1) 10 110 "a" 2, .join (demoPod 2) 20 120 "b" 2, .join (demoPod 2) 21 121 "c" 2]

def demoTwice : List Traffic :=
  [.send (demoPod 1) 10 [5], .pump 120, .pump 121, .arrive 0, .arrive 0]

end Vingilot.Huddle
