import Mathlib.Algebra.Order.Ring.Int
import Mathlib.Algebra.BigOperators.Group.List.Basic
import Vingilot.Huddle.Placement

/-!
# How often a frame is delivered

The owner has one sink for each client of another pod, and that pod gives each datagram to all its
clients. So what a pod with several clients hears, each of them hears several times.
-/

namespace Vingilot.Huddle

open Tunnel (RuntimeId FencedHeader)
open Machine

/-! ## Queues of a room -/

variable {r : Room} {skip : AudioPeer → Bool} {p : AudioPeer} {q id : Uuid}

namespace Room

def queued (r : Room) (sel : Uuid → Bool) (x : Bytes) : Nat :=
  (r.peers.map fun p => if sel p.peerId then p.audio.count x else 0).sum

def audioOf (r : Room) (q : Uuid) : List Bytes := ((r.find? q).map (·.audio)).getD []

@[simp] theorem seats_fanOut (r : Room) (skip : AudioPeer → Bool) (x : Bytes) :
    (r.fanOut skip x).seats = r.seats := by
  rw [seats, seats, fanOut, List.map_map]
  refine List.map_congr_left fun p _ => ?_
  rw [Function.comp_apply]
  split_ifs <;> rfl

@[simp] theorem seats_take (r : Room) (q : Uuid) : (r.take q).seats = r.seats := by
  rw [seats, seats, take, List.map_map]
  refine List.map_congr_left fun p _ => ?_
  rw [Function.comp_apply]
  split_ifs <;> rfl

theorem find?_map (r : Room) (f : AudioPeer → AudioPeer) (hf : ∀ p, (f p).peerId = p.peerId)
    (q : Uuid) : Room.find? { r with peers := r.peers.map f } q = (r.find? q).map f := by
  rw [find?, find?, List.find?_map]
  congr 2
  funext p
  rw [Function.comp_apply, hf]

theorem trySend_of_lt {α : Type} {capacity : Nat} {queue : List α} (h : queue.length < capacity)
    (x : α) : trySend capacity queue x = queue ++ [x] := if_pos h

theorem length_lt_of_overflows (h : r.overflows skip = false) (hp : p ∈ r.peers)
    (hskip : skip p = false) : p.audio.length < audioChannelCapacity := by
  have hfull := List.any_eq_false.mp h p hp
  rw [hskip] at hfull
  simpa using hfull

theorem audioOf_fanOut (hp : r.find? q = some p) (x : Bytes) : (r.fanOut skip x).audioOf q =
      if skip p then p.audio else trySend audioChannelCapacity p.audio x := by
  have hid : ∀ p : AudioPeer, (if skip p then p else { p with
      audio := trySend audioChannelCapacity p.audio x }).peerId = p.peerId := by
    intro p
    split_ifs <;> rfl
  rw [audioOf, fanOut, find?_map r _ hid, hp]
  by_cases hskip : skip p = true
  · simp [hskip]
  · simp [hskip]

theorem audioOf_fanOut_of_overflows (h : r.overflows skip = false) (hp : r.find? q = some p)
    (x : Bytes) : (r.fanOut skip x).audioOf q = if skip p then p.audio else p.audio ++ [x] := by
  rw [audioOf_fanOut hp]
  by_cases hskip : skip p = true
  · rw [if_pos hskip, if_pos hskip]
  · have hlt := length_lt_of_overflows h (List.mem_of_find?_eq_some hp) (by simpa using hskip)
    rw [if_neg hskip, if_neg hskip, trySend_of_lt hlt]

theorem queued_fanOut (h : r.overflows skip = false) (sel : Uuid → Bool) (x y : Bytes) :
    (r.fanOut skip x).queued sel y =
      r.queued sel y +
        if x = y then r.peers.countP (fun p => sel p.peerId && !skip p) else 0 := by
  have hlt : ∀ p ∈ r.peers, skip p = false → p.audio.length < audioChannelCapacity :=
    fun p hp hskip => length_lt_of_overflows h hp hskip
  rw [queued, queued, fanOut]
  clear h
  dsimp only
  generalize r.peers = ps at hlt
  induction ps with
  | nil => simp
  | cons p ps ih =>
    have hrest := ih fun q hq => hlt q (List.mem_cons_of_mem p hq)
    rw [List.map_cons, List.map_cons, List.map_cons, List.sum_cons, List.sum_cons, List.countP_cons,
      hrest]
    by_cases hskip : skip p = true
    · rw [if_pos hskip]
      simp [hskip, Nat.add_assoc]
    · have hroom := trySend_of_lt (hlt p List.mem_cons_self (by simpa using hskip)) x
      rw [if_neg hskip, hroom]
      by_cases hsel : sel p.peerId = true
      · by_cases hxy : x = y
        · simp [hxy, hsel, hskip]
          omega
        · simp [hxy, hsel]
      · simp [hsel]

theorem audioOf_take (hp : r.find? q = some p) (id : Uuid) :
    (r.take id).audioOf q = if q = id then p.audio.tail else p.audio := by
  have hid : ∀ p : AudioPeer, (if p.peerId = id then { p with audio := p.audio.tail }
      else p).peerId = p.peerId := by
    intro p
    split_ifs <;> rfl
  rw [audioOf, take, find?_map r _ hid, hp, ← peerId_of_find? hp]
  by_cases hq : p.peerId = id
  · simp [hq]
  · simp [hq]

theorem queued_take {x : Bytes} {rest : List Bytes} (hnodup : (r.seats.map Prod.fst).Nodup)
    (hp : r.find? id = some p) (haudio : p.audio = x :: rest) (sel : Uuid → Bool) (y : Bytes) :
    (r.take id).queued sel y + (if sel id = true ∧ x = y then 1 else 0) = r.queued sel y := by
  have hmem := List.mem_of_find?_eq_some hp
  have hid := peerId_of_find? hp
  rw [seats, List.map_map] at hnodup
  rw [queued, queued, take]
  clear hp
  dsimp only
  generalize r.peers = ps at hmem hnodup
  induction ps with
  | nil => cases hmem
  | cons s ps ih =>
    rw [List.map_cons, List.nodup_cons] at hnodup
    rw [List.map_cons, List.map_cons, List.map_cons, List.sum_cons, List.sum_cons]
    rcases List.mem_cons.mp hmem with rfl | hps
    · -- Nobody else in the room has the id.
      have hsame : (ps.map fun q => if q.peerId = id then { q with audio := q.audio.tail } else q) =
          ps := by
        refine (List.map_congr_left fun q hq => ?_).trans (List.map_id ps)
        refine if_neg fun heq => hnodup.1 ?_
        exact List.mem_map.mpr ⟨q, hq, heq.trans hid.symm⟩
      rw [hsame, if_pos hid, haudio]
      by_cases hsel : sel id = true
      · by_cases hxy : x = y
        · simp [hid, hsel, hxy]
          omega
        · simp [hid, hsel, hxy]
      · simp [hid, hsel]
    · have hne : s.peerId ≠ id := by
        intro heq
        exact hnodup.1 (List.mem_map.mpr ⟨p, hps, hid.trans heq.symm⟩)
      rw [if_neg hne, Nat.add_assoc, ih hps hnodup.2]

end Room

/-! ## Counting the copies -/

def Mesh.puts (w : Mesh) (x : Participant) : List Bytes :=
  (w.heard.get? x).getD [] ++ (w.room x.1).audioOf x.2

def Layout.index (l : Layout) (x : Participant) : UInt8 :=
  (((l.seats x.1).find? fun s => s.1 = x.2).map Prod.snd).getD 0

def Layout.prefixed (l : Layout) (s : Participant × Bytes) : Bytes := l.index s.1 :: s.2

def Layout.Sits (l : Layout) (x : Participant) : Prop :=
  x.2 ∈ (l.seats x.1).map Prod.fst ∧ (x.1 = l.owner → l.sinkTo x.2 = none)

def Layout.copies (l : Layout) (pod : RuntimeId) (a : UInt8) : Nat :=
  if pod = l.owner then 1 else (l.mirrors pod).countP fun s => s.2 ≠ a

def Mesh.queuedTo (w : Mesh) (pod : RuntimeId) (x : Bytes) : Nat :=
  (w.room w.owner).queued (fun id => w.layout.sinkTo id = some pod) x

def Mesh.inFlight (w : Mesh) (pod : RuntimeId) (x : Bytes) : Nat :=
  w.network.countP fun d => d.1 = pod && d.2.payload = x

variable {pod : RuntimeId}

theorem Layout.Placed.index_eq {l : Layout} (h : l.Placed) {idx : UInt8}
    (hmem : (id, idx) ∈ l.seats pod) : l.index (pod, id) = idx := by
  rw [Layout.index]
  obtain ⟨s, hs⟩ : ∃ s, (l.seats pod).find? (fun s => s.1 = id) = some s := by
    rw [← Option.isSome_iff_exists, List.find?_isSome]
    exact ⟨(id, idx), hmem, by simp⟩
  have hid : s.1 = id := by simpa using List.find?_some hs
  have hsame := List.inj_on_of_nodup_map (h.ids pod) (List.mem_of_find?_eq_some hs) hmem hid
  rw [hs, hsame]
  rfl

variable {x : Participant}

theorem Layout.Placed.mem_seats {l : Layout} (h : l.Placed) (hx : l.Sits x) :
    (x.2, l.index x) ∈ l.seats x.1 := by
  obtain ⟨s, hs, hid⟩ := List.mem_map.mp hx.1
  have hmem : (x.2, s.2) ∈ l.seats x.1 := hid ▸ hs
  rw [show l.index x = s.2 from h.index_eq hmem]
  exact hmem

variable {w : Mesh}

theorem Mesh.find?_of_sits (hplaced : w.layout.Placed) (hx : w.layout.Sits x) :
    ∃ p, (w.room x.1).find? x.2 = some p ∧ p.peerIndex = w.layout.index x := by
  obtain ⟨p, hp⟩ := Option.isSome_iff_exists.mp (Room.mem_ids.mp hx.1)
  exact ⟨p, hp, (hplaced.index_eq (Room.mem_seats hp)).symm⟩

theorem Mesh.countP_mirrors (w : Mesh) (pod : RuntimeId) (a : UInt8) :
    (w.room w.owner).peers.countP
        (fun p => decide (w.layout.sinkTo p.peerId = some pod) && !decide (p.peerIndex = a)) =
      (w.layout.mirrors pod).countP fun s => s.2 ≠ a := by
  rw [Layout.mirrors, List.countP_filter]
  change _ = List.countP _ ((w.room w.owner).peers.map _)
  rw [List.countP_map]
  refine List.countP_congr fun p _ => ?_
  simp [and_comm]

variable {a : UInt8} {f : Bytes}

theorem Mesh.count_fan_owner (hplaced : w.layout.Placed)
    (hroom : (w.room w.owner).overflows (fun p => p.peerIndex = a) = false) (hx : w.layout.Sits x)
    {b : UInt8} (hb : b ≠ w.layout.index x) (g : Bytes) :
    (((w.heard.get? x).getD [] ++ ((w.setRoom w.owner
        ((w.room w.owner).deliverPrefixed a (a :: f))).room x.1).audioOf x.2).count (b :: g)) +
      ((w.room w.owner).deliverPrefixed a (a :: f)).queued
        (fun id => w.layout.sinkTo id = some x.1) (b :: g) =
      (w.puts x).count (b :: g) + w.queuedTo x.1 (b :: g) +
        if a :: f = b :: g then w.layout.copies x.1 b else 0 := by
  rw [Room.deliverPrefixed, Room.queued_fanOut hroom, Mesh.puts, Mesh.queuedTo, Mesh.room_setRoom,
    Mesh.countP_mirrors, Layout.copies]
  by_cases hpod : x.1 = w.owner
  · obtain ⟨p, hp, hidx⟩ := w.find?_of_sits hplaced hx
    have hnone : (w.layout.mirrors x.1).countP (fun s => s.2 ≠ a) = 0 := by
      rw [List.countP_eq_zero]
      intro s hs
      obtain ⟨-, hsink⟩ := List.mem_filter.mp hs
      exact absurd hpod (hplaced.sinks s.1 x.1 (by simpa using hsink)).1
    rw [if_pos hpod, hnone, ite_self, Nat.add_zero, if_pos (show x.1 = w.layout.owner from hpod)]
    rw [hpod] at hp
    rw [Room.audioOf_fanOut_of_overflows hroom hp, hpod, Room.audioOf, hp]
    simp only [decide_eq_true_eq, Option.map_some, Option.getD_some, List.count_append]
    by_cases hskip : p.peerIndex = a
    · have hne : a :: f ≠ b :: g := by
        intro heq
        exact hb ((List.cons.inj heq).1.symm.trans (hskip.symm.trans hidx))
      rw [if_pos hskip, if_neg hne]
      omega
    · rw [if_neg hskip, List.count_append, List.count_singleton]
      by_cases heq : a :: f = b :: g
      · simp [heq]
        omega
      · have hbeq : (a :: f == b :: g) = false := beq_false_of_ne heq
        rw [hbeq, if_neg heq]
        simp
  · rw [if_neg hpod, if_neg (show ¬ x.1 = w.layout.owner from hpod)]
    by_cases heq : a :: f = b :: g
    · rw [if_pos heq, if_pos heq, (List.cons.inj heq).1, Nat.add_assoc]
    · rw [if_neg heq, if_neg heq, Nat.add_zero, Nat.add_zero]

/-! ## The invariant -/

/-- What participants have been given and what is on its way to them is what was sent, as often as
copies are made of it. -/
def Mesh.Balanced (w : Mesh) : Prop :=
  ∀ x, w.layout.Sits x → ∀ a f, a ≠ w.layout.index x →
    (w.puts x).count (a :: f) + w.queuedTo x.1 (a :: f) +
        (if x.1 = w.owner then 0 else w.inFlight x.1 (a :: f)) +
        w.inFlight w.owner (a :: f) * w.layout.copies x.1 a =
      (w.sent.map w.layout.prefixed).count (a :: f) * w.layout.copies x.1 a

/-- `l` is the layout that the participants took before anyone spoke. -/
structure Mesh.Steady (l : Layout) (w : Mesh) : Prop where
  layout : w.layout = l
  placed : l.Placed
  network : ∀ d ∈ w.network, d.2.fenced = w.fenced
  sinks : ∀ id s, w.sinks.get? id = some s → s.fenced = w.fenced
  sessions : ∀ p s, w.sessions.get? p = some s → s.fenced = w.fenced ∧ s.owner = w.owner
  floors : ∀ pod seen, w.floors.get? pod = some seen → ∀ known,
    seen.get? w.fenced.sessionId = some known → known ≤ w.fenced.generation
  sits : ∀ s ∈ w.sent, l.Sits s.1
  others : ∀ x, l.Sits x → ∀ y ∈ w.puts x, ∃ a f, y = a :: f ∧ a ≠ l.index x

structure Mesh.Speaks (l : Layout) (w : Mesh) : Prop extends w.Steady l where
  balanced : w.lost = false → w.Balanced

theorem Room.audioOf_quiet (h : r.Quiet) (q : Uuid) : r.audioOf q = [] := by
  rw [Room.audioOf]
  cases hq : r.find? q with
  | none => rfl
  | some p => exact h p (List.mem_of_find?_eq_some hq)

theorem Room.queued_quiet (h : r.Quiet) (sel : Uuid → Bool) (x : Bytes) : r.queued sel x = 0 := by
  rw [Room.queued, List.sum_eq_zero]
  intro n hn
  obtain ⟨p, hp, rfl⟩ := List.mem_map.mp hn
  rw [h p hp]
  split_ifs <;> rfl

theorem Mesh.Setup.speaks (h : w.Setup) : Mesh.Speaks w.layout w := by
  have hputs : ∀ x, w.puts x = [] := by
    intro x
    rw [Mesh.puts, h.heard, Room.audioOf_quiet (h.quiet x.1)]
    rfl
  refine ⟨⟨rfl, h.placed, ?_, h.sinks, h.sessions, ?_, ?_, ?_⟩, ?_⟩
  · intro d hd
    rw [h.network] at hd
    cases hd
  · intro pod seen hseen
    rw [h.floors] at hseen
    cases hseen
  · intro s hs
    rw [h.sent] at hs
    cases hs
  · intro x _ y hy
    rw [hputs] at hy
    cases hy
  · intro _ x _ a f _
    rw [hputs, Mesh.queuedTo, Room.queued_quiet (h.quiet w.owner), Mesh.inFlight, Mesh.inFlight,
      h.network, h.sent]
    simp

/-! ## One datagram -/

theorem GenerationFloor.check_accepts {seen : GenerationFloor} {sessionId : Uuid} {g : Nat}
    (h : ∀ known, seen.get? sessionId = some known → known ≤ g) :
    ∃ seen' advanced, seen.check sessionId g = (seen', .accept advanced) ∧
      ∀ known, seen'.get? sessionId = some known → known ≤ g := by
  unfold GenerationFloor.check
  cases hseen : seen.get? sessionId with
  | none =>
    refine ⟨_, _, rfl, fun known hknown => ?_⟩
    rw [Table.get?_set, if_pos rfl] at hknown
    cases hknown
    exact Nat.le_refl _
  | some known =>
    have hle := h known hseen
    dsimp only
    rw [if_neg (Nat.not_lt.mpr hle)]
    refine ⟨_, _, rfl, fun known' hknown => ?_⟩
    split_ifs at hknown
    · rw [Table.get?_set, if_pos rfl] at hknown
      cases hknown
      exact Nat.le_refl _
    · exact h known' hknown

structure Mesh.SameBut (w w' : Mesh) : Prop where
  fenced : w'.fenced = w.fenced
  sinks : w'.sinks = w.sinks
  sessions : w'.sessions = w.sessions
  network : w'.network = w.network
  sent : w'.sent = w.sent
  heard : w'.heard = w.heard

/-- Each datagram arrives where no other community has a room under the id of the channel. -/
def Mesh.Unambiguous (w : Mesh) : Traffic → Prop
  | .arrive n => ∀ d ∈ w.network[n]?, d.1 ∉ w.foreign
  | _ => True

instance (w : Mesh) : (a : Traffic) → Decidable (w.Unambiguous a)
  | .arrive _ => inferInstanceAs (Decidable (∀ d ∈ _, _))
  | .send .. => isTrue trivial
  | .pump _ => isTrue trivial
  | .lose _ => isTrue trivial
  | .hear .. => isTrue trivial
  | .foreign .. => isTrue trivial

theorem onMediaDatagram_spec {pod : RuntimeId} (hforeign : pod ∉ w.foreign) {d : MeshDatagram}
    (hfenced : d.fenced = w.fenced)
    (hfloors : ∀ pod seen, w.floors.get? pod = some seen → ∀ known,
      seen.get? w.fenced.sessionId = some known → known ≤ w.fenced.generation) :
    w.SameBut (onMediaDatagram w pod d) ∧
      (∀ q seen, (onMediaDatagram w pod d).floors.get? q = some seen → ∀ known,
        seen.get? w.fenced.sessionId = some known → known ≤ w.fenced.generation) ∧
      ((d.payload = [] ∧ (∀ q, (onMediaDatagram w pod d).room q = w.room q) ∧
          (onMediaDatagram w pod d).lost = w.lost) ∨
        ∃ a f, d.payload = a :: f ∧
          (∀ q, (onMediaDatagram w pod d).room q =
            if q = pod then (w.room pod).deliverPrefixed a (a :: f) else w.room q) ∧
          (onMediaDatagram w pod d).lost =
            (w.lost || (w.room pod).overflows fun p => p.peerIndex = a)) := by
  have hbound : ∀ known, ((w.floors.get? pod).getD ∅).get? w.fenced.sessionId = some known →
      known ≤ w.fenced.generation := by
    intro known hknown
    cases hseen : w.floors.get? pod with
    | none =>
      rw [hseen] at hknown
      cases hknown
    | some seen =>
      rw [hseen] at hknown
      exact hfloors pod seen hseen known hknown
  obtain ⟨seen', advanced, hcheck, hseen'⟩ := GenerationFloor.check_accepts hbound
  have hfloors' : ∀ q seen, (w.floors.set pod seen').get? q = some seen → ∀ known,
      seen.get? w.fenced.sessionId = some known → known ≤ w.fenced.generation := by
    intro q seen hq known hknown
    rw [Table.get?_set] at hq
    split_ifs at hq
    · cases hq
      exact hseen' known hknown
    · exact hfloors q seen hq known hknown
  unfold onMediaDatagram
  rw [hfenced, hcheck]
  dsimp only [Mesh.unambiguousRoom]
  rw [if_neg hforeign]
  cases hpayload : d.payload with
  | nil =>
    cases hr : w.rooms.get? pod with
    | none => exact ⟨⟨rfl, rfl, rfl, rfl, rfl, rfl⟩, hfloors', Or.inl ⟨rfl, fun _ => rfl, rfl⟩⟩
    | some r => exact ⟨⟨rfl, rfl, rfl, rfl, rfl, rfl⟩, hfloors', Or.inl ⟨rfl, fun _ => rfl, rfl⟩⟩
  | cons a f =>
    cases hr : w.rooms.get? pod with
    | none =>
      -- A pod without a room is as good as one with an empty room.
      have hnew : w.room pod = Room.new := by rw [Mesh.room, hr]; rfl
      refine ⟨⟨rfl, rfl, rfl, rfl, rfl, rfl⟩, hfloors', Or.inr ⟨a, f, rfl, fun q => ?_, ?_⟩⟩
      · split_ifs with hq
        · rw [hq, hnew]
          exact hnew
        · rfl
      · rw [hnew]
        exact (Bool.or_false _).symm
    | some r =>
      have hroom : w.room pod = r := by rw [Mesh.room, hr]; rfl
      refine ⟨⟨rfl, rfl, rfl, rfl, rfl, rfl⟩, hfloors', Or.inr ⟨a, f, rfl, fun q => ?_, ?_⟩⟩
      · rw [hroom]
        exact Mesh.room_setRoom ..
      · rw [hroom]

/-! ## Each kind of step -/

theorem Room.skip_congr (hids : (r.seats.map Prod.fst).Nodup)
    (hindices : (r.seats.map Prod.snd).Nodup) (hp : r.find? id = some p) :
    ∀ q ∈ r.peers, decide (q.peerId = id) = decide (q.peerIndex = p.peerIndex) := by
  intro q hq
  have hmem : (q.peerId, q.peerIndex) ∈ r.seats := List.mem_map.mpr ⟨q, hq, rfl⟩
  have hseat := Room.mem_seats hp
  refine decide_eq_decide.mpr ⟨fun heq => ?_, fun heq => ?_⟩
  · exact congrArg Prod.snd (List.inj_on_of_nodup_map hids hmem hseat heq)
  · exact congrArg Prod.fst (List.inj_on_of_nodup_map hindices hmem hseat heq)

theorem Room.broadcastFrame_eq (hids : (r.seats.map Prod.fst).Nodup)
    (hindices : (r.seats.map Prod.snd).Nodup) (hp : r.find? id = some p) (f : Bytes) :
    r.broadcastFrame id f = r.deliverPrefixed p.peerIndex (p.peerIndex :: f) ∧
      (r.overflows fun q => q.peerId = id) = r.overflows fun q => q.peerIndex = p.peerIndex := by
  have hsame := Room.skip_congr hids hindices hp
  constructor
  · rw [broadcastFrame, hp, deliverPrefixed]
    dsimp only
    rw [fanOut, fanOut]
    congr 1
    refine List.map_congr_left fun q hq => ?_
    rw [hsame q hq]
  · rw [overflows, overflows, Bool.eq_iff_iff, List.any_eq_true, List.any_eq_true]
    refine exists_congr fun q => and_congr_right fun hq => ?_
    rw [hsame q hq]

theorem Mesh.seats_of_room {w' : Mesh} {pod : RuntimeId} {r : Room}
    (hroom : ∀ q, w'.room q = if q = pod then r else w.room q)
    (hseats : r.seats = (w.room pod).seats) (q : RuntimeId) :
    (w'.room q).seats = (w.room q).seats := by
  rw [hroom]
  split_ifs with hq
  · rw [hq, hseats]
  · rfl

theorem Mesh.layout_of_seats {w' : Mesh} (hfenced : w'.fenced = w.fenced)
    (hseats : ∀ q, (w'.room q).seats = (w.room q).seats)
    (hsinks : ∀ id, (w'.sinks.get? id).map (·.dest) = (w.sinks.get? id).map (·.dest))
    (hsessions : ∀ p, (w'.sessions.get? p).map (fun s => (s.peerIndex, s.registered)) =
      (w.sessions.get? p).map fun s => (s.peerIndex, s.registered)) : w'.layout = w.layout := by
  have hparts (p : Participant) : (w'.layout.indexOf p = w.layout.indexOf p) ∧
      w'.layout.registeredOf p = w.layout.registeredOf p := by
    have hindex := congrArg (Option.map Prod.fst) (hsessions p)
    have hregistered := congrArg (Option.map Prod.snd) (hsessions p)
    rw [Option.map_map, Option.map_map] at hindex hregistered
    exact ⟨hindex, hregistered⟩
  ext1
  · exact congrArg FencedHeader.ownerRuntimeId hfenced
  · exact funext hseats
  · exact funext hsinks
  · exact funext fun p => (hparts p).1
  · exact funext fun p => (hparts p).2

theorem Mesh.others_fan (hplaced : w.layout.Placed) (hx : w.layout.Sits x)
    (hothers : ∀ y ∈ w.puts x, ∃ b g, y = b :: g ∧ b ≠ w.layout.index x) :
    ∀ y ∈ (w.heard.get? x).getD [] ++ (if x.1 = pod then
        (w.room pod).deliverPrefixed a (a :: f) else w.room x.1).audioOf x.2,
      ∃ b g, y = b :: g ∧ b ≠ w.layout.index x := by
  intro y hy
  rcases List.mem_append.mp hy with hheard | haudio
  · exact hothers y (List.mem_append_left _ hheard)
  · have hold : y ∈ (w.room x.1).audioOf x.2 → ∃ b g, y = b :: g ∧ b ≠ w.layout.index x :=
      fun h => hothers y (List.mem_append_right _ h)
    obtain ⟨p, hp, hidx⟩ := w.find?_of_sits hplaced hx
    have haudioOf : (w.room x.1).audioOf x.2 = p.audio := by rw [Room.audioOf, hp]; rfl
    rw [haudioOf] at hold
    split_ifs at haudio with hpod
    · rw [← hpod, Room.deliverPrefixed, Room.audioOf_fanOut hp] at haudio
      split_ifs at haudio with hskip
      · exact hold haudio
      · rw [Room.trySend] at haudio
        split_ifs at haudio
        · rcases List.mem_append.mp haudio with hq | hq
          · exact hold hq
          · rw [List.mem_singleton] at hq
            refine ⟨a, f, hq, fun heq => hskip ?_⟩
            rw [hidx, heq]
            exact decide_eq_true rfl
        · exact hold haudio
    · rw [haudioOf] at haudio
      exact hold haudio

theorem Mesh.count_fan_other (hplaced : w.layout.Placed)
    (hroom : (w.room pod).overflows (fun p => p.peerIndex = a) = false) (hx : w.layout.Sits x)
    {b : UInt8} (hb : b ≠ w.layout.index x) (g : Bytes) :
    ((w.heard.get? x).getD [] ++ (if x.1 = pod then
        (w.room pod).deliverPrefixed a (a :: f) else w.room x.1).audioOf x.2).count (b :: g) =
      (w.puts x).count (b :: g) + if pod = x.1 ∧ a :: f = b :: g then 1 else 0 := by
  obtain ⟨p, hp, hidx⟩ := w.find?_of_sits hplaced hx
  by_cases hpod : x.1 = pod
  · have haudioOf : (w.room x.1).audioOf x.2 = p.audio := by rw [Room.audioOf, hp]; rfl
    rw [if_pos hpod, ← hpod, Room.deliverPrefixed,
      Room.audioOf_fanOut_of_overflows (hpod ▸ hroom) hp, Mesh.puts, haudioOf]
    by_cases hskip : p.peerIndex = a
    · have hne : ¬ (x.1 = x.1 ∧ a :: f = b :: g) := by
        rintro ⟨-, heq⟩
        exact hb ((List.cons.inj heq).1.symm.trans (hskip.symm.trans hidx))
      rw [if_pos (decide_eq_true hskip), if_neg hne, Nat.add_zero]
    · rw [if_neg (by simpa using hskip), ← List.append_assoc, List.count_append,
        List.count_singleton]
      congr 1
      by_cases heq : a :: f = b :: g
      · rw [beq_iff_eq.mpr heq, if_pos rfl, if_pos ⟨rfl, heq⟩]
      · have hne : ¬ (x.1 = x.1 ∧ a :: f = b :: g) := fun h => heq h.2
        rw [beq_false_of_ne heq, if_neg hne]
        rfl
  · rw [if_neg hpod, if_neg (fun h => hpod h.1.symm)]
    rfl

end Vingilot.Huddle
