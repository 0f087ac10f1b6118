import Vingilot.Lib.Machine
import Vingilot.RelayMesh.Dialing

/-!
# The connection that the smaller runtime has dialed is kept

A loop of the other connection cleans up by the runtime's id, so it may find an entry that is not
its own. As long as it cleans up in time, both tables settle on the connection that wins.
-/

namespace Vingilot.RelayMesh

open Machine
open Tunnel (RuntimeId)

/-! ## Two connections of one pair -/

variable {c : Conn} {r : RuntimeId}

namespace Conn

theorem remote_flip (hproper : c.dialer ≠ c.acceptor) (hend : c.hasEnd r = true) :
    c.flip.remote r = c.remote r := by
  rw [hasEnd, Bool.or_eq_true, decide_eq_true_eq, decide_eq_true_eq] at hend
  rcases hend with rfl | rfl
  · rw [remote, remote, if_pos rfl, flip, if_neg hproper]
  · rw [remote, remote, if_neg hproper.symm, flip, if_pos rfl]

theorem eq_or_flip {c' : Conn} (hproper : c.dialer ≠ c.acceptor) (hend : c.hasEnd r = true)
    (hend' : c'.hasEnd r = true) (hremote : c'.remote r = c.remote r) : c' = c ∨ c' = c.flip := by
  obtain ⟨d, a⟩ := c
  obtain ⟨d', a'⟩ := c'
  simp only [hasEnd, Bool.or_eq_true, decide_eq_true_eq, remote, flip, mk.injEq] at *
  by_cases hd : r = d
  · by_cases hd' : r = d'
    · rw [if_pos hd, if_pos hd'] at hremote
      exact Or.inl ⟨hd'.symm.trans hd, hremote⟩
    · rw [if_pos hd, if_neg hd'] at hremote
      exact Or.inr ⟨hremote, ((hend'.resolve_left hd').symm.trans hd)⟩
  · by_cases hd' : r = d'
    · rw [if_neg hd, if_pos hd'] at hremote
      exact Or.inr ⟨hd'.symm.trans (hend.resolve_left hd), hremote⟩
    · rw [if_neg hd, if_neg hd'] at hremote
      exact Or.inl ⟨hremote, (hend'.resolve_left hd').symm.trans (hend.resolve_left hd)⟩

def Wins (c : Conn) : Prop := c.dialer.bytes < c.acceptor.bytes

theorem Wins.proper (h : c.Wins) : c.dialer ≠ c.acceptor := by
  intro heq
  rw [Wins, heq] at h
  exact List.lt_irrefl _ h

end Conn

namespace Dialing

variable {w : Dialing}

theorem newConnectionWins_iff (hwins : c.Wins) (hend : c.hasEnd r = true) :
    newConnectionWins r (c.remote r) (r = c.dialer) = true ∧
      newConnectionWins r (c.remote r) (r = c.flip.dialer) = false := by
  have hproper := hwins.proper
  rw [Conn.hasEnd, Bool.or_eq_true, decide_eq_true_eq, decide_eq_true_eq] at hend
  rw [Conn.Wins] at hwins
  rcases hend with rfl | rfl
  · rw [newConnectionWins, newConnectionWins, Conn.remote, if_pos rfl, if_pos hwins, if_pos hwins,
      Conn.flip]
    exact ⟨decide_eq_true rfl, decide_eq_false hproper⟩
  · have hback : ¬ c.acceptor.bytes < c.dialer.bytes := List.lt_asymm hwins
    rw [newConnectionWins, newConnectionWins, Conn.remote, if_neg hproper.symm, if_neg hback,
      if_neg hback, Conn.flip]
    exact ⟨by simp [hproper.symm], by simp⟩

/-! ## The loops -/

theorem loops_abortLoop (r : RuntimeId) (c : Conn) (k : RecvLoop) (x : RuntimeId × Conn × RecvLoop) :
    (w.abortLoop r c k).loops.get? x =
      if x = (r, c, k) ∧ w.loops.get? x = some .running then some .aborted
      else w.loops.get? x := by
  unfold abortLoop setLoop
  by_cases hx : x = (r, c, k)
  · subst hx
    by_cases hrunning : w.loops.get? (r, c, k) = some .running
    · simp [hrunning]
    · simp [hrunning]
  · by_cases hrunning : w.loops.get? (r, c, k) = some .running
    · simp [hrunning, hx]
    · simp [hrunning, hx]

theorem loops_abort (r r' : RuntimeId) (c c' : Conn) (k : RecvLoop) :
    (w.abort r c).loops.get? (r', c', k) =
      if (r' = r ∧ c' = c) ∧ w.loops.get? (r', c', k) = some .running then some .aborted
      else w.loops.get? (r', c', k) := by
  rw [abort, loops_abortLoop, loops_abortLoop]
  by_cases hrunning : w.loops.get? (r', c', k) = some .running
  · cases k <;> simp [hrunning]
  · simp [hrunning]

@[simp] theorem peers_abort (r : RuntimeId) (c : Conn) : (w.abort r c).peers = w.peers := by
  unfold abort abortLoop setLoop
  split_ifs <;> rfl

@[simp] theorem dialed_abort (r : RuntimeId) (c : Conn) : (w.abort r c).dialed = w.dialed := by
  unfold abort abortLoop setLoop
  split_ifs <;> rfl

@[simp] theorem installed_abort (r : RuntimeId) (c : Conn) :
    (w.abort r c).installed = w.installed := by
  unfold abort abortLoop setLoop
  split_ifs <;> rfl

@[simp] theorem closed_abort (r : RuntimeId) (c : Conn) : (w.abort r c).closed = w.closed := by
  unfold abort abortLoop setLoop
  split_ifs <;> rfl

theorem loops_insert (r r' : RuntimeId) (c c' : Conn) (k : RecvLoop) :
    (w.insert r c).loops.get? (r', c', k) =
      if r' = r ∧ c' = c then some .running else w.loops.get? (r', c', k) := by
  unfold insert setLoop
  cases k <;> simp [Table.get?_set, Prod.ext_iff]

def displaced (w : Dialing) (r remote : RuntimeId) : Dialing :=
  match w.peers.get? (r, remote) with
  | some entry => w.abort r entry
  | none => w

theorem loops_displaced (r remote r' : RuntimeId) (c' : Conn) (k : RecvLoop) :
    (w.displaced r remote).loops.get? (r', c', k) =
      if (r' = r ∧ w.peers.get? (r, remote) = some c') ∧ w.loops.get? (r', c', k) = some .running
      then some .aborted else w.loops.get? (r', c', k) := by
  unfold displaced
  split
  · next entry hentry =>
    rw [loops_abort, hentry]
    simp only [Option.some.injEq, eq_comm]
  · next hnone => simp [hnone]

theorem displaced_eq (r remote : RuntimeId) : (w.displaced r remote).peers = w.peers ∧
    (w.displaced r remote).dialed = w.dialed ∧ (w.displaced r remote).installed = w.installed ∧
      (w.displaced r remote).closed = w.closed := by
  unfold displaced
  split <;> simp

theorem installPeer_cases (w : Dialing) (r : RuntimeId) (c : Conn) :
    (∃ e, w.peers.get? (r, c.remote r) = some e ∧
      newConnectionWins r (c.remote r) (r = c.dialer) = false ∧ (w.installPeer r c).1 = w) ∨
    ((w.installPeer r c).1 = (w.displaced r (c.remote r)).insert r c ∧
      (w.peers.get? (r, c.remote r) = none ∨
        newConnectionWins r (c.remote r) (r = c.dialer) = true)) := by
  unfold installPeer displaced
  cases hentry : w.peers.get? (r, c.remote r) with
  | none => exact Or.inr ⟨rfl, Or.inl rfl⟩
  | some e =>
    cases hwins : newConnectionWins r (c.remote r) (r = c.dialer) with
    | false => exact Or.inl ⟨e, rfl, rfl, rfl⟩
    | true => exact Or.inr ⟨rfl, Or.inr rfl⟩

theorem removePeer_eq (w : Dialing) (r remote : RuntimeId) :
    (∀ x, (w.removePeer r remote).peers.get? x =
      if x = (r, remote) then none else w.peers.get? x) ∧
    (∀ x, (w.removePeer r remote).loops.get? x = (w.displaced r remote).loops.get? x) ∧
    (w.removePeer r remote).dialed = w.dialed ∧
    (w.removePeer r remote).installed = w.installed ∧
    (w.removePeer r remote).closed = w.closed := by
  unfold removePeer displaced
  cases hentry : w.peers.get? (r, remote) with
  | none =>
    refine ⟨fun x => ?_, fun _ => rfl, rfl, rfl, rfl⟩
    split_ifs with hx
    · rw [hx, hentry]
    · rfl
  | some e => exact ⟨fun x => Table.get?_remove .., fun _ => rfl, by simp, by simp, by simp⟩

/-! ## The invariant -/

structure Inv (w : Dialing) : Prop where
  proper : ∀ c ∈ w.dialed, c.dialer ≠ c.acceptor
  installed : ∀ r c, (r, c) ∈ w.installed → c ∈ w.dialed ∧ c.hasEnd r = true
  entry : ∀ r q c, w.peers.get? (r, q) = some c → (r, c) ∈ w.installed ∧ c.remote r = q
  loops : ∀ r c k p, w.loops.get? (r, c, k) = some p → (r, c) ∈ w.installed
  running : ∀ r c k, w.loops.get? (r, c, k) = some .running →
    w.peers.get? (r, c.remote r) = some c
  /-- What is about to be removed is the loop's own entry, or nothing. -/
  noticed : ∀ r c k, w.loops.get? (r, c, k) = some .noticed →
    (c.remote r, c) ∈ w.closed ∧ ∀ c', w.peers.get? (r, c.remote r) = some c' → c' = c
  closed : ∀ r c, (r, c) ∈ w.closed →
    (r, c) ∈ w.installed ∧ w.peers.get? (r, c.remote r) ≠ some c
  winner : ∀ r c, (r, c) ∈ w.installed → c.Wins → w.peers.get? (r, c.remote r) = some c

theorem inv_init : init.Inv where
  proper c h := by cases h
  installed r c h := by cases h
  entry r q c h := by cases h
  loops r c k p h := by cases h
  running r c k h := by cases h
  noticed r c k h := by cases h
  closed r c h := by cases h
  winner r c h := by cases h

theorem Inv.open_of_wins (h : w.Inv) (hwins : c.Wins) : (r, c) ∉ w.closed := by
  intro hclosed
  obtain ⟨hinstalled, hentry⟩ := h.closed r c hclosed
  exact hentry (h.winner r c hinstalled hwins)

theorem Inv.setLoop (h : w.Inv) {k : RecvLoop} {old p : LoopPhase}
    (hold : w.loops.get? (r, c, k) = some old) (hp : p ≠ .running)
    (hnoticed : p = .noticed → (c.remote r, c) ∈ w.closed ∧
      ∀ c', w.peers.get? (r, c.remote r) = some c' → c' = c) : (w.setLoop r c k p).Inv := by
  have hloops : ∀ x, (w.setLoop r c k p).loops.get? x =
      if x = (r, c, k) then some p else w.loops.get? x := fun x => Table.get?_set ..
  refine ⟨h.proper, h.installed, h.entry, fun r' c' k' p' hloop => ?_, fun r' c' k' hloop => ?_,
    fun r' c' k' hloop => ?_, h.closed, h.winner⟩
  · rw [hloops] at hloop
    split_ifs at hloop with heq
    · cases heq
      exact h.loops r c k old hold
    · exact h.loops r' c' k' p' hloop
  · rw [hloops] at hloop
    split_ifs at hloop with heq
    · exact absurd (Option.some.inj hloop) hp
    · exact h.running r' c' k' hloop
  · rw [hloops] at hloop
    split_ifs at hloop with heq
    · cases heq
      exact hnoticed (Option.some.inj hloop)
    · exact h.noticed r' c' k' hloop

theorem Inv.refused (h : w.Inv) (hdialed : c ∈ w.dialed) (hend : c.hasEnd r = true)
    (hwins : newConnectionWins r (c.remote r) (r = c.dialer) = false) :
    Inv { w with installed := (r, c) :: w.installed } := by
  refine ⟨h.proper, fun r' c' hin => ?_, fun r' q c' hentry => ?_, fun r' c' k p hloop => ?_,
    h.running, h.noticed, fun r' c' hclosed => ?_, fun r' c' hin hw => ?_⟩
  · rcases List.mem_cons.mp hin with heq | hin
    · cases heq
      exact ⟨hdialed, hend⟩
    · exact h.installed r' c' hin
  · exact (h.entry r' q c' hentry).imp_left (List.mem_cons_of_mem _)
  · exact List.mem_cons_of_mem _ (h.loops r' c' k p hloop)
  · exact (h.closed r' c' hclosed).imp_left (List.mem_cons_of_mem _)
  · rcases List.mem_cons.mp hin with heq | hin
    · cases heq
      rw [(newConnectionWins_iff hw hend).1] at hwins
      cases hwins
    · exact h.winner r' c' hin hw

theorem Inv.inserted (h : w.Inv) (hdialed : c ∈ w.dialed) (hend : c.hasEnd r = true)
    (hnew : (r, c) ∉ w.installed)
    (hwins : w.peers.get? (r, c.remote r) = none ∨
      newConnectionWins r (c.remote r) (r = c.dialer) = true)
    (hflip : ∀ k, w.loops.get? (r, c.flip, k) ≠ some .noticed) :
    Inv { (w.displaced r (c.remote r)).insert r c with
      installed := (r, c) :: ((w.displaced r (c.remote r)).insert r c).installed } := by
  obtain ⟨hpeers, hdial, hinst, hclos⟩ := displaced_eq (w := w) r (c.remote r)
  have hproper := h.proper c hdialed
  have hpeers' : ∀ x, ((w.displaced r (c.remote r)).insert r c).peers.get? x =
      if x = (r, c.remote r) then some c else w.peers.get? x := by
    intro x
    rw [← hpeers]
    exact Table.get?_set ..
  have hinst' : ((w.displaced r (c.remote r)).insert r c).installed = w.installed := hinst
  have hloops' := fun r' c' k =>
    (loops_insert (w := w.displaced r (c.remote r)) r r' c c' k).trans
      (by rw [loops_displaced (w := w) r (c.remote r) r' c' k])
  have hold : ∀ r' c' k p, ((w.displaced r (c.remote r)).insert r c).loops.get? (r', c', k) =
      some p → ¬ (r' = r ∧ c' = c) → (r', c') ∈ w.installed ∧
        (p ≠ .aborted → w.loops.get? (r', c', k) = some p ∧
          (p = .running → ¬ (r' = r ∧ c'.remote r = c.remote r))) := by
    intro r' c' k p hloop hne
    rw [hloops', if_neg hne] at hloop
    split_ifs at hloop with habort
    · exact ⟨h.loops r' c' k _ habort.2, fun hp => absurd (Option.some.inj hloop).symm hp⟩
    · refine ⟨h.loops r' c' k p hloop, fun _ => ⟨hloop, ?_⟩⟩
      rintro rfl ⟨rfl, hremote⟩
      have hentry := h.running r' c' k hloop
      rw [hremote] at hentry
      exact habort ⟨⟨rfl, hentry⟩, hloop⟩
  refine ⟨fun c' hc' => h.proper c' (hdial ▸ hc'), fun r' c' hin => ?_, fun r' q c' hentry => ?_,
    fun r' c' k p hloop => ?_, fun r' c' k hloop => ?_, fun r' c' k hloop => ?_,
    fun r' c' hclosed => ?_, fun r' c' hin hw => ?_⟩
  · rw [hinst'] at hin
    change c' ∈ (w.displaced r (c.remote r)).dialed ∧ _
    rw [hdial]
    rcases List.mem_cons.mp hin with heq | hin
    · cases heq
      exact ⟨hdialed, hend⟩
    · exact h.installed r' c' hin
  · rw [hinst']
    change ((w.displaced r (c.remote r)).insert r c).peers.get? (r', q) = some c' at hentry
    rw [hpeers'] at hentry
    split_ifs at hentry with heq
    · cases heq
      cases hentry
      exact ⟨List.mem_cons_self, rfl⟩
    · exact (h.entry r' q c' hentry).imp_left (List.mem_cons_of_mem _)
  · rw [hinst']
    by_cases hsame : r' = r ∧ c' = c
    · rw [hsame.1, hsame.2]
      exact List.mem_cons_self
    · exact List.mem_cons_of_mem _ (hold r' c' k p hloop hsame).1
  · change ((w.displaced r (c.remote r)).insert r c).peers.get? _ = _
    rw [hpeers']
    by_cases hsame : r' = r ∧ c' = c
    · rw [hsame.1, hsame.2, if_pos rfl]
    · obtain ⟨-, hrest⟩ := hold r' c' k _ hloop hsame
      obtain ⟨hloop', hother⟩ := hrest (by simp)
      rw [if_neg ?_]
      · exact h.running r' c' k hloop'
      · intro heq
        rw [Prod.mk.injEq] at heq
        refine hother rfl ⟨heq.1, ?_⟩
        rw [← heq.1, heq.2, heq.1]
  · have hsame : ¬ (r' = r ∧ c' = c) := by
      intro hsame
      change ((w.displaced r (c.remote r)).insert r c).loops.get? _ = _ at hloop
      rw [hloops', if_pos hsame] at hloop
      cases hloop
    obtain ⟨hin, hrest⟩ := hold r' c' k _ hloop hsame
    obtain ⟨hloop', -⟩ := hrest (by simp)
    obtain ⟨hclosed, hown⟩ := h.noticed r' c' k hloop'
    refine ⟨hclos ▸ hclosed, fun c'' hentry => ?_⟩
    change ((w.displaced r (c.remote r)).insert r c).peers.get? _ = _ at hentry
    rw [hpeers'] at hentry
    split_ifs at hentry with heq
    · rw [Prod.mk.injEq] at heq
      obtain ⟨rfl, hremote⟩ := heq
      -- The other connection of the pair has no loop that is about to clean up.
      rcases Conn.eq_or_flip hproper hend (h.installed r' c' hin).2 hremote with rfl | rfl
      · exact absurd ⟨rfl, rfl⟩ hsame
      · exact absurd hloop' (hflip k)
    · exact hown c'' hentry
  · have hclosed' : (r', c') ∈ w.closed := hclos ▸ hclosed
    obtain ⟨hin, hentry⟩ := h.closed r' c' hclosed'
    rw [hinst']
    refine ⟨List.mem_cons_of_mem _ hin, ?_⟩
    change ((w.displaced r (c.remote r)).insert r c).peers.get? _ ≠ _
    rw [hpeers']
    split_ifs with heq
    · intro hc
      cases hc
      rw [Prod.mk.injEq] at heq
      exact hnew (heq.1 ▸ hin)
    · exact hentry
  · rw [hinst'] at hin
    change ((w.displaced r (c.remote r)).insert r c).peers.get? _ = _
    rw [hpeers']
    rcases List.mem_cons.mp hin with heq | hbefore
    · cases heq
      rw [if_pos rfl]
    · have hentry := h.winner r' c' hbefore hw
      split_ifs with heq
      · rw [Prod.mk.injEq] at heq
        obtain ⟨rfl, hremote⟩ := heq
        -- The winner is there, so this connection would have been refused.
        have hend' := (h.installed r' c' hbefore).2
        rcases Conn.eq_or_flip hw.proper hend' hend hremote.symm with rfl | rfl
        · rfl
        · rw [hremote] at hentry
          rcases hwins with hnone | hwins
          · rw [hnone] at hentry
            cases hentry
          · rw [Conn.remote_flip hw.proper hend', (newConnectionWins_iff hw hend').2] at hwins
            cases hwins
      · exact hentry

theorem Inv.remove (h : w.Inv) {k : RecvLoop} (hloop : w.loops.get? (r, c, k) = some .noticed) :
    ((w.removePeer r (c.remote r)).setLoop r c k .ended).Inv := by
  obtain ⟨hpeers, hloops, hdial, hinst, hclos⟩ := removePeer_eq w r (c.remote r)
  obtain ⟨hclosed, hown⟩ := h.noticed r c k hloop
  have hin := h.loops r c k _ hloop
  obtain ⟨hdialed, hend⟩ := h.installed r c hin
  have hproper := h.proper c hdialed
  have hold : ∀ r' c' k' p, (w.removePeer r (c.remote r)).loops.get? (r', c', k') = some p →
      p ≠ .aborted → w.loops.get? (r', c', k') = some p ∧
        (p = .running → (r', c'.remote r') ≠ (r, c.remote r)) := by
    intro r' c' k' p hp hne
    rw [hloops, loops_displaced] at hp
    split_ifs at hp with habort
    · exact absurd (Option.some.inj hp).symm hne
    · refine ⟨hp, ?_⟩
      rintro rfl heq
      rw [Prod.mk.injEq] at heq
      obtain ⟨rfl, hremote⟩ := heq
      have hentry := h.running r' c' k' hp
      rw [hremote] at hentry
      exact habort ⟨⟨rfl, hentry⟩, hp⟩
  have hkept : (w.removePeer r (c.remote r)).Inv := by
    refine ⟨hdial ▸ h.proper, fun r' c' hin' => ?_, fun r' q c' hentry => ?_,
      fun r' c' k' p hp => ?_, fun r' c' k' hp => ?_, fun r' c' k' hp => ?_,
      fun r' c' hclosed' => ?_, fun r' c' hin' hw => ?_⟩
    · rw [hdial]
      exact h.installed r' c' (hinst ▸ hin')
    · rw [hpeers] at hentry
      split_ifs at hentry
      rw [hinst]
      exact h.entry r' q c' hentry
    · rw [hinst]
      rw [hloops, loops_displaced] at hp
      split_ifs at hp with habort
      · exact h.loops r' c' k' _ habort.2
      · exact h.loops r' c' k' p hp
    · obtain ⟨hp, hother⟩ := hold r' c' k' _ hp (by simp)
      rw [hpeers, if_neg (hother rfl)]
      exact h.running r' c' k' hp
    · obtain ⟨hp, -⟩ := hold r' c' k' _ hp (by simp)
      obtain ⟨hclosed', hown'⟩ := h.noticed r' c' k' hp
      refine ⟨hclos ▸ hclosed', fun c'' hentry => hown' c'' ?_⟩
      rw [hpeers] at hentry
      split_ifs at hentry
      exact hentry
    · obtain ⟨hin', hentry⟩ := h.closed r' c' (hclos ▸ hclosed')
      refine ⟨hinst ▸ hin', ?_⟩
      rw [hpeers]
      split_ifs
      · simp
      · exact hentry
    · have hentry := h.winner r' c' (hinst ▸ hin') hw
      rw [hpeers]
      split_ifs with heq
      · -- The winner would be the loop's own connection, which is closed.
        rw [heq] at hentry
        rw [hown c' hentry] at hw
        exact absurd hclosed (h.open_of_wins hw)
      · exact hentry
  obtain ⟨p, hp⟩ : ∃ p, (w.removePeer r (c.remote r)).loops.get? (r, c, k) = some p := by
    refine ⟨.noticed, ?_⟩
    rw [hloops, loops_displaced, if_neg (by simp [hloop]), hloop]
  exact hkept.setLoop hp (by simp) (by simp)

theorem inv_step {w' : Dialing} {a : DialAction} (h : w.Inv) (hcond : w.inTime a = true)
    (hstep : dialStep w a = some w') : w'.Inv := by
  cases a with
  | dial dialer acceptor =>
    simp only [dialStep] at hstep
    split_ifs at hstep with hnew
    cases hstep
    simp only [Bool.or_eq_true, decide_eq_true_eq, not_or] at hnew
    refine ⟨fun c hc => ?_, fun r c hin => ?_, h.entry, h.loops, h.running, h.noticed, h.closed,
      h.winner⟩
    · rcases List.mem_append.mp hc with hc | hc
      · exact h.proper c hc
      · rw [List.mem_singleton.mp hc]
        exact hnew.1
    · exact (h.installed r c hin).imp_left (List.mem_append_left _)
  | install r c =>
    simp only [dialStep] at hstep
    split_ifs at hstep with hready
    cases hstep
    simp only [Bool.and_eq_true, decide_eq_true_eq] at hready
    obtain ⟨⟨hend, hdialed⟩, hnew⟩ := hready
    simp only [inTime, Bool.and_eq_true, decide_eq_true_eq] at hcond
    rcases installPeer_cases w r c with ⟨e, -, hwins, heq⟩ | ⟨heq, hwins⟩
    · rw [heq]
      exact h.refused hdialed hend hwins
    · rw [heq]
      refine h.inserted hdialed hend hnew hwins fun k => ?_
      cases k with
      | datagram => exact hcond.1
      | stream => exact hcond.2
  | close r c =>
    simp only [dialStep] at hstep
    split_ifs at hstep with hready
    cases hstep
    simp only [Bool.and_eq_true, decide_eq_true_eq] at hready
    refine ⟨h.proper, h.installed, h.entry, h.loops, h.running, fun r' c' k hloop => ?_,
      fun r' c' hclosed => ?_, h.winner⟩
    · exact (h.noticed r' c' k hloop).imp_left (List.mem_cons_of_mem _)
    · rcases List.mem_cons.mp hclosed with heq | hclosed
      · cases heq
        exact hready.1.1
      · exact h.closed r' c' hclosed
  | notice r c k =>
    simp only [dialStep] at hstep
    simp only [inTime, decide_eq_true_eq] at hcond
    split at hstep
    · next hrunning =>
      split_ifs at hstep with hclosed
      cases hstep
      refine h.setLoop hrunning (by simp) fun _ => ⟨hclosed, fun c' hentry => ?_⟩
      rw [h.running r c k hrunning] at hentry
      exact (Option.some.inj hentry).symm
    · next haborted => exact absurd haborted hcond
    · cases hstep
  | cancel r c k =>
    simp only [dialStep] at hstep
    split at hstep
    · next haborted =>
      cases hstep
      exact h.setLoop haborted (by simp) (by simp)
    · cases hstep
  | remove r c k =>
    simp only [dialStep] at hstep
    split at hstep
    · next hnoticed =>
      cases hstep
      exact h.remove hnoticed
    · cases hstep

/-! ## Runs -/

/-- Once both ends have the connection that the smaller runtime has dialed, both tables have it for
good: no clean-up of the other connection finds it. -/
structure Settled (w : Dialing) : Prop where
  both : ∀ a b, a.bytes < b.bytes → w.succeeded ⟨a, b⟩ = true →
    w.peers.get? (a, b) = some ⟨a, b⟩ ∧ w.peers.get? (b, a) = some ⟨a, b⟩
  spared : ∀ r c k, w.loops.get? (r, c, k) = some .noticed →
    w.peers.get? (r, c.remote r) ≠ some c.flip

theorem Inv.settled (h : w.Inv) : w.Settled := by
  refine ⟨fun a b hlt hsucceeded => ?_, fun r c k hloop hentry => ?_⟩
  · simp only [succeeded, Bool.and_eq_true, decide_eq_true_eq] at hsucceeded
    have hdialer := h.winner a ⟨a, b⟩ hsucceeded.1 hlt
    have hacceptor := h.winner b ⟨a, b⟩ hsucceeded.2 hlt
    have hne : b ≠ a := by
      rintro rfl
      exact List.lt_irrefl _ hlt
    rw [Conn.remote, if_pos rfl] at hdialer
    rw [Conn.remote, if_neg hne] at hacceptor
    exact ⟨hdialer, hacceptor⟩
  · have hproper := h.proper c (h.installed r c (h.loops r c k _ hloop)).1
    have hsame := (h.noticed r c k hloop).2 _ hentry
    exact hproper (congrArg Conn.dialer hsame).symm

/-- When each loop cleans up in time, the mesh settles on the winners. -/
theorem settled_of_inTime {as : List DialAction} {w : Dialing}
    (hmeets : Meets dialStep (fun w a => w.inTime a = true) init as)
    (hrun : run dialStep init as = some w) : w.Settled :=
  Inv.settled (run_invariant_of_meets Inv
    (fun _ _ _ hinv hcond hstep => inv_step hinv hcond hstep) inv_init hmeets hrun)

def demoDialer (n : UInt8) : RuntimeId := .ofByte n

def crossedDials : List DialAction :=
  let small := demoDialer 1
  let large := demoDialer 2
  let late : Conn := ⟨large, small⟩
  let won : Conn := ⟨small, large⟩
  [.dial large small, .install large late, .install small late, .dial small large,
    .install large won, .cancel large late .datagram, .cancel large late .stream,
    .close large late, .notice small late .datagram, .remove small late .datagram,
    .install small won, .cancel small late .stream]

theorem settled_of_crossedDials : ∃ w, run dialStep init crossedDials = some w ∧
    w.loopsEnded ⟨demoDialer 2, demoDialer 1⟩ = true ∧
    w.peers.get? (demoDialer 1, demoDialer 2) = some ⟨demoDialer 1, demoDialer 2⟩ ∧
      w.peers.get? (demoDialer 2, demoDialer 1) = some ⟨demoDialer 1, demoDialer 2⟩ := by
  have hmeets : Meets dialStep (fun w a => w.inTime a = true) init crossedDials := by
    decide +kernel
  have hdemo : ((run dialStep init crossedDials).any fun w =>
      w.loopsEnded ⟨demoDialer 2, demoDialer 1⟩ &&
        w.succeeded ⟨demoDialer 1, demoDialer 2⟩) = true := by decide +kernel
  obtain ⟨w, hrun, h⟩ := (Option.any_eq_true _ _).mp hdemo
  rw [Bool.and_eq_true] at h
  have hlt : (demoDialer 1).bytes < (demoDialer 2).bytes := by decide +kernel
  exact ⟨w, hrun, h.1, (settled_of_inTime hmeets hrun).both _ _ hlt h.2⟩

def lateCleanup : List DialAction :=
  let small := demoDialer 1
  let large := demoDialer 2
  let late : Conn := ⟨large, small⟩
  let won : Conn := ⟨small, large⟩
  [.dial large small, .install large late, .install small late, .dial small large,
    .install large won, .cancel large late .datagram, .cancel large late .stream,
    .close large late, .notice small late .datagram, .install small won,
    .remove small late .datagram, .cancel small late .stream]

theorem cleanup_takes_winner : ∃ w, run dialStep init lateCleanup = some w ∧
    w.succeeded ⟨demoDialer 1, demoDialer 2⟩ = true ∧
    w.succeeded ⟨demoDialer 2, demoDialer 1⟩ = true ∧
    w.loopsEnded ⟨demoDialer 2, demoDialer 1⟩ = true ∧
      w.peers.get? (demoDialer 1, demoDialer 2) = none := by
  have hdemo : ((run dialStep init lateCleanup).any fun w =>
      w.succeeded ⟨demoDialer 1, demoDialer 2⟩ && w.succeeded ⟨demoDialer 2, demoDialer 1⟩ &&
        w.loopsEnded ⟨demoDialer 2, demoDialer 1⟩ &&
          (w.peers.get? (demoDialer 1, demoDialer 2)).isNone) = true := by decide +kernel
  obtain ⟨w, hrun, h⟩ := (Option.any_eq_true _ _).mp hdemo
  rw [Bool.and_eq_true, Bool.and_eq_true, Bool.and_eq_true, Option.isNone_iff_eq_none] at h
  exact ⟨w, hrun, h.1.1.1, h.1.1.2, h.1.2, h.2⟩

end Dialing

end Vingilot.RelayMesh
