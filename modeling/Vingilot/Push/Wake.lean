import Mathlib.Data.List.Nodup
import Vingilot.Push.Gate

/-! # The push gate loses no wake

An event's check and commit lie on one side of every activation, because the two kinds
of transaction exclude each other from the lock to the commit. Events before it are found by
its backfill and events after it see its lease.
-/

namespace Vingilot.Push

open Machine

/-! ## What one step can do -/

inductive TxMoves (s : World) (tx : TxId) (t : Tx) : Action → Tx → Prop
  | insertOther (i : InsertTx) (id : EventId) (kind : Nat) (receivedAt : Int)
      (hbody : t.body = .insert i) (hidle : i.trigger = .idle) (hkind : kind ∉ pushKinds) :
      TxMoves s tx t (.insert tx id kind receivedAt)
        { t with body := .insert { i with rows := i.rows ++ [(id, ⟨kind, receivedAt, false, tx⟩)] } }
  | insertPush (i : InsertTx) (id : EventId) (kind : Nat) (receivedAt : Int)
      (hbody : t.body = .insert i) (hidle : i.trigger = .idle) :
      TxMoves s tx t (.insert tx id kind receivedAt)
        { t with body := .insert { i with trigger := .locking id ⟨kind, receivedAt, false, tx⟩ } }
  | lockShared (i : InsertTx) (id : EventId) (row : EventRow) (hbody : t.body = .insert i)
      (hstage : i.trigger = .locking id row) (hfree : s.other tx Tx.holdsExclusive = false) :
      TxMoves s tx t (.lockShared tx)
        { t with body := .insert { i with locked := true, trigger := .checking id row } }
  | checkYes (i : InsertTx) (id : EventId) (row : EventRow) (hbody : t.body = .insert i)
      (hstage : i.trigger = .checking id row) (hlease : eligibleLease s.leases t.now = true) :
      TxMoves s tx t (.check tx) { t with body := .insert { i with trigger := .enqueuing id row } }
  | checkNo (i : InsertTx) (id : EventId) (row : EventRow) (hbody : t.body = .insert i)
      (hstage : i.trigger = .checking id row) (hlease : eligibleLease s.leases t.now = false) :
      TxMoves s tx t (.check tx)
        { t with body := .insert { i with rows := i.rows ++ [(id, row)], trigger := .idle } }
  | enqueue (i : InsertTx) (id : EventId) (row : EventRow) (hbody : t.body = .insert i)
      (hstage : i.trigger = .enqueuing id row)
      (hfree : s.other tx (fun t => t.jobs.contains id) = false) :
      TxMoves s tx t (.enqueue tx)
        ⟨t.now, enqueueJob s.jobs t.jobs id,
          .insert { i with rows := i.rows ++ [(id, row)], trigger := .idle }⟩
  | lockExclusive (a : Activation) (hbody : t.body = .activate a .begun)
      (hfree : s.other tx (fun t => t.holdsShared || t.holdsExclusive) = false) :
      TxMoves s tx t (.lockExclusive tx) { t with body := .activate a .locked }
  | write (a : Activation) (lease : Lease) (hbody : t.body = .activate a .locked) :
      TxMoves s tx t (.write tx) { t with body := .activate a (.written lease) }
  | backfill (a : Activation) (lease : Lease) (hbody : t.body = .activate a (.written lease))
      (hfree : s.other tx
        (fun u => u.jobs.any fun id => (backfillIds s.events t.now).contains id) = false) :
      TxMoves s tx t (.backfill tx)
        ⟨t.now, (backfillIds s.events t.now).foldl (enqueueJob s.jobs) t.jobs,
          .activate a (.backfilled lease)⟩

def EventRow.live (row : EventRow) : EventRow := { row with deleted := false }

def OnlyDeletes (events events' : Events) : Prop :=
  ∀ id, (events'.get? id).map EventRow.live = (events.get? id).map EventRow.live

inductive Effect (s s' : World) : Action → Prop
  | outside (action : Action) (haction : action.tx = none) (htxs : s'.txs = s.txs)
      (hclock : s.clock ≤ s'.clock) (hstarted : s'.started = s.started) (hjobs : s'.jobs = s.jobs)
      (hevents : OnlyDeletes s.events s'.events) : Effect s s' action
  | begin (action : Action) (haction : action.tx = none) (body : TxBody)
      (hbody : body = .insert ⟨false, [], .idle⟩ ∨ ∃ a, body = .activate a .begun)
      (hs : s' = s.begin body) : Effect s s' action
  | update (action : Action) (tx : TxId) (t t' : Tx) (hget : s.txs.get? tx = some t)
      (hmove : TxMoves s tx t action t') (hs : s' = s.setTx tx t') : Effect s s' action
  | close (action : Action) (tx : TxId) (t : Tx) (haction : action.tx = some tx)
      (hcommit : action ≠ .commit tx)
      (hget : s.txs.get? tx = some t) (hs : s' = s.closeTx tx) : Effect s s' action
  | commitInsert (tx : TxId) (t : Tx) (i : InsertTx) (hget : s.txs.get? tx = some t)
      (hbody : t.body = .insert i) (hidle : i.trigger = .idle)
      (hs : s' = { s.closeTx tx with
        events := insertRows s.events i.rows, jobs := s.jobs ++ t.jobs }) :
      Effect s s' (.commit tx)
  | commitActivate (tx : TxId) (t : Tx) (a : Activation) (lease : Lease)
      (hget : s.txs.get? tx = some t) (hbody : t.body = .activate a (.backfilled lease))
      (hs : s' = { s.closeTx tx with
        leases := s.leases.set a.addr lease, jobs := s.jobs ++ t.jobs }) :
      Effect s s' (.commit tx)

variable {row : EventRow}

theorem EventRow.eq_of_live_eq {row' : EventRow} (h : row.live = row'.live) :
    row.kind = row'.kind ∧ row.receivedAt = row'.receivedAt ∧ row.insertedBy = row'.insertedBy := by
  simp only [EventRow.live, EventRow.mk.injEq, true_and] at h
  exact h

theorem onlyDeletes_refl (events : Events) : OnlyDeletes events events := fun _ => rfl

variable {id : EventId}

theorem onlyDeletes_live {events events' : Events} (h : OnlyDeletes events events')
    (hrow : events'.get? id = some row) :
    ∃ row', events.get? id = some row' ∧ row'.live = row.live := by
  have hlive := h id
  rw [hrow, Option.map_some] at hlive
  exact Option.map_eq_some_iff.mp hlive.symm

theorem effect_outside (s s' : World) (action : Action) (haction : action.tx = none)
    (h : stepOutside s action = some s') : Effect s s' action := by
  cases action with
  | advance micros =>
    cases h
    have hclock : s.clock ≤ s.clock + micros := by omega
    exact .outside _ rfl rfl hclock rfl rfl (onlyDeletes_refl _)
  | beginInsert => cases h; exact .begin _ rfl _ (Or.inl rfl) rfl
  | beginActivate a => cases h; exact .begin _ rfl _ (Or.inr ⟨a, rfl⟩) rfl
  | revoke addr version =>
    simp only [stepOutside] at h
    split_ifs at h
    split at h <;> cases h
    exact .outside _ rfl rfl (Int.le_refl _) rfl rfl (onlyDeletes_refl _)
  | disableEndpoint addr generation =>
    simp only [stepOutside] at h
    split_ifs at h
    cases h
    exact .outside _ rfl rfl (Int.le_refl _) rfl rfl (onlyDeletes_refl _)
  | deleteEvent id =>
    cases h
    refine .outside _ rfl rfl (Int.le_refl _) rfl rfl ?_
    intro id'
    rw [Table.get?_alter]
    split_ifs with hid
    · subst hid
      cases s.events.get? id' <;> rfl
    · rfl
  | insert => cases haction
  | lockShared => cases haction
  | check => cases haction
  | enqueue => cases haction
  | lockExclusive => cases haction
  | write => cases haction
  | backfill => cases haction
  | commit => cases haction
  | abort => cases haction

theorem effect_insert (s s' : World) (tx : TxId) (t : Tx) (i : InsertTx) (action : Action)
    (haction : action.tx = some tx) (hget : s.txs.get? tx = some t) (hbody : t.body = .insert i)
    (h : stepInsert s tx t i action = some s') : Effect s s' action := by
  cases action with
  | insert tx' id kind receivedAt =>
    cases haction
    simp only [stepInsert] at h
    split_ifs at h with hbusy hkind <;> cases h
    · rw [not_or, not_not] at hbusy
      exact .update _ tx t _ hget (.insertPush i id kind receivedAt hbody hbusy.1) rfl
    · rw [not_or, not_not] at hbusy
      exact .update _ tx t _ hget (.insertOther i id kind receivedAt hbody hbusy.1 hkind) rfl
  | lockShared tx' =>
    cases haction
    simp only [stepInsert] at h
    split at h <;> try cases h
    rename_i hstage
    split_ifs at h with hfree
    cases h
    exact .update _ tx t _ hget (.lockShared i _ _ hbody hstage (by simpa using hfree)) rfl
  | check tx' =>
    cases haction
    simp only [stepInsert] at h
    split at h <;> try cases h
    rename_i hstage
    split_ifs at h with hlease <;> cases h
    · exact .update _ tx t _ hget (.checkYes i _ _ hbody hstage hlease) rfl
    · exact .update _ tx t _ hget (.checkNo i _ _ hbody hstage (by simpa using hlease)) rfl
  | enqueue tx' =>
    cases haction
    simp only [stepInsert] at h
    split at h <;> try cases h
    rename_i hstage
    split_ifs at h with hfree
    cases h
    exact .update _ tx t _ hget (.enqueue i _ _ hbody hstage (by simpa using hfree)) rfl
  | commit tx' =>
    cases haction
    simp only [stepInsert] at h
    split_ifs at h with hidle
    cases h
    exact .commitInsert tx t i hget hbody hidle rfl
  | abort tx' =>
    cases haction
    cases h
    exact .close _ tx t rfl (by simp) hget rfl
  | _ => cases h

theorem effect_activate (s s' : World) (tx : TxId) (t : Tx) (a : Activation) (stage : ActivateStage)
    (action : Action) (haction : action.tx = some tx) (hget : s.txs.get? tx = some t)
    (hbody : t.body = .activate a stage) (h : stepActivate s tx t a stage action = some s') :
    Effect s s' action := by
  cases action with
  | lockExclusive tx' =>
    cases haction
    simp only [stepActivate] at h
    split_ifs at h with hfree
    cases h
    obtain ⟨rfl, hfree⟩ := hfree
    exact .update _ tx t _ hget (.lockExclusive a hbody (by simpa using hfree)) rfl
  | write tx' =>
    cases haction
    simp only [stepActivate] at h
    split_ifs at h with hstage
    subst hstage
    split at h <;> cases h
    · exact .update _ tx t _ hget (.write a _ hbody) rfl
    · exact .close _ tx t rfl (by simp) hget rfl
  | backfill tx' =>
    cases haction
    simp only [stepActivate] at h
    split at h <;> try cases h
    split_ifs at h with hfree
    cases h
    exact .update _ tx t _ hget (.backfill a _ hbody (by simpa using hfree)) rfl
  | commit tx' =>
    cases haction
    simp only [stepActivate] at h
    split at h <;> cases h
    exact .commitActivate tx t a _ hget hbody rfl
  | abort tx' =>
    cases haction
    cases h
    exact .close _ tx t rfl (by simp) hget rfl
  | _ => cases h

theorem effect_of_step (s : World) (action : Action) (s' : World) (h : step s action = some s') :
    Effect s s' action := by
  unfold step at h
  split at h
  · rename_i haction
    exact effect_outside s s' action haction h
  · rename_i tx haction
    split at h
    · cases h
    · rename_i t hget
      split at h
      · rename_i i hbody
        exact effect_insert s s' tx t i action haction hget hbody h
      · rename_i a stage hbody
        exact effect_activate s s' tx t a stage action haction hget hbody h

/-! ## Locks -/

variable {s : World} {tx : TxId} {t' : Tx}

theorem other_eq_false {p : Tx → Bool} (h : s.other tx p = false) {tx' : TxId}
    (hget : s.txs.get? tx' = some t') (hne : tx' ≠ tx) : p t' = false := by
  rw [World.other, List.any_eq_false] at h
  have hmem := h (tx', t') ((Table.mem_toList ..).mpr hget)
  simpa [hne] using hmem

def Tx.rowsLocked (t : Tx) : Prop :=
  ∀ i, t.body = .insert i → (∀ x ∈ i.rows, x.2.kind ∈ pushKinds → i.locked = true) ∧
    ∀ id row, (i.trigger = .checking id row ∨ i.trigger = .enqueuing id row) → i.locked = true

structure Locks (s : World) : Prop where
  exclusive : ∀ tx t tx' t', s.txs.get? tx = some t → s.txs.get? tx' = some t' → tx' ≠ tx →
    t.holdsExclusive = true → t'.holdsShared = false ∧ t'.holdsExclusive = false
  rows : ∀ tx t, s.txs.get? tx = some t → t.rowsLocked

theorem locks_init (clock : Int) : Locks (.init clock) where
  exclusive tx t tx' t' h := by cases h
  rows tx t h := by cases h

variable {s' : World}

theorem locks_remove (tx : TxId) (h : Locks s) (htxs : s'.txs = s.txs.remove tx) : Locks s' := by
  have hold : ∀ id t, s'.txs.get? id = some t → s.txs.get? id = some t := by
    intro id t hget
    rw [htxs, Table.get?_remove] at hget
    split_ifs at hget
    exact hget
  exact ⟨fun tx t tx' t' hget hget' => h.exclusive tx t tx' t' (hold tx t hget) (hold tx' t' hget'),
    fun tx t hget => h.rows tx t (hold tx t hget)⟩

theorem locks_set (tx : TxId) (t' : Tx) (h : Locks s) (htxs : s'.txs = s.txs.set tx t')
    (hrows : t'.rowsLocked)
    (hexcl : t'.holdsExclusive = true → ∀ id t, s.txs.get? id = some t → id ≠ tx →
      t.holdsShared = false ∧ t.holdsExclusive = false)
    (hheld : t'.holdsShared = true ∨ t'.holdsExclusive = true → ∀ id t, s.txs.get? id = some t →
      id ≠ tx → t.holdsExclusive = false) : Locks s' := by
  constructor
  · intro id t id' u hget hget' hne ht
    rw [htxs, Table.get?_set] at hget hget'
    split_ifs at hget hget' with hid hid'
    · exact absurd (hid'.trans hid.symm) hne
    · cases hget
      exact hexcl ht id' u hget' hid'
    · cases hget'
      have hfree := fun hheld' => hheld hheld' id t hget hid
      rw [ht] at hfree
      exact ⟨by simpa using fun hs => hfree (Or.inl hs), by simpa using fun he => hfree (Or.inr he)⟩
    · exact h.exclusive id t id' u hget hget' hne ht
  · intro id t hget
    rw [htxs, Table.get?_set] at hget
    split_ifs at hget
    · cases hget
      exact hrows
    · exact h.rows id t hget

theorem locks_keep (tx : TxId) (t t' : Tx) (h : Locks s) (hget : s.txs.get? tx = some t)
    (htxs : s'.txs = s.txs.set tx t') (hrows : t'.rowsLocked)
    (hshared : t'.holdsShared = t.holdsShared) (hexclusive : t'.holdsExclusive = t.holdsExclusive) :
    Locks s' := by
  refine locks_set tx t' h htxs hrows ?_ ?_
  · intro ht id u hu hne
    exact h.exclusive tx t id u hget hu hne (hexclusive ▸ ht)
  · intro hheld id u hu hne
    rw [hshared, hexclusive] at hheld
    by_contra hu'
    have hnone := h.exclusive id u tx t hu hget (Ne.symm hne) (by simpa using hu')
    rw [hnone.1, hnone.2] at hheld
    simp at hheld

variable {t : Tx} {action : Action}

theorem locks_update (h : Locks s) (hget : s.txs.get? tx = some t)
    (hmove : TxMoves s tx t action t') : Locks (s.setTx tx t') := by
  have hrows := h.rows tx t hget
  cases hmove with
  | insertOther i id kind receivedAt hbody hidle hkind =>
    refine locks_keep tx t _ h hget rfl ?_ ?_ ?_
    · rintro _ ⟨⟩
      refine ⟨?_, fun id row hstage => by simp [hidle] at hstage⟩
      intro x hx hpush
      rcases List.mem_append.mp hx with hold | hnew
      · exact (hrows i hbody).1 x hold hpush
      · cases List.mem_singleton.mp hnew
        exact absurd hpush hkind
    · simp [Tx.holdsShared, hbody]
    · simp [Tx.holdsExclusive, hbody]
  | insertPush i id kind receivedAt hbody hidle =>
    refine locks_keep tx t _ h hget rfl ?_ ?_ ?_
    · rintro _ ⟨⟩
      exact ⟨(hrows i hbody).1, fun id row hstage => by simp at hstage⟩
    · simp [Tx.holdsShared, hbody]
    · simp [Tx.holdsExclusive, hbody]
  | lockShared i id row hbody hstage hfree =>
    refine locks_set tx _ h rfl ?_ ?_ ?_
    · rintro _ ⟨⟩
      exact ⟨fun _ _ _ => rfl, fun _ _ _ => rfl⟩
    · simp [Tx.holdsExclusive]
    · exact fun _ id u hu hne => other_eq_false hfree hu hne
  | checkYes i id row hbody hstage hlease =>
    refine locks_keep tx t _ h hget rfl ?_ ?_ ?_
    · rintro _ ⟨⟩
      exact ⟨(hrows i hbody).1, fun _ _ _ => (hrows i hbody).2 id row (Or.inl hstage)⟩
    · simp [Tx.holdsShared, hbody]
    · simp [Tx.holdsExclusive, hbody]
  | checkNo i id row hbody hstage hlease =>
    have hlocked := (hrows i hbody).2 id row (Or.inl hstage)
    refine locks_keep tx t _ h hget rfl ?_ ?_ ?_
    · rintro _ ⟨⟩
      exact ⟨fun _ _ _ => hlocked, fun _ _ _ => hlocked⟩
    · simp [Tx.holdsShared, hbody]
    · simp [Tx.holdsExclusive, hbody]
  | enqueue i id row hbody hstage hfree =>
    have hlocked := (hrows i hbody).2 id row (Or.inr hstage)
    refine locks_keep tx t _ h hget rfl ?_ ?_ ?_
    · rintro _ ⟨⟩
      exact ⟨fun _ _ _ => hlocked, fun _ _ _ => hlocked⟩
    · simp [Tx.holdsShared, hbody]
    · simp [Tx.holdsExclusive, hbody]
  | lockExclusive a hbody hfree =>
    have hnone : ∀ id u, s.txs.get? id = some u → id ≠ tx →
        u.holdsShared = false ∧ u.holdsExclusive = false := by
      intro id u hu hne
      simpa using other_eq_false hfree hu hne
    exact locks_set tx _ h rfl (by rintro _ ⟨⟩) (fun _ => hnone)
      (fun _ id u hu hne => (hnone id u hu hne).2)
  | write a lease hbody =>
    refine locks_keep tx t _ h hget rfl (by rintro _ ⟨⟩) ?_ ?_
    · simp [Tx.holdsShared, hbody]
    · simp [Tx.holdsExclusive, hbody]
  | backfill a lease hbody hfree =>
    refine locks_keep tx t _ h hget rfl (by rintro _ ⟨⟩) ?_ ?_
    · simp [Tx.holdsShared, hbody]
    · simp [Tx.holdsExclusive, hbody]

theorem locks_step (s : World) (action : Action) (s' : World) (h : Locks s)
    (hstep : step s action = some s') : Locks s' := by
  cases effect_of_step s action s' hstep with
  | outside _ _ htxs =>
    exact ⟨by rw [htxs]; exact h.exclusive, by rw [htxs]; exact h.rows⟩
  | begin _ _ body hbody hs =>
    subst hs
    refine locks_set s.started _ h rfl ?_ ?_ ?_
    · rintro i hi
      rcases hbody with rfl | ⟨a, rfl⟩
      · cases hi
        exact ⟨fun x hx => absurd hx List.not_mem_nil, fun id row hstage => by simp at hstage⟩
      · cases hi
    · rcases hbody with rfl | ⟨a, rfl⟩ <;> simp [Tx.holdsExclusive]
    · rcases hbody with rfl | ⟨a, rfl⟩ <;> simp [Tx.holdsExclusive, Tx.holdsShared]
  | update _ tx t t' hget hmove hs => subst hs; exact locks_update h hget hmove
  | close _ tx t _ _ hget hs => subst hs; exact locks_remove tx h rfl
  | commitInsert tx t i hget hbody hidle hs => subst hs; exact locks_remove tx h rfl
  | commitActivate tx t a lease hget hbody hs => subst hs; exact locks_remove tx h rfl

/-! ## Jobs -/

theorem mem_enqueueJob (committed pending : List EventId) (id x : EventId) :
    x ∈ enqueueJob committed pending id ↔ x ∈ pending ∨ (x = id ∧ id ∉ committed) := by
  unfold enqueueJob
  split_ifs with h
  · simp [h]
  · rw [mem_pushNew]
    simp [h]

theorem nodup_enqueueJob {committed pending : List EventId} (id : EventId) (h : pending.Nodup) :
    (enqueueJob committed pending id).Nodup := by
  unfold enqueueJob
  split_ifs
  · exact h
  · exact nodup_pushNew id h

theorem mem_foldl_enqueueJob (committed ids pending : List EventId) (x : EventId) :
    x ∈ ids.foldl (enqueueJob committed) pending ↔
      x ∈ pending ∨ (x ∈ ids ∧ x ∉ committed) := by
  induction ids generalizing pending with
  | nil => simp
  | cons id ids ih =>
    rw [List.foldl_cons, ih, mem_enqueueJob, List.mem_cons]
    constructor
    · rintro ((h | ⟨rfl, h⟩) | ⟨h, h'⟩)
      · exact Or.inl h
      · exact Or.inr ⟨Or.inl rfl, h⟩
      · exact Or.inr ⟨Or.inr h, h'⟩
    · rintro (h | ⟨rfl | h, h'⟩)
      · exact Or.inl (Or.inl h)
      · exact Or.inl (Or.inr ⟨rfl, h'⟩)
      · exact Or.inr ⟨h, h'⟩

theorem nodup_foldl_enqueueJob (committed ids pending : List EventId) (h : pending.Nodup) :
    (ids.foldl (enqueueJob committed) pending).Nodup := by
  induction ids generalizing pending with
  | nil => exact h
  | cons id ids ih => exact ih _ (nodup_enqueueJob id h)

structure JobsOnce (s : World) : Prop where
  committed : s.jobs.Nodup
  pending : ∀ tx t, s.txs.get? tx = some t → t.jobs.Nodup ∧ ∀ id ∈ t.jobs, id ∉ s.jobs
  disjoint : ∀ tx t tx' t', s.txs.get? tx = some t → s.txs.get? tx' = some t' → tx' ≠ tx →
    ∀ id ∈ t.jobs, id ∉ t'.jobs

theorem jobsOnce_init (clock : Int) : JobsOnce (.init clock) where
  committed := List.nodup_nil
  pending tx t h := by cases h
  disjoint tx t tx' t' h := by cases h

theorem jobsOnce_set (tx : TxId) (t' : Tx) (h : JobsOnce s) (htxs : s'.txs = s.txs.set tx t')
    (hjobs : s'.jobs = s.jobs) (hnodup : t'.jobs.Nodup) (hnew : ∀ id ∈ t'.jobs, id ∉ s.jobs)
    (hfree : ∀ id t, s.txs.get? id = some t → id ≠ tx → ∀ x ∈ t'.jobs, x ∉ t.jobs) :
    JobsOnce s' := by
  refine ⟨by rw [hjobs]; exact h.committed, ?_, ?_⟩
  · intro id t hget
    rw [htxs, Table.get?_set] at hget
    rw [hjobs]
    split_ifs at hget
    · cases hget
      exact ⟨hnodup, hnew⟩
    · exact h.pending id t hget
  · intro id t id' u hget hget' hne x hx hx'
    rw [htxs, Table.get?_set] at hget hget'
    split_ifs at hget hget' with hid hid'
    · exact hne (hid'.trans hid.symm)
    · cases hget
      exact hfree id' u hget' hid' x hx hx'
    · cases hget'
      exact hfree id t hget hid x hx' hx
    · exact h.disjoint id t id' u hget hget' hne x hx hx'

theorem jobsOnce_keep (tx : TxId) (t t' : Tx) (h : JobsOnce s) (hget : s.txs.get? tx = some t)
    (htxs : s'.txs = s.txs.set tx t') (hjobs : s'.jobs = s.jobs) (hsame : t'.jobs = t.jobs) :
    JobsOnce s' := by
  obtain ⟨hnodup, hnew⟩ := h.pending tx t hget
  refine jobsOnce_set tx t' h htxs hjobs (hsame ▸ hnodup) (hsame ▸ hnew) ?_
  intro id u hu hne x hx
  rw [hsame] at hx
  exact h.disjoint tx t id u hget hu hne x hx

theorem jobsOnce_update (h : JobsOnce s) (hget : s.txs.get? tx = some t)
    (hmove : TxMoves s tx t action t') : JobsOnce (s.setTx tx t') := by
  obtain ⟨hnodup, hnew⟩ := h.pending tx t hget
  have hdisjoint := fun id u hu hne => h.disjoint tx t id u hget hu hne
  cases hmove with
  | insertOther => exact jobsOnce_keep tx t _ h hget rfl rfl rfl
  | insertPush => exact jobsOnce_keep tx t _ h hget rfl rfl rfl
  | lockShared => exact jobsOnce_keep tx t _ h hget rfl rfl rfl
  | checkYes => exact jobsOnce_keep tx t _ h hget rfl rfl rfl
  | checkNo => exact jobsOnce_keep tx t _ h hget rfl rfl rfl
  | lockExclusive => exact jobsOnce_keep tx t _ h hget rfl rfl rfl
  | write => exact jobsOnce_keep tx t _ h hget rfl rfl rfl
  | enqueue i id row hbody hstage hfree =>
    refine jobsOnce_set tx _ h rfl rfl (nodup_enqueueJob id hnodup) ?_ ?_
    · intro x hx
      rcases (mem_enqueueJob ..).mp hx with hold | ⟨rfl, hout⟩
      · exact hnew x hold
      · exact hout
    · intro id' u hu hne x hx
      rcases (mem_enqueueJob ..).mp hx with hold | ⟨rfl, -⟩
      · exact hdisjoint id' u hu hne x hold
      · simpa using other_eq_false hfree hu hne
  | backfill a lease hbody hfree =>
    refine jobsOnce_set tx _ h rfl rfl (nodup_foldl_enqueueJob _ _ _ hnodup) ?_ ?_
    · intro x hx
      rcases (mem_foldl_enqueueJob ..).mp hx with hold | ⟨-, hout⟩
      · exact hnew x hold
      · exact hout
    · intro id' u hu hne x hx hx'
      rcases (mem_foldl_enqueueJob ..).mp hx with hold | ⟨hsel, -⟩
      · exact hdisjoint id' u hu hne x hold hx'
      · have hnone := other_eq_false hfree hu hne
        rw [List.any_eq_false] at hnone
        exact hnone x hx' (by simpa using hsel)

theorem jobsOnce_commit (tx : TxId) (t : Tx) (h : JobsOnce s) (hget : s.txs.get? tx = some t)
    (htxs : s'.txs = s.txs.remove tx) (hjobs : s'.jobs = s.jobs ++ t.jobs) : JobsOnce s' := by
  obtain ⟨hnodup, hnew⟩ := h.pending tx t hget
  refine ⟨?_, ?_, ?_⟩
  · rw [hjobs, List.nodup_append]
    exact ⟨h.committed, hnodup, fun a ha b hb hab => hnew b hb (hab ▸ ha)⟩
  · intro id u hu
    rw [htxs, Table.get?_remove] at hu
    split_ifs at hu with hid
    obtain ⟨hnodup', hnew'⟩ := h.pending id u hu
    refine ⟨hnodup', ?_⟩
    intro x hx hmem
    rw [hjobs, List.mem_append] at hmem
    rcases hmem with hold | hmoved
    · exact hnew' x hx hold
    · exact h.disjoint tx t id u hget hu hid x hmoved hx
  · intro id u id' u' hu hu' hne
    rw [htxs, Table.get?_remove] at hu hu'
    split_ifs at hu hu'
    exact h.disjoint id u id' u' hu hu' hne

theorem jobsOnce_step (s : World) (action : Action) (s' : World) (h : JobsOnce s)
    (hstep : step s action = some s') : JobsOnce s' := by
  cases effect_of_step s action s' hstep with
  | outside _ _ htxs _ _ hjobs =>
    exact ⟨by rw [hjobs]; exact h.committed, by rw [htxs, hjobs]; exact h.pending,
      by rw [htxs]; exact h.disjoint⟩
  | begin _ _ body hbody hs =>
    subst hs
    exact jobsOnce_set s.started _ h rfl rfl List.nodup_nil
      (fun x hx => absurd hx List.not_mem_nil) (fun _ _ _ _ x hx => absurd hx List.not_mem_nil)
  | update _ tx t t' hget hmove hs => subst hs; exact jobsOnce_update h hget hmove
  | close _ tx t _ _ hget hs =>
    subst hs
    have hold : ∀ id u, (s.closeTx tx).txs.get? id = some u → s.txs.get? id = some u := by
      intro id u hu
      rw [World.closeTx, Table.get?_remove] at hu
      split_ifs at hu
      exact hu
    exact ⟨h.committed, fun id u hu => h.pending id u (hold id u hu),
      fun id u id' u' hu hu' => h.disjoint id u id' u' (hold id u hu) (hold id' u' hu')⟩
  | commitInsert tx t i hget hbody hidle hs => subst hs; exact jobsOnce_commit tx t h hget rfl rfl
  | commitActivate tx t a lease hget hbody hs =>
    subst hs
    exact jobsOnce_commit tx t h hget rfl rfl

theorem jobs_step (s : World) (action : Action) (s' : World) (id : EventId) (h : id ∈ s.jobs)
    (hstep : step s action = some s') : id ∈ s'.jobs := by
  cases effect_of_step s action s' hstep with
  | outside _ _ htxs _ _ hjobs => rw [hjobs]; exact h
  | begin _ _ body hbody hs => subst hs; exact h
  | update _ tx t t' hget hmove hs => subst hs; exact h
  | close _ tx t _ _ hget hs => subst hs; exact h
  | commitInsert tx t i hget hbody hidle hs => subst hs; exact List.mem_append_left _ h
  | commitActivate tx t a lease hget hbody hs => subst hs; exact List.mem_append_left _ h

/-! ## Who inserted what -/

theorem get?_insertRows (rows : List (EventId × EventRow)) (events : Events) (id : EventId)
    (row : EventRow) (h : (insertRows events rows).get? id = some row) :
    (id, row) ∈ rows ∨ events.get? id = some row := by
  induction rows generalizing events with
  | nil => exact Or.inr h
  | cons x rows ih =>
    rcases ih _ h with hmem | hget
    · exact Or.inl (List.mem_cons_of_mem _ hmem)
    · rw [Table.get?_set] at hget
      split_ifs at hget with hid
      · subst hid
        cases hget
        exact Or.inl List.mem_cons_self
      · exact Or.inr hget

structure Owned (s : World) : Prop where
  begun : ∀ tx t, s.txs.get? tx = some t → t.now ≤ s.clock
  opened : ∀ tx t, s.txs.get? tx = some t → tx < s.started
  rows : ∀ tx t, s.txs.get? tx = some t → ∀ x ∈ t.pendingRows, x.2.insertedBy = tx
  events : ∀ id row, s.events.get? id = some row →
    row.insertedBy < s.started ∧ s.txs.get? row.insertedBy = none

theorem owned_init (clock : Int) : Owned (.init clock) where
  begun tx t h := by cases h
  opened tx t h := by cases h
  rows tx t h := by cases h
  events id row h := by cases h

theorem rows_update (hmove : TxMoves s tx t action t')
    (h : ∀ x ∈ t.pendingRows, x.2.insertedBy = tx) : ∀ x ∈ t'.pendingRows, x.2.insertedBy = tx := by
  intro x hx
  cases hmove with
  | insertOther i id kind receivedAt hbody hidle hkind =>
    simp only [Tx.pendingRows, hidle] at hx
    rcases List.mem_append.mp hx with hold | hnew
    · exact h x (by simpa [Tx.pendingRows, hbody, hidle] using hold)
    · cases List.mem_singleton.mp hnew
      rfl
  | insertPush i id kind receivedAt hbody hidle =>
    simp only [Tx.pendingRows] at hx
    rcases List.mem_append.mp hx with hold | hnew
    · exact h x (by simpa [Tx.pendingRows, hbody, hidle] using hold)
    · cases List.mem_singleton.mp hnew
      rfl
  | lockShared i id row hbody hstage => exact h x (by simpa [Tx.pendingRows, hbody, hstage] using hx)
  | checkYes i id row hbody hstage => exact h x (by simpa [Tx.pendingRows, hbody, hstage] using hx)
  | checkNo i id row hbody hstage => exact h x (by simpa [Tx.pendingRows, hbody, hstage] using hx)
  | enqueue i id row hbody hstage => exact h x (by simpa [Tx.pendingRows, hbody, hstage] using hx)
  | lockExclusive => cases hx
  | write => cases hx
  | backfill => cases hx

theorem owned_close (tx : TxId) (h : Owned s) (htxs : s'.txs = s.txs.remove tx)
    (hclock : s'.clock = s.clock) (hstarted : s'.started = s.started)
    (hevents : ∀ id row, s'.events.get? id = some row →
      row.insertedBy < s.started ∧ (row.insertedBy = tx ∨ s.txs.get? row.insertedBy = none)) :
    Owned s' := by
  have hold : ∀ id u, s'.txs.get? id = some u → s.txs.get? id = some u := by
    intro id u hu
    rw [htxs, Table.get?_remove] at hu
    split_ifs at hu
    exact hu
  refine ⟨?_, ?_, fun id u hu => h.rows id u (hold id u hu), ?_⟩
  · intro id u hu
    rw [hclock]
    exact h.begun id u (hold id u hu)
  · intro id u hu
    rw [hstarted]
    exact h.opened id u (hold id u hu)
  · intro id row hrow
    obtain ⟨hlt, hclosed⟩ := hevents id row hrow
    refine ⟨by rw [hstarted]; exact hlt, ?_⟩
    rw [htxs, Table.get?_remove]
    rcases hclosed with htx | hnone
    · rw [if_pos htx]
    · rw [hnone, ite_self]

theorem now_update (hmove : TxMoves s tx t action t') : t.now = t'.now := by
  cases hmove <;> rfl

theorem owned_step (s : World) (action : Action) (s' : World) (h : Owned s)
    (hstep : step s action = some s') : Owned s' := by
  cases effect_of_step s action s' hstep with
  | outside _ _ htxs hclock hstarted _ hevents =>
    refine ⟨by rw [htxs]; exact fun tx t hget => Int.le_trans (h.begun tx t hget) hclock,
      by rw [htxs, hstarted]; exact h.opened, by rw [htxs]; exact h.rows, ?_⟩
    intro id row hget
    obtain ⟨row', hget', heq⟩ := onlyDeletes_live hevents hget
    rw [htxs, hstarted, ← (EventRow.eq_of_live_eq heq).2.2]
    exact h.events id row' hget'
  | begin _ _ body hbody hs =>
    subst hs
    refine ⟨?_, ?_, ?_, ?_⟩
    · intro tx t hget
      rw [World.begin, Table.get?_set] at hget
      split_ifs at hget with htx
      · cases hget
        exact Int.le_refl _
      · exact h.begun tx t hget
    · intro tx t hget
      rw [World.begin, Table.get?_set] at hget
      split_ifs at hget with htx
      · subst htx
        exact Nat.lt_succ_self _
      · exact Nat.lt_succ_of_lt (h.opened tx t hget)
    · intro tx t hget x hx
      rw [World.begin, Table.get?_set] at hget
      split_ifs at hget with htx
      · cases hget
        rcases hbody with rfl | ⟨a, rfl⟩ <;> cases hx
      · exact h.rows tx t hget x hx
    · intro id row hget
      obtain ⟨hlt, hnone⟩ := h.events id row hget
      refine ⟨Nat.lt_succ_of_lt hlt, ?_⟩
      rw [World.begin, Table.get?_set, if_neg (Nat.ne_of_lt hlt), hnone]
  | update _ tx t t' hget hmove hs =>
    subst hs
    refine ⟨?_, ?_, ?_, ?_⟩
    · intro id u hu
      rw [World.setTx, Table.get?_set] at hu
      split_ifs at hu with hid
      · cases hu
        exact now_update hmove ▸ h.begun tx t hget
      · exact h.begun id u hu
    · intro id u hu
      rw [World.setTx, Table.get?_set] at hu
      split_ifs at hu with hid
      · exact hid ▸ h.opened tx t hget
      · exact h.opened id u hu
    · intro id u hu x hx
      rw [World.setTx, Table.get?_set] at hu
      split_ifs at hu with hid
      · cases hu
        exact hid ▸ rows_update hmove (h.rows tx t hget) x hx
      · exact h.rows id u hu x hx
    · intro id row hrow
      obtain ⟨hlt, hnone⟩ := h.events id row hrow
      refine ⟨hlt, ?_⟩
      rw [World.setTx, Table.get?_set, if_neg, hnone]
      rintro rfl
      rw [hnone] at hget
      cases hget
  | close _ tx t _ _ hget hs =>
    subst hs
    exact owned_close tx h rfl rfl rfl fun id row hrow => (h.events id row hrow).imp_right Or.inr
  | commitInsert tx t i hget hbody hidle hs =>
    subst hs
    refine owned_close tx h rfl rfl rfl ?_
    intro id row hrow
    rcases get?_insertRows i.rows s.events id row hrow with hnew | hold
    · have hby := h.rows tx t hget (id, row) (by simpa [Tx.pendingRows, hbody, hidle] using hnew)
      exact ⟨hby ▸ h.opened tx t hget, Or.inl hby⟩
    · exact (h.events id row hold).imp_right Or.inr
  | commitActivate tx t a lease hget hbody hs =>
    subst hs
    exact owned_close tx h rfl rfl rfl fun id row hrow => (h.events id row hrow).imp_right Or.inr

/-! ## A job that is decided on is committed -/

/-- The job is there, or the open transaction will commit it, or the transaction closed without
committing the event. -/
def WillEnqueue (tx : TxId) (id : EventId) (s : World) : Prop :=
  id ∈ s.jobs ∨
    (∃ t, s.txs.get? tx = some t ∧
      (id ∈ t.jobs ∨ ∃ i row, t.body = .insert i ∧ i.trigger = .enqueuing id row)) ∨
    (tx < s.started ∧ s.txs.get? tx = none ∧
      ∀ row, s.events.get? id = some row → row.insertedBy ≠ tx)

theorem jobs_update (hmove : TxMoves s tx t action t')
    (h : id ∈ t.jobs ∨ ∃ i row, t.body = .insert i ∧ i.trigger = .enqueuing id row) :
    id ∈ s.jobs ∨ id ∈ t'.jobs := by
  rcases h with hmem | ⟨i, row, hi, hstage⟩
  · right
    cases hmove with
    | enqueue => exact (mem_enqueueJob ..).mpr (Or.inl hmem)
    | backfill => exact (mem_foldl_enqueueJob ..).mpr (Or.inl hmem)
    | _ => exact hmem
  · cases hmove with
    | enqueue i' id' row' hbody hstage' =>
      rw [hi] at hbody
      cases hbody
      rw [hstage] at hstage'
      cases hstage'
      by_cases hin : id ∈ s.jobs
      · exact Or.inl hin
      · exact Or.inr ((mem_enqueueJob ..).mpr (Or.inr ⟨rfl, hin⟩))
    | _ => simp_all

theorem jobs_commit (hget : s.txs.get? tx = some t)
    (h : id ∈ t.jobs ∨ ∃ i row, t.body = .insert i ∧ i.trigger = .enqueuing id row)
    (hstep : step s (.commit tx) = some s') : id ∈ s'.jobs := by
  cases effect_of_step s _ s' hstep with
  | outside _ haction => cases haction
  | begin _ haction => cases haction
  | update _ tx' u t' hget' hmove => cases hmove
  | close _ tx' u haction hcommit =>
    cases haction
    exact absurd rfl hcommit
  | commitInsert _ u i hget' hbody hidle hs =>
    subst hs
    rw [hget] at hget'
    cases hget'
    rcases h with hjob | ⟨i', row, hi, hstage⟩
    · exact List.mem_append_right _ hjob
    · rw [hi] at hbody
      cases hbody
      rw [hidle] at hstage
      cases hstage
  | commitActivate _ u a lease hget' hbody hs =>
    subst hs
    rw [hget] at hget'
    cases hget'
    rcases h with hjob | ⟨i', row, hi, -⟩
    · exact List.mem_append_right _ hjob
    · rw [hi] at hbody
      cases hbody

theorem willEnqueue_step (tx : TxId) (id : EventId) (s : World) (action : Action) (s' : World)
    (howned : Owned s) (h : WillEnqueue tx id s) (hstep : step s action = some s') :
    WillEnqueue tx id s' := by
  rcases h with hjob | hopen | hclosed
  · exact Or.inl (jobs_step s action s' id hjob hstep)
  · obtain ⟨t, hget, hdecided⟩ := hopen
    -- While the transaction is open, no committed row is its own.
    have hnotOwn : ∀ row, s.events.get? id = some row → row.insertedBy ≠ tx := by
      rintro row hrow rfl
      rw [(howned.events id row hrow).2] at hget
      cases hget
    cases effect_of_step s action s' hstep with
    | outside _ _ htxs => exact Or.inr (Or.inl ⟨t, by rw [htxs, hget], hdecided⟩)
    | begin _ _ body hbody hs =>
      subst hs
      refine Or.inr (Or.inl ⟨t, ?_, hdecided⟩)
      rw [World.begin, Table.get?_set, if_neg (Nat.ne_of_lt (howned.opened tx t hget)), hget]
    | update _ tx' u t' hget' hmove hs =>
      subst hs
      by_cases htx : tx' = tx
      · subst htx
        rw [hget] at hget'
        cases hget'
        rcases jobs_update hmove hdecided with hjob | hjob
        · exact Or.inl hjob
        · exact Or.inr (Or.inl ⟨t', by simp [World.setTx], Or.inl hjob⟩)
      · refine Or.inr (Or.inl ⟨t, ?_, hdecided⟩)
        rw [World.setTx, Table.get?_set, if_neg (Ne.symm htx), hget]
    | close _ tx' u _ _ hget' hs =>
      subst hs
      by_cases htx : tx' = tx
      · subst htx
        exact Or.inr (Or.inr ⟨howned.opened tx' t hget, by simp [World.closeTx], hnotOwn⟩)
      · refine Or.inr (Or.inl ⟨t, ?_, hdecided⟩)
        rw [World.closeTx, Table.get?_remove, if_neg (Ne.symm htx), hget]
    | commitInsert tx' u i hget' hbody hidle hs =>
      subst hs
      by_cases htx : tx' = tx
      · subst htx
        exact Or.inl (jobs_commit hget hdecided hstep)
      · refine Or.inr (Or.inl ⟨t, ?_, hdecided⟩)
        simp only [World.closeTx]
        rw [Table.get?_remove, if_neg (Ne.symm htx), hget]
    | commitActivate tx' u a lease hget' hbody hs =>
      subst hs
      by_cases htx : tx' = tx
      · subst htx
        exact Or.inl (jobs_commit hget hdecided hstep)
      · refine Or.inr (Or.inl ⟨t, ?_, hdecided⟩)
        simp only [World.closeTx]
        rw [Table.get?_remove, if_neg (Ne.symm htx), hget]
  · obtain ⟨hlt, hnone, hnotOwn⟩ := hclosed
    right; right
    cases effect_of_step s action s' hstep with
    | outside _ _ htxs _ hstarted _ hevents =>
      refine ⟨by rw [hstarted]; exact hlt, by rw [htxs]; exact hnone, ?_⟩
      intro row hrow
      obtain ⟨row', hrow', heq⟩ := onlyDeletes_live hevents hrow
      exact (EventRow.eq_of_live_eq heq).2.2 ▸ hnotOwn row' hrow'
    | begin _ _ body hbody hs =>
      subst hs
      refine ⟨Nat.lt_succ_of_lt hlt, ?_, hnotOwn⟩
      rw [World.begin, Table.get?_set, if_neg (Nat.ne_of_lt hlt), hnone]
    | update _ tx' u t' hget' hmove hs =>
      subst hs
      refine ⟨hlt, ?_, hnotOwn⟩
      rw [World.setTx, Table.get?_set, if_neg, hnone]
      rintro rfl
      rw [hnone] at hget'
      cases hget'
    | close _ tx' u _ _ hget' hs =>
      subst hs
      exact ⟨hlt, by simp [World.closeTx, hnone], hnotOwn⟩
    | commitInsert tx' u i hget' hbody hidle hs =>
      subst hs
      refine ⟨hlt, by simp [World.closeTx, hnone], ?_⟩
      intro row hrow
      rcases get?_insertRows i.rows s.events id row hrow with hnew | hold
      · have hby := howned.rows tx' u hget' (id, row)
          (by simpa [Tx.pendingRows, hbody, hidle] using hnew)
        rintro rfl
        rw [hby, hget'] at hnone
        cases hnone
      · exact hnotOwn row hold
    | commitActivate tx' u a lease hget' hbody hs =>
      subst hs
      exact ⟨hlt, by simp [World.closeTx, hnone], hnotOwn⟩

/-! ## No push row is committed while an activation holds the lock -/

/-- From the events at one time on, no push row was added while `tx` was open. -/
def HeldSince (tx : TxId) (events : Events) (s : World) : Prop :=
  ∀ t, s.txs.get? tx = some t → t.holdsExclusive = true ∧
    ∀ id row, s.events.get? id = some row → row.kind ∈ pushKinds →
      ∃ row', events.get? id = some row' ∧ row'.live = row.live

theorem holdsExclusive_update (hmove : TxMoves s tx t action t') (h : t.holdsExclusive = true) :
    t'.holdsExclusive = true := by
  cases hmove with
  | write => rfl
  | backfill => rfl
  | _ => simp_all [Tx.holdsExclusive]

theorem heldSince_step (tx : TxId) (events : Events) (s : World) (action : Action) (s' : World)
    (hlocks : Locks s) (hlt : tx < s.started) (h : HeldSince tx events s)
    (hstep : step s action = some s') : HeldSince tx events s' := by
  intro t hget
  cases effect_of_step s action s' hstep with
  | outside _ _ htxs _ _ _ hevents =>
    rw [htxs] at hget
    obtain ⟨hheld, hrows⟩ := h t hget
    refine ⟨hheld, ?_⟩
    intro id row hrow hkind
    obtain ⟨row', hrow', heq⟩ := onlyDeletes_live hevents hrow
    rw [← (EventRow.eq_of_live_eq heq).1] at hkind
    obtain ⟨row'', hrow'', heq'⟩ := hrows id row' hrow' hkind
    exact ⟨row'', hrow'', heq'.trans heq⟩
  | begin _ _ body hbody hs =>
    subst hs
    rw [World.begin, Table.get?_set, if_neg (Nat.ne_of_lt hlt)] at hget
    exact h t hget
  | update _ tx' u t' hget' hmove hs =>
    subst hs
    rw [World.setTx, Table.get?_set] at hget
    split_ifs at hget with htx
    · subst htx
      cases hget
      obtain ⟨hheld, hrows⟩ := h u hget'
      exact ⟨holdsExclusive_update hmove hheld, hrows⟩
    · exact h t hget
  | close _ tx' u _ _ hget' hs =>
    subst hs
    rw [World.closeTx, Table.get?_remove] at hget
    split_ifs at hget
    exact h t hget
  | commitInsert tx' u i hget' hbody hidle hs =>
    subst hs
    simp only [World.closeTx, Table.get?_remove] at hget
    split_ifs at hget with htx
    obtain ⟨hheld, hrows⟩ := h t hget
    refine ⟨hheld, ?_⟩
    intro id row hrow hkind
    rcases get?_insertRows i.rows s.events id row hrow with hnew | hold
    · -- A push row was checked under the shared lock, which excludes the activation.
      have hlocked := (hlocks.rows tx' u hget' i hbody).1 (id, row) hnew hkind
      have hnone := (hlocks.exclusive tx t tx' u hget hget' (Ne.symm htx) hheld).1
      rw [Tx.holdsShared, hbody] at hnone
      exact absurd hlocked (by simp [hnone])
    · exact hrows id row hold hkind
  | commitActivate tx' u a lease hget' hbody hs =>
    subst hs
    simp only [World.closeTx, Table.get?_remove] at hget
    split_ifs at hget
    exact h t hget

structure Reachable (s : World) : Prop where
  locks : Locks s
  jobs : JobsOnce s
  owned : Owned s

theorem reachable_init (clock : Int) : Reachable (.init clock) :=
  ⟨locks_init clock, jobsOnce_init clock, owned_init clock⟩

theorem reachable_step (s : World) (action : Action) (s' : World) (h : Reachable s)
    (hstep : step s action = some s') : Reachable s' :=
  ⟨locks_step s action s' h.locks hstep, jobsOnce_step s action s' h.jobs hstep,
    owned_step s action s' h.owned hstep⟩

variable {actions : List Action}

theorem reachable_run (h : Reachable s) (hrun : run step s actions = some s') : Reachable s' :=
  run_invariant Reachable reachable_step h hrun

theorem willEnqueue_run (tx : TxId) (id : EventId) (hs : Reachable s) (h : WillEnqueue tx id s)
    (hrun : run step s actions = some s') : WillEnqueue tx id s' := by
  have hboth : Reachable s' ∧ WillEnqueue tx id s' := by
    refine run_invariant (fun s => Reachable s ∧ WillEnqueue tx id s) ?_ ⟨hs, h⟩ hrun
    rintro s action s' ⟨hr, hw⟩ hstep
    exact ⟨reachable_step s action s' hr hstep,
      willEnqueue_step tx id s action s' hr.owned hw hstep⟩
  exact hboth.2

theorem started_step (s : World) (action : Action) (s' : World) (hstep : step s action = some s') :
    s.started ≤ s'.started := by
  cases effect_of_step s action s' hstep with
  | outside _ _ _ _ hstarted => rw [hstarted]
  | begin _ _ body hbody hs => subst hs; exact Nat.le_succ _
  | update _ tx t t' hget hmove hs => subst hs; rfl
  | close _ tx t _ _ hget hs => subst hs; rfl
  | commitInsert tx t i hget hbody hidle hs => subst hs; rfl
  | commitActivate tx t a lease hget hbody hs => subst hs; rfl

theorem heldSince_run (tx : TxId) (events : Events) (hs : Reachable s) (hlt : tx < s.started)
    (h : HeldSince tx events s) (hrun : run step s actions = some s') : HeldSince tx events s' := by
  have hall : Reachable s' ∧ tx < s'.started ∧ HeldSince tx events s' := by
    refine run_invariant (fun s => Reachable s ∧ tx < s.started ∧ HeldSince tx events s) ?_
      ⟨hs, hlt, h⟩ hrun
    rintro s action s' ⟨hr, hl, hh⟩ hstep
    exact ⟨reachable_step s action s' hr hstep, Nat.lt_of_lt_of_le hl (started_step s action s' hstep),
      heldSince_step tx events s action s' hr.locks hl hh hstep⟩
  exact hall.2.2

/-! ## Events before an activation and events after it -/

theorem mem_backfillIds {events : Events} {now : Int} (hrow : events.get? id = some row)
    (hkind : row.kind ∈ pushKinds) (hlive : row.deleted = false)
    (hrecent : now - backfillSecs * 1000000 < row.receivedAt) : id ∈ backfillIds events now := by
  refine List.mem_filterMap.mpr ⟨(id, row), (Table.mem_toList ..).mpr hrow, ?_⟩
  simp only [hkind, hlive, hrecent, and_self, if_true]

def GateChecked (s : World) (id : EventId) (row : EventRow) : Prop :=
  s.events.get? id = some row ∨
    ∃ tx t i, s.txs.get? tx = some t ∧ t.body = .insert i ∧
      ((id, row) ∈ i.rows ∨ i.trigger = .enqueuing id row)

theorem gateChecked_committed (hlocks : Locks s) (hget : s.txs.get? tx = some t)
    (hheld : t.holdsExclusive = true) (hkind : row.kind ∈ pushKinds) (h : GateChecked s id row) :
    s.events.get? id = some row := by
  rcases h with hrow | ⟨tx', u, i, hget', hbody, hchecked⟩
  · exact hrow
  · exfalso
    have hlocked : i.locked = true := by
      obtain ⟨hrows, htrigger⟩ := hlocks.rows tx' u hget' i hbody
      rcases hchecked with hmem | hstage
      · exact hrows (id, row) hmem hkind
      · exact htrigger id row (Or.inr hstage)
    by_cases htx : tx' = tx
    · subst htx
      rw [hget] at hget'
      cases hget'
      rw [Tx.holdsExclusive, hbody] at hheld
      cases hheld
    · have hnone := (hlocks.exclusive tx t tx' u hget hget' htx hheld).1
      simp only [Tx.holdsShared, hbody, hlocked, reduceCtorEq] at hnone

theorem willEnqueue_of_check {i : InsertTx} (hget : s.txs.get? tx = some t)
    (hbody : t.body = .insert i) (hstage : i.trigger = .checking id row)
    (hlease : eligibleLease s.leases t.now = true) (hstep : step s (.check tx) = some s') :
    WillEnqueue tx id s' := by
  simp only [step, Action.tx, hget, hbody, stepInsert, hstage, hlease, if_true,
    Option.some.injEq] at hstep
  subst hstep
  refine Or.inr (Or.inl ⟨_, by rw [World.setTx, Table.get?_set, if_pos rfl], Or.inr ?_⟩)
  exact ⟨_, row, rfl, rfl⟩

theorem backfill_step (hget : s.txs.get? tx = some t) (hstep : step s (.backfill tx) = some s') :
    ∃ a lease, t.body = .activate a (.written lease) ∧
      s' = s.setTx tx ⟨t.now, (backfillIds s.events t.now).foldl (enqueueJob s.jobs) t.jobs,
        .activate a (.backfilled lease)⟩ := by
  simp only [step, Action.tx, hget] at hstep
  split at hstep
  · cases hstep
  · rename_i a stage hbody
    simp only [stepActivate] at hstep
    split at hstep <;> try cases hstep
    split_ifs at hstep
    cases hstep
    exact ⟨a, _, hbody, rfl⟩

theorem willEnqueue_of_backfill (hget : s.txs.get? tx = some t)
    (hsel : id ∈ backfillIds s.events t.now) (hstep : step s (.backfill tx) = some s') :
    WillEnqueue tx id s' := by
  by_cases hjob : id ∈ s.jobs
  · exact Or.inl (jobs_step s _ s' id hjob hstep)
  · obtain ⟨a, lease, -, rfl⟩ := backfill_step hget hstep
    refine Or.inr (Or.inl ⟨_, by rw [World.setTx, Table.get?_set, if_pos rfl], Or.inl ?_⟩)
    exact (mem_foldl_enqueueJob ..).mpr (Or.inr ⟨hsel, hjob⟩)

theorem jobs_run (h : id ∈ s.jobs) (hrun : run step s actions = some s') : id ∈ s'.jobs :=
  run_invariant (fun s => id ∈ s.jobs) (fun s action s' h => jobs_step s action s' id h) h hrun

theorem checked_event_has_job {s₁ s₂ : World} {i : InsertTx} {row' : EventRow} {later : List Action}
    (hs : Reachable s) (hget : s.txs.get? tx = some t) (hbody : t.body = .insert i)
    (hstage : i.trigger = .checking id row) (hlease : eligibleLease s.leases t.now = true)
    (hstep : step s (.check tx) = some s₁) (hrun : run step s₁ later = some s₂)
    (hrow : s₂.events.get? id = some row') (hby : row'.insertedBy = tx) : id ∈ s₂.jobs := by
  have hs₁ := reachable_step s _ s₁ hs hstep
  have hs₂ := reachable_run hs₁ hrun
  have hclosed := (hs₂.owned.events id row' hrow).2
  rw [hby] at hclosed
  rcases willEnqueue_run tx id hs₁ (willEnqueue_of_check hget hbody hstage hlease hstep) hrun with
    hjob | ⟨u, hget', -⟩ | ⟨-, -, hnotOwn⟩
  · exact hjob
  · rw [hclosed] at hget'
    cases hget'
  · exact absurd hby (hnotOwn row' hrow)

theorem backfilled_event_has_job {s₁ s₂ s₃ : World} {between : List Action} (hs : Reachable s)
    (hget : s.txs.get? tx = some t) (hstep : step s (.backfill tx) = some s₁)
    (hrun : run step s₁ between = some s₂) (hcommit : step s₂ (.commit tx) = some s₃)
    (hchecked : GateChecked s₂ id row) (hkind : row.kind ∈ pushKinds)
    (hlive : ∀ r, s.events.get? id = some r → r.deleted = false)
    (hrecent : t.now - backfillSecs * 1000000 < row.receivedAt) : id ∈ s₃.jobs := by
  have hs₁ := reachable_step s _ s₁ hs hstep
  have hs₂ := reachable_run hs₁ hrun
  have hlt := hs.owned.opened tx t hget
  obtain ⟨u, hopen⟩ : ∃ u, s₂.txs.get? tx = some u := by
    cases hu : s₂.txs.get? tx with
    | some u => exact ⟨u, rfl⟩
    | none => simp [step, Action.tx, hu] at hcommit
  have hheld : HeldSince tx s.events s := by
    intro t' hget'
    obtain ⟨a, lease, hbody, -⟩ := backfill_step hget hstep
    rw [hget] at hget'
    cases hget'
    exact ⟨by simp [Tx.holdsExclusive, hbody], fun id row hrow _ => ⟨row, hrow, rfl⟩⟩
  have hheld₁ := heldSince_step tx s.events s _ s₁ hs.locks hlt hheld hstep
  have hlt₁ := Nat.lt_of_lt_of_le hlt (started_step s _ s₁ hstep)
  obtain ⟨hexclusive, hrows⟩ := heldSince_run tx s.events hs₁ hlt₁ hheld₁ hrun u hopen
  -- The event was committed before the backfill, so the backfill selects it.
  obtain ⟨row', hrow', heq⟩ :=
    hrows id row (gateChecked_committed hs₂.locks hopen hexclusive hkind hchecked) hkind
  have hsel : id ∈ backfillIds s.events t.now := by
    obtain ⟨hkindEq, hreceivedEq, -⟩ := EventRow.eq_of_live_eq heq
    rw [← hkindEq] at hkind
    rw [← hreceivedEq] at hrecent
    exact mem_backfillIds hrow' hkind (hlive row' hrow') hrecent
  rcases willEnqueue_run tx id hs₁ (willEnqueue_of_backfill hget hsel hstep) hrun with
    hjob | ⟨v, hget', hdecided⟩ | ⟨-, hnone, -⟩
  · exact jobs_step s₂ _ s₃ id hjob hcommit
  · exact jobs_commit hget' hdecided hcommit
  · rw [hopen] at hnone
    cases hnone

/-- At most one job for an event. One job if its check sees an eligible lease, or if the check
runs before an activation commits and the event is less than 120 s older than the start of
that activation's transaction, which is never after the backfill. -/
theorem push_gate_loses_no_wake (clock : Int) (actions : List Action) (s : World)
    (hreach : run step (.init clock) actions = some s) :
    (∀ id, s.jobs.count id ≤ 1) ∧
    (∀ tx t, s.txs.get? tx = some t → t.now ≤ s.clock) ∧
    (∀ tx t i id row later s₁ s₂ row', s.txs.get? tx = some t → t.body = .insert i →
      i.trigger = .checking id row → eligibleLease s.leases t.now = true →
      step s (.check tx) = some s₁ → run step s₁ later = some s₂ →
      s₂.events.get? id = some row' → row'.insertedBy = tx → id ∈ s₂.jobs) ∧
    (∀ tx t id row between later s₁ s₂ s₃ s₄, s.txs.get? tx = some t →
      step s (.backfill tx) = some s₁ → run step s₁ between = some s₂ →
      step s₂ (.commit tx) = some s₃ → run step s₃ later = some s₄ →
      GateChecked s₂ id row → row.kind ∈ pushKinds →
      (∀ r, s.events.get? id = some r → r.deleted = false) →
      t.now - backfillSecs * 1000000 < row.receivedAt → id ∈ s₄.jobs) := by
  have hs := reachable_run (reachable_init clock) hreach
  refine ⟨fun id => List.nodup_iff_count_le_one.mp hs.jobs.committed id, hs.owned.begun, ?_, ?_⟩
  · intro tx t i id row later s₁ s₂ row' hget hbody hstage hlease hstep hrun hrow hby
    exact checked_event_has_job hs hget hbody hstage hlease hstep hrun hrow hby
  · intro tx t id row between later s₁ s₂ s₃ s₄ hget hstep hrun hcommit hrest hchecked hkind
      hlive hrecent
    exact jobs_run (backfilled_event_has_job hs hget hstep hrun hcommit hchecked hkind hlive
      hrecent) hrest

def firstLease : Activation where
  addr := ⟨1, "phone"⟩
  version := ⟨9, 0, 1, 86400⟩
  endpoint := ⟨"ios", 5, "grant", "default"⟩
  path := .acceptLeaseEvent 4

/-- Event 1 is committed at time 0, and `age` later a lease is written. -/
def eventThenLease (age : Nat) : List Action :=
  [.beginInsert, .insert 0 1 9 0, .lockShared 0, .check 0, .commit 0, .advance age,
    .beginActivate firstLease, .lockExclusive 1, .write 1]

def leaseThenEvent : List Action :=
  eventThenLease 60000000 ++
    [Action.backfill 1, .commit 1, .beginInsert, .insert 2 2 9 60000000, .lockShared 2]

theorem push_gate_loses_no_wake_beforeAndAfter :
    (∃ s s', run step (.init 0) (eventThenLease 60000000) = some s ∧
      run step s [.backfill 1, .commit 1] = some s' ∧ 1 ∈ s'.jobs) ∧
    ∃ s s', run step (.init 0) leaseThenEvent = some s ∧
      run step s [.check 2, .enqueue 2, .commit 2] = some s' ∧ 2 ∈ s'.jobs := by
  constructor
  · obtain ⟨s', hrun⟩ := Option.isSome_iff_exists.mp
      (show (run step (.init 0) (eventThenLease 60000000 ++ [Action.backfill 1, .commit 1])).isSome
        by decide)
    obtain ⟨s, hreach, hrest⟩ := run_append_some.mp hrun
    obtain ⟨s₁, hbackfill, hcommits⟩ := run_cons_some.mp hrest
    obtain ⟨s₂, hcommit, hend⟩ := run_cons_some.mp hcommits
    cases hend
    refine ⟨s, s', hreach, hrest, ?_⟩
    have htx : ((run step (.init 0) (eventThenLease 60000000)).bind fun s =>
        (s.txs.get? 1).map Tx.now) = some 60000000 := by decide
    have hbefore : ((run step (.init 0) (eventThenLease 60000000)).bind fun s =>
        s.events.get? 1) = some ⟨9, 0, false, 0⟩ := by decide
    have hafter : ((run step (.init 0) (eventThenLease 60000000 ++ [Action.backfill 1])).bind fun s =>
        s.events.get? 1) = some ⟨9, 0, false, 0⟩ := by decide
    rw [hreach] at htx hbefore
    rw [run_append_some.mpr ⟨s, hreach, run_cons_some.mpr ⟨s₁, hbackfill, rfl⟩⟩] at hafter
    obtain ⟨t, hget, hnow⟩ := Option.map_eq_some_iff.mp htx
    refine (push_gate_loses_no_wake 0 _ s hreach).2.2.2 1 t 1 ⟨9, 0, false, 0⟩ [] [] s₁ s₁ s' s'
      hget hbackfill rfl hcommit rfl (Or.inl hafter) (by decide) ?_ ?_
    · intro r hr
      cases hbefore.symm.trans hr
      rfl
    · rw [hnow]
      decide
  · obtain ⟨s', hrun⟩ := Option.isSome_iff_exists.mp
      (show (run step (.init 0) (leaseThenEvent ++ [Action.check 2, .enqueue 2, .commit 2])).isSome
        by decide)
    obtain ⟨s, hreach, hrest⟩ := run_append_some.mp hrun
    obtain ⟨s₁, hcheck, hlater⟩ := run_cons_some.mp hrest
    refine ⟨s, s', hreach, hrest, ?_⟩
    have htx : ((run step (.init 0) leaseThenEvent).bind fun s => s.txs.get? 2) =
        some ⟨60000000, [], .insert ⟨true, [], .checking 2 ⟨9, 60000000, false, 2⟩⟩⟩ := by decide
    have hlease : ((run step (.init 0) leaseThenEvent).map fun s =>
        eligibleLease s.leases 60000000) = some true := by decide
    have hrow : ((run step (.init 0) (leaseThenEvent ++ [Action.check 2, .enqueue 2, .commit 2])).bind
        fun s => s.events.get? 2) = some ⟨9, 60000000, false, 2⟩ := by decide
    rw [hreach] at htx hlease
    rw [hrun] at hrow
    exact (push_gate_loses_no_wake 0 _ s hreach).2.2.1 2 _ _ 2 _ [.enqueue 2, .commit 2] s₁ s' _
      htx rfl rfl (Option.some.inj hlease) hcheck hlater hrow rfl

/-- The backfill leaves out an event received exactly 120 s before it. -/
theorem event_of_120_s_is_missed :
    ∃ s s₁ s₂ row, run step (.init 0) (eventThenLease 120000000) = some s ∧
      step s (.backfill 1) = some s₁ ∧ step s₁ (.commit 1) = some s₂ ∧
      GateChecked s₁ 1 row ∧ s.events.get? 1 = some row ∧ row.kind ∈ pushKinds ∧
      row.deleted = false ∧ s.clock - backfillSecs * 1000000 ≤ row.receivedAt ∧ 1 ∉ s₂.jobs := by
  obtain ⟨s₂, hrun⟩ := Option.isSome_iff_exists.mp
    (show (run step (.init 0) (eventThenLease 120000000 ++ [Action.backfill 1, .commit 1])).isSome
      by decide)
  obtain ⟨s, hreach, hrest⟩ := run_append_some.mp hrun
  obtain ⟨s₁, hbackfill, hcommits⟩ := run_cons_some.mp hrest
  obtain ⟨_, hcommit, hend⟩ := run_cons_some.mp hcommits
  cases hend
  have hbefore : ((run step (.init 0) (eventThenLease 120000000)).bind fun s =>
      s.events.get? 1) = some ⟨9, 0, false, 0⟩ := by decide
  have hafter : ((run step (.init 0) (eventThenLease 120000000 ++ [Action.backfill 1])).bind fun s =>
      s.events.get? 1) = some ⟨9, 0, false, 0⟩ := by decide
  have hclock : ((run step (.init 0) (eventThenLease 120000000)).map World.clock) =
      some 120000000 := by decide
  have hjobs : ((run step (.init 0) (eventThenLease 120000000 ++ [Action.backfill 1, .commit 1])).map
      World.jobs) = some [] := by decide
  rw [hreach] at hbefore hclock
  rw [run_append_some.mpr ⟨s, hreach, run_cons_some.mpr ⟨s₁, hbackfill, rfl⟩⟩] at hafter
  rw [hrun] at hjobs
  refine ⟨s, s₁, s₂, _, hreach, hbackfill, hcommit, Or.inl hafter, hbefore, by decide, rfl, ?_, ?_⟩
  · rw [Option.some.inj hclock]
    decide
  · rw [Option.some.inj hjobs]
    exact List.not_mem_nil

end Vingilot.Push
