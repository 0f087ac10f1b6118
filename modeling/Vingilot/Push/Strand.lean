import Vingilot.Push.Fencing

/-! # Duplicates that no worker can deliver

`enqueue_wakes` finds a duplicate by endpoint and event. A claim and a revalidation also ask for
the generation that the row was enqueued with. When the lease has rotated in between, the
duplicate is a row that nobody can claim any more.
-/

namespace Vingilot.Push.Outbox

open Machine

/-- The first moment, from `now` on, at which the row's own columns let a claim take it. -/
def Wake.dueFrom (now : Int) (w : Wake) : Option Int :=
  match w.state with
  | .pending => some (max now w.nextAttemptAt)
  | .sending => w.leaseUntil.map fun u => max (max now w.nextAttemptAt) (u + 1)
  | .delivered => none
  | .failed => none

def Deliverable (t : Tables) (now : Int) (id : Uuid) : Prop :=
  ∃ later limit claimId leaseUntil wake, now ≤ later ∧
    (∃ x ∈ (claimDueWakes t later limit claimId leaseUntil).2, x.id = id) ∧
    revalidateWakeForSend (claimDueWakes t later limit claimId leaseUntil).1 later id claimId =
      .deliver wake

/-- The row's lease is still the one it was enqueued for, and when the row comes due neither the
lease nor the row has run out. -/
def InTime (t : Tables) (now : Int) (w : Wake) : Prop :=
  (t.events.get? w.eventId).isSome = true ∧
  ∃ start l e, w.dueFrom now = some start ∧ t.leases.get? w.addr = some l ∧
    l.version.generation = w.leaseGeneration ∧ l.endpoint = some e ∧
    e.endpointHash = w.endpointHash ∧ l.active = true ∧ l.endpointEnabled = true ∧
    epochSecs start < l.version.expiresAt ∧ epochSecs start < w.expiresAt

/-! ## When a row can be delivered -/

theorem epochSecs_mono {t t' : Int} (h : t ≤ t') : epochSecs t ≤ epochSecs t' := by
  unfold epochSecs
  split <;> split <;> omega

theorem dueFrom_iff {now later : Int} {w : Wake} : (now ≤ later ∧ w.due later = true) ↔
    ∃ start, w.dueFrom now = some start ∧ start ≤ later := by
  unfold Wake.due Wake.dueFrom
  cases w.state with
  | pending =>
    constructor
    · rintro ⟨hnow, hdue⟩
      have hnext : w.nextAttemptAt ≤ later := by simpa using hdue
      exact ⟨_, rfl, by omega⟩
    · rintro ⟨start, hstart, hle⟩
      cases hstart
      have hnext : w.nextAttemptAt ≤ later := by omega
      exact ⟨by omega, by simpa using hnext⟩
  | sending =>
    cases w.leaseUntil with
    | none => simp
    | some u =>
      rw [Option.map_some]
      constructor
      · rintro ⟨hnow, hdue⟩
        have hnext : w.nextAttemptAt ≤ later ∧ u < later := by simpa using hdue
        exact ⟨_, rfl, by omega⟩
      · rintro ⟨start, hstart, hle⟩
        cases hstart
        have hnext : w.nextAttemptAt ≤ later ∧ u < later := by omega
        exact ⟨by omega, by simpa using hnext⟩
  | delivered => simp
  | failed => simp

variable {t : Tables}

theorem sendable_iff {now : Int} {w : Wake} : w.sendable t now = true ↔
    (t.events.get? w.eventId).isSome = true ∧ epochSecs now < w.expiresAt ∧
      ∃ l e, t.leases.get? w.addr = some l ∧ l.version.generation = w.leaseGeneration ∧
        l.endpoint = some e ∧ e.endpointHash = w.endpointHash ∧ l.active = true ∧
        l.endpointEnabled = true ∧ epochSecs now < l.version.expiresAt := by
  simp only [Wake.sendable, Bool.and_eq_true, decide_eq_true_eq, Option.any_eq_true, Wake.lease,
    Option.filter_eq_some_iff, beq_iff_eq, Lease.eligible, and_assoc]
  constructor
  · rintro ⟨hevent, hw, l, hget, hgen, ⟨e, hend, hhash⟩, hactive, henabled, hl⟩
    exact ⟨hevent, hw, l, e, hget, hgen, hend, hhash, hactive, henabled, hl⟩
  · rintro ⟨hevent, hw, l, e, hget, hgen, hend, hhash, hactive, henabled, hl⟩
    exact ⟨hevent, hw, l, hget, hgen, ⟨e, hend, hhash⟩, hactive, henabled, hl⟩

theorem inTime_iff {now : Int} {w : Wake} : InTime t now w ↔
    ∃ start, w.dueFrom now = some start ∧ w.sendable t start = true := by
  simp only [InTime, sendable_iff]
  constructor
  · rintro ⟨hevent, start, l, e, hdue, hget, hgen, hend, hhash, hactive, henabled, hl, hw⟩
    exact ⟨start, hdue, hevent, hw, l, e, hget, hgen, hend, hhash, hactive, henabled, hl⟩
  · rintro ⟨start, hdue, hevent, hw, l, e, hget, hgen, hend, hhash, hactive, henabled, hl⟩
    exact ⟨hevent, start, l, e, hdue, hget, hgen, hend, hhash, hactive, henabled, hl, hw⟩

theorem sendable_earlier {now later : Int} {w : Wake} (hle : now ≤ later)
    (h : w.sendable t later = true) : w.sendable t now = true := by
  rw [sendable_iff] at h ⊢
  obtain ⟨hevent, hw, l, e, hget, hgen, hend, hhash, hactive, henabled, hl⟩ := h
  have hmono := epochSecs_mono hle
  exact ⟨hevent, by omega, l, e, hget, hgen, hend, hhash, hactive, henabled, by omega⟩

theorem toClaimedWake_of_sendable {now : Int} {id claimId : Uuid} {w : Wake}
    (h : w.sendable t now = true) : ∃ x, toClaimedWake t id claimId w = some x ∧ x.id = id := by
  simp only [Wake.sendable, Bool.and_eq_true, decide_eq_true_eq, Option.any_eq_true] at h
  obtain ⟨⟨hevent, -⟩, l, hlease, -⟩ := h
  obtain ⟨channelId, hchannel⟩ := Option.isSome_iff_exists.mp hevent
  have hend := hlease
  simp only [Wake.lease, Option.filter_eq_some_iff, Bool.and_eq_true, Option.any_eq_true] at hend
  obtain ⟨-, -, e, hend, -⟩ := hend
  refine ⟨⟨id, claimId, w.eventId, channelId, w.addr, w.leaseGeneration, e.endpointGrant,
    w.wakeClass, w.expiresAt, w.attempts⟩, ?_, rfl⟩
  simp [toClaimedWake, hlease, hend, hchannel]

theorem candidates_of_due {now : Int} {id : Uuid} {w : Wake} (hget : t.outbox.get? id = some w)
    (hsend : w.sendable t now = true) (hdue : w.due now = true) :
    (id, w) ∈ candidates t now t.outbox.toList.length := by
  unfold candidates
  rw [List.take_of_length_le]
  · rw [List.mem_mergeSort, List.mem_filter, Bool.and_eq_true]
    exact ⟨(Table.mem_toList _ _ _).mpr hget, hsend, hdue⟩
  · rw [List.length_mergeSort]
    exact List.length_filter_le _ _

theorem deliverable_iff {now : Int} {id : Uuid} {w : Wake} (hget : t.outbox.get? id = some w) :
    Deliverable t now id ↔ InTime t now w := by
  rw [inTime_iff]
  constructor
  · rintro ⟨later, limit, claimId, leaseUntil, wake, hle, ⟨x, hx, rfl⟩, -⟩
    simp only [claimDueWakes, List.mem_filterMap, List.mem_map] at hx
    obtain ⟨y, ⟨⟨id, w'⟩, hmem, rfl⟩, hx⟩ := hx
    obtain ⟨hget', hsend, hdue⟩ := mem_candidates hmem
    simp only [toClaimedWake, Option.bind_eq_bind, Option.bind_eq_some_iff, Option.pure_def,
      Option.some.injEq] at hx
    obtain ⟨_, _, _, _, _, _, rfl⟩ := hx
    simp only at hget hget'
    rw [hget'] at hget
    cases hget
    obtain ⟨start, hstart, hbefore⟩ := dueFrom_iff.mp ⟨hle, hdue⟩
    exact ⟨start, hstart, sendable_earlier hbefore hsend⟩
  · rintro ⟨start, hstart, hsend⟩
    obtain ⟨hle, hdue⟩ := dueFrom_iff.mpr ⟨start, hstart, Int.le_refl start⟩
    have hmem := candidates_of_due hget hsend hdue
    have hsend' : (w.claimed 0 start).sendable t start = true := hsend
    obtain ⟨wake, hwake, hid⟩ := @toClaimedWake_of_sendable t start id 0 _ hsend'
    refine ⟨start, t.outbox.toList.length, 0, start, wake, hle, ⟨wake, ?_, hid⟩, ?_⟩
    · simp only [claimDueWakes, List.mem_filterMap, List.mem_map]
      exact ⟨_, ⟨_, hmem, rfl⟩, hwake⟩
    · have hrow := claimDueWakes_get? t start t.outbox.toList.length 0 start id
      rw [hget, Option.map_some, if_pos hmem] at hrow
      -- The claim changes only the outbox, so lease and event are read as before.
      have hsame : (w.claimed 0 start).sendable
          (claimDueWakes t start t.outbox.toList.length 0 start).1 start = true := hsend
      have hwake' : toClaimedWake (claimDueWakes t start t.outbox.toList.length 0 start).1 id 0
          (w.claimed 0 start) = some wake := hwake
      simp only [revalidateWakeForSend, hrow, hsame, hwake', Option.elim_some]
      simp [Wake.claimed]

/-! ## What an enqueue has found -/

def Enqueue.foundIds (e : Enqueue) : List (WakeKey × Uuid) :=
  match e.stage with
  | .found _ _ found => found
  | _ => []

def Enqueue.seen (s : World) (e : Enqueue) : Table Uuid Wake :=
  (s.db e.community).outbox.setAll e.rows

def Known (s : World) : Prop :=
  ∀ tx e, s.enqueues.get? tx = some e → ∀ x ∈ e.foundIds,
    ∃ w, (e.seen s).get? x.2 = some w ∧ w.key = x.1

variable {rows : List (Uuid × Wake)}

theorem duplicateIds_known {outbox : Table Uuid Wake} {eligible : List (WakeRequest × BitVec 256)}
    {x : WakeKey × Uuid} (h : x ∈ duplicateIds outbox eligible rows) (hfresh : Fresh outbox rows) :
    ∃ w, (outbox.setAll rows).get? x.2 = some w ∧ w.key = x.1 := by
  unfold duplicateIds at h
  split_ifs at h with hshort
  · obtain ⟨⟨id, w⟩, hmem, hx⟩ := List.mem_filterMap.mp h
    split_ifs at hx with hany
    cases hx
    refine ⟨w, (setAll_get?_fresh hfresh).mpr ?_, rfl⟩
    rcases List.mem_append.mp hmem with hold | hnew
    · exact .inr ((Table.mem_toList _ _ _).mp hold)
    · exact .inl hnew
  · cases h

theorem seen_of_sameKeys {o o' : Table Uuid Wake} {id : Uuid} {w : Wake} (hfresh : Fresh o rows)
    (hsame : SameKeys o o') (h : (o.setAll rows).get? id = some w) :
    ∃ w', (o'.setAll rows).get? id = some w' ∧ w'.key = w.key := by
  rcases (setAll_get?_fresh hfresh).mp h with hnew | hold
  · exact ⟨w, (setAll_get?_fresh (hfresh.of_sameKeys hsame)).mpr (.inl hnew), rfl⟩
  · have hkey := hsame id
    rw [hold, Option.map_some] at hkey
    obtain ⟨w', hget, hw'⟩ := Option.map_eq_some_iff.mp hkey
    exact ⟨w', (setAll_get?_fresh (hfresh.of_sameKeys hsame)).mpr (.inr hget), hw'⟩

variable {s : World}

theorem known_set {tx : Nat} {e : Enqueue} (h : Known s)
    (he : ∀ x ∈ e.foundIds, ∃ w, (e.seen s).get? x.2 = some w ∧ w.key = x.1) :
    Known { s with enqueues := s.enqueues.set tx e } := by
  intro tx' e' hopen x hx
  simp only [Table.get?_set] at hopen
  split_ifs at hopen with htx
  · cases hopen; exact he x hx
  · exact h tx' e' hopen x hx

theorem Step.known {s' : World} (hstep : Step s s') (hinv : Inv s) (h : Known s) : Known s' := by
  have hinv' := hstep.inv hinv
  cases hstep with
  | single henq hkeys hfinished =>
    intro tx e hopen x hx
    rw [henq] at hopen
    obtain ⟨w, hget, hkey⟩ := h tx e hopen x hx
    obtain ⟨w', hget', hkey'⟩ :=
      seen_of_sameKeys (hinv.fresh tx e hopen) (hkeys e.community) hget
    exact ⟨w', hget', hkey'.trans hkey⟩
  | begin c requests =>
    have hset := @known_set s s.started ⟨c, s.clock, requests, [], .begun⟩ h (by
      intro x hx; cases hx)
    exact hset
  | lock addrs hopen => exact known_set h (by intro x hx; cases hx)
  | insert hopen hfree hrows => exact known_set h (by intro x hx; cases hx)
  | @find tx e resolved rows hopen hstage =>
    refine known_set h ?_
    intro x hx
    have hfresh := hinv.fresh tx e hopen
    rw [show e.rows = rows by simp [Enqueue.rows, hstage]] at hfresh
    exact duplicateIds_known hx hfresh
  | close tx =>
    intro tx' e' hopen x hx
    simp only [Table.get?_remove] at hopen
    split_ifs at hopen with htx
    exact h tx' e' hopen x hx
  | @commit tx e resolved rows found hopen hstage =>
    intro tx' e' hopen' x hx
    have hfresh' := hinv'.fresh tx' e' hopen'
    simp only [World.answer, World.setTables, Table.get?_remove] at hopen'
    split_ifs at hopen' with htx
    obtain ⟨w, hget, hkey⟩ := h tx' e' hopen' x hx
    have hfresh := hinv.fresh tx e hopen
    rw [show e.rows = rows by simp [Enqueue.rows, hstage]] at hfresh
    refine ⟨w, ?_, hkey⟩
    refine (setAll_get?_fresh hfresh').mpr ?_
    rcases (setAll_get?_fresh (hinv.fresh tx' e' hopen')).mp hget with hnew | hold
    · exact .inl hnew
    · right
      simp only [World.answer, setTables_db]
      split_ifs with hc
      · rw [hc] at hold; exact (setAll_get?_fresh hfresh).mpr (.inr hold)
      · exact hold

theorem run_known {clock : Int} {actions : List Action}
    (hrun : run step (World.init clock) actions = some s) : Inv s ∧ Known s := by
  refine run_invariant (fun s => Inv s ∧ Known s) ?_ ⟨inv_init clock, ?_⟩ hrun
  · rintro s₁ action s₂ ⟨hinv, hknown⟩ hstep
    exact ⟨(step_cases hstep).inv hinv, (step_cases hstep).known hinv hknown⟩
  · intro tx e hopen; cases hopen

/-! ## Duplicates -/

theorem jobId_seen {tx : Nat} {e : Enqueue} {key : WakeKey} {id : Uuid} (hinv : Inv s)
    (hknown : Known s) (hopen : s.enqueues.get? tx = some e)
    (h : jobId e.rows e.foundIds key = some id) :
    ∃ w, (e.seen s).get? id = some w ∧ w.key = key := by
  unfold jobId at h
  rw [Option.or_eq_some_iff] at h
  rcases h with hrow | ⟨-, hfound⟩
  · obtain ⟨x, hx, rfl⟩ := Option.map_eq_some_iff.mp hrow
    have hkey := List.find?_some hx
    have hmem := List.mem_of_find?_eq_some hx
    exact ⟨x.2, (setAll_get?_fresh (hinv.fresh tx e hopen)).mpr (.inl hmem), by simpa using hkey⟩
  · obtain ⟨x, hx, rfl⟩ := Option.map_eq_some_iff.mp hfound
    have hkey := List.find?_some hx
    obtain ⟨w, hget, hw⟩ := hknown tx e hopen x (List.mem_of_find?_eq_some hx)
    exact ⟨w, hget, hw.trans (by simpa using hkey)⟩

theorem outcomes_duplicate {found : List (WakeKey × Uuid)}
    {requests : List (WakeRequest × Option (BitVec 256))} {reported : List WakeKey}
    {outs : List EnqueueWakeOutcome} {i : Nat} {id : Uuid}
    (h : outcomes rows found requests reported = some outs) (hi : outs[i]? = some (.duplicate id)) :
    ∃ r h, requests[i]? = some (r, some h) ∧ jobId rows found (h, r.eventId) = some id := by
  induction requests generalizing reported outs i with
  | nil => cases h; simp at hi
  | cons y rest ih =>
    obtain ⟨r, resolved⟩ := y
    cases resolved with
    | none =>
      simp only [outcomes] at h
      obtain ⟨outs', hrest, rfl⟩ := Option.map_eq_some_iff.mp h
      cases i with
      | zero => simp at hi
      | succ i => simpa using ih hrest (by simpa using hi)
    | some endpointHash =>
      simp only [outcomes, Option.bind_eq_bind, Option.bind_eq_some_iff] at h
      obtain ⟨id', hjob, h⟩ := h
      split_ifs at h with hnew
      · obtain ⟨outs', hrest, rfl⟩ := Option.map_eq_some_iff.mp h
        cases i with
        | zero => simp at hi
        | succ i => simpa using ih hrest (by simpa using hi)
      · obtain ⟨outs', hrest, rfl⟩ := Option.map_eq_some_iff.mp h
        cases i with
        | zero =>
          simp only [List.getElem?_cons_zero, Option.some.injEq,
            EnqueueWakeOutcome.duplicate.injEq] at hi
          subst hi
          exact ⟨r, endpointHash, by simp, hjob⟩
        | succ i => simpa using ih hrest (by simpa using hi)

/-- A duplicate's row is done or can still be delivered exactly when it is done, or the lease that
it was enqueued for is still in place and neither has run out. -/
theorem duplicate_deliverable_iff (clock : Int) (actions : List Action) (s s' : World)
    (hrun : run step (World.init clock) actions = some s) (tx : Nat) (e : Enqueue)
    (hopen : s.enqueues.get? tx = some e) (hstep : step s (.commit tx) = some s')
    (outs : List EnqueueWakeOutcome)
    (hanswer : s'.answers = s.answers ++ [Answer.enqueued e.community e.requests (some outs)])
    (i : Nat) (r : WakeRequest) (hr : e.requests[i]? = some r) (id : Uuid)
    (hdup : outs[i]? = some (.duplicate id)) :
    ∃ w, (e.seen s).get? id = some w ∧ w.eventId = r.eventId ∧
      ((∃ w', (s'.db e.community).outbox.get? id = some w' ∧
          (w'.state = .delivered ∨ w'.state = .failed ∨
            Deliverable (s'.db e.community) s'.clock id)) ↔
        (w.state = .delivered ∨ w.state = .failed ∨ InTime (s.db e.community) s.clock w)) := by
  obtain ⟨hinv, hknown⟩ := run_known hrun
  simp only [step, Action.tx, hopen, Option.bind_some, stepEnqueue] at hstep
  split at hstep
  · rename_i resolved rows found hstage
    cases hstep
    have hrows : e.rows = rows := by simp [Enqueue.rows, hstage]
    have hfound : e.foundIds = found := by simp [Enqueue.foundIds, hstage]
    simp only [World.answer, World.setTables, List.append_cancel_left_eq, List.cons.injEq,
      Answer.enqueued.injEq, true_and, and_true] at hanswer
    obtain ⟨r', endpointHash, hget, hjob⟩ := outcomes_duplicate hanswer hdup
    obtain rfl : r' = r := by
      rw [List.getElem?_zip_eq_some] at hget
      rw [hr] at hget
      exact (Option.some.inj hget.1).symm
    rw [← hrows, ← hfound] at hjob
    obtain ⟨w, hseen, hkey⟩ := jobId_seen hinv hknown hopen hjob
    refine ⟨w, hseen, congrArg Prod.snd hkey, ?_⟩
    have htables : ∀ t : Tables, (({ s with enqueues := s.enqueues.remove tx }.setTables
        e.community t).answer (.enqueued e.community e.requests (outcomes rows found
          (e.requests.zip resolved) []))).db e.community = t := by
      intro t; simp [World.answer, World.setTables]
    rw [htables]
    simp only [Enqueue.seen, hrows] at hseen
    rw [deliverable_iff hseen]
    simp only [hseen, Option.some.injEq, exists_eq_left']
    rfl
  · cases hstep

/-! ## A rotation between two enqueues of one event -/

/-- The phone's lease is at `generation` when the event is enqueued for the second time. -/
def enqueueTwice (rotations : List Action) (generation : Int) : List Action :=
  [phoneLease 1 0 7, .storeEvent 0 77 none, .beginEnqueue 0 [phoneWake 1], .lockLeases 0,
    .insert 0 [3], .findDuplicates 0, .commit 0] ++ rotations ++
  [Action.beginEnqueue 0 [phoneWake generation], .lockLeases 1, .insert 1 [], .findDuplicates 1]

/-- The event is absorbed by the row of the first generation, which no worker can claim. -/
theorem rotation_strands_wake : ∃ s s', run step (World.init 0) (enqueueTwice [phoneLease 2 10 8] 2) =
      some s ∧ step s (.commit 1) = some s' ∧
    s'.answers.getLast? = some (.enqueued 0 [phoneWake 2] (some [.duplicate 3])) ∧
    resolve (s'.db 0).leases s'.clock (phoneWake 2) = some 5 ∧
    ¬∃ w, (s'.db 0).outbox.get? 3 = some w ∧
      (w.state = .delivered ∨ w.state = .failed ∨ Deliverable (s'.db 0) s'.clock 3) := by
  have hend : ((run step (World.init 0) (enqueueTwice [phoneLease 2 10 8] 2)).bind fun s =>
      (step s (.commit 1)).map fun s' => (s'.answers.getLast?,
        resolve (s'.db 0).leases s'.clock (phoneWake 2), (s'.db 0).outbox.get? 3,
        ((s'.db 0).leases.get? ⟨1, "phone"⟩).map fun l => l.version.generation)) =
      some (some (.enqueued 0 [phoneWake 2] (some [.duplicate 3])), some 5,
        some (newWake 0 (phoneWake 1) 5), some 2) := by
    decide +kernel
  obtain ⟨s, hrun, hend⟩ := Option.bind_eq_some_iff.mp hend
  obtain ⟨s', hstep, hend⟩ := Option.map_eq_some_iff.mp hend
  simp only [Prod.mk.injEq] at hend
  obtain ⟨hanswer, hresolve, hrow, hgen⟩ := hend
  refine ⟨s, s', hrun, hstep, hanswer, hresolve, ?_⟩
  rintro ⟨w, hget, hdone⟩
  rw [hrow] at hget
  cases hget
  rcases hdone with hstate | hstate | hdeliver
  · cases hstate
  · cases hstate
  · obtain ⟨-, start, l, e, -, hlease, hsame, -⟩ := (deliverable_iff hrow).mp hdeliver
    rw [show (newWake 0 (phoneWake 1) 5).addr = ⟨1, "phone"⟩ from rfl] at hlease
    rw [hlease] at hgen
    have htwo : l.version.generation = 2 := Option.some.inj hgen
    rw [htwo] at hsame
    cases hsame

/-- Without a rotation in between the duplicate is delivered. -/
theorem repeated_wake_is_deliverable : ∃ s s', run step (World.init 0) (enqueueTwice [] 1) =
      some s ∧ step s (.commit 1) = some s' ∧
    s'.answers.getLast? = some (.enqueued 0 [phoneWake 1] (some [.duplicate 3])) ∧
    ∃ w, (s'.db 0).outbox.get? 3 = some w ∧
      (w.state = .delivered ∨ w.state = .failed ∨ Deliverable (s'.db 0) s'.clock 3) := by
  let lease := newLease ⟨7, 0, 1, 1000⟩ (some ⟨"buzz-ios-production", 5, "grant", "default"⟩)
  have hend : (run step (World.init 0) (enqueueTwice [] 1)).any (fun s =>
      (step s (.commit 1)).any fun s' => (s.enqueues.get? 1).any fun e =>
        decide (e.community = 0) && decide (e.requests = [phoneWake 1]) &&
        decide ((e.seen s).get? 3 = some (newWake 0 (phoneWake 1) 5)) &&
        decide (s'.answers = s.answers ++
          [.enqueued 0 [phoneWake 1] (some [.duplicate 3])]) &&
        decide (s.clock = 0) && decide ((s.db 0).events.get? 77 = some none) &&
        decide ((s.db 0).leases.get? ⟨1, "phone"⟩ = some lease)) = true := by
    decide +kernel
  simp only [Option.any_eq_true, Bool.and_eq_true, decide_eq_true_eq] at hend
  obtain ⟨s, hrun, s', hstep, e, hopen, ⟨⟨⟨⟨⟨hc, hrequests⟩, hseen⟩, hanswer⟩, hclock⟩, hevent⟩,
    hlease⟩ := hend
  obtain ⟨w, hw, -, hiff⟩ := duplicate_deliverable_iff 0 _ s s' hrun 1 e hopen hstep
    [.duplicate 3] (by rw [hc, hrequests]; exact hanswer) 0 (phoneWake 1) (by rw [hrequests]; rfl) 3
    rfl
  rw [hseen] at hw
  cases hw
  rw [hc] at hiff
  refine ⟨s, s', hrun, hstep, by rw [hanswer]; simp, hiff.mpr (.inr (.inr ?_))⟩
  refine ⟨?_, 0, lease, _, ?_, hlease, rfl, rfl, rfl, rfl, rfl, by decide, by decide⟩
  · rw [show (newWake 0 (phoneWake 1) 5).eventId = 77 from rfl, hevent]; rfl
  · rw [hclock]; rfl

end Vingilot.Push.Outbox
