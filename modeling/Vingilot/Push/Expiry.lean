import Vingilot.Push.Acceptance

/-! # Expired leases in the way of their author

The clean-up in `accept_lease_event` deactivates the author's expired leases. It leaves their
endpoint columns in place, and migration 0012 forbids those on an inactive row.
-/

namespace Vingilot.Push.Accept

open Machine Transactions

def outcomeOf : Except Refusal (Unit × List Write) → Option AcceptLeaseOutcome
  | .ok _ => some .accepted
  | .error (.outcome o) => some o
  | .error .databaseError => none

/-- The outcome of a call that no other transaction interrupts. `none` is a database error. -/
def answer (maxActiveLeases : Int) (db : Db) (now : Int) (call : LeaseCall) :
    Option AcceptLeaseOutcome :=
  outcomeOf (alone (system maxActiveLeases) db (call.program maxActiveLeases now) () [])

def dropExpired (now : Int) (call : LeaseCall) (db : Db) : Db :=
  Function.update db call.community
    { db call.community with
      leases := (db call.community).leases.removeWhere (expired now call.addr.author) }

/-- What the CHECK and UNIQUE constraints of `push_leases` keep in every reachable state. -/
structure Constrained (leases : Leases) : Prop where
  checked : ∀ a l, leases.get? a = some l → l.check a = true
  source : ∀ a b la lb, leases.get? a = some la → leases.get? b = some lb →
    la.version.sourceEventId = lb.version.sourceEventId → a = b
  endpoint : ∀ a b la lb ea eb, leases.get? a = some la → leases.get? b = some lb →
    a.author = b.author → la.endpoint = some ea → lb.endpoint = some eb →
    ea.appProfile = eb.appProfile → ea.endpointHash = eb.endpointHash → a = b

theorem Sound.constrained {m : Int} {d : Tables} (h : Sound m d) : Constrained d.leases :=
  ⟨h.checked, h.source, h.endpoint⟩

def Loses (version current : LeaseVersion) : Prop :=
  version.winsEvent current = false ∨ version.generation ≤ current.generation

/-- A lease that is not one of the author's expired ones turns the event away: it already has the
event as its source, or it is in the event's place and the event loses to it. -/
def TurnedAway (now : Int) (call : LeaseCall) (leases : Leases) : Prop :=
  (∃ a l, leases.get? a = some l ∧ expired now call.addr.author (a, l) = false ∧
    l.version.sourceEventId = call.version.sourceEventId) ∨
  ((∀ a l, leases.get? a = some l → l.version.sourceEventId ≠ call.version.sourceEventId) ∧
    ∃ l, leases.get? call.addr = some l ∧ expired now call.addr.author (call.addr, l) = false ∧
      Loses call.version l.version)

/-! ## The three ways through the first statements -/

variable {a : Address} {l : Lease}

section Answers

variable {m now : Int} {db : Db} {call : LeaseCall}

def sourceRow (leases : Leases) (call : LeaseCall) : Option (Address × Lease) :=
  leases.toList.find? fun x => x.2.version.sourceEventId == call.version.sourceEventId

def stale (leases : Leases) (call : LeaseCall) : Option AcceptLeaseOutcome :=
  staleVersion leases call.addr call.version .staleEvent .staleGeneration

theorem answer_after_locks : answer m db now call = outcomeOf (alone (system m) db
    [call.checkSource, call.checkCurrent, call.cleanUp now, call.checkQuota m, call.checkEndpoint,
      call.retire, call.insertEvent, call.upsertLease] () []) := rfl

theorem checkSource_free (h : sourceRow (db call.community).leases call = none) :
    call.checkSource.exec () db = .ok ((), []) := by
  simp only [sourceRow] at h
  simp only [LeaseCall.checkSource, h]

theorem checkCurrent_wins (h : stale (db call.community).leases call = none) :
    call.checkCurrent.exec () db = .ok ((), []) := by
  simp only [stale] at h
  simp only [LeaseCall.checkCurrent, h]

theorem answer_of_source (h : sourceRow (db call.community).leases call = some (a, l)) :
    answer m db now call =
      some (if a ≠ call.addr then .sourceEventCollision else .staleEvent) := by
  have hexec : call.checkSource.exec () db =
      .error (.outcome (if a ≠ call.addr then .sourceEventCollision else .staleEvent)) := by
    simp only [sourceRow] at h
    simp only [LeaseCall.checkSource, h]
  rw [answer_after_locks, alone_stop hexec]
  rfl

theorem answer_of_stale {o : AcceptLeaseOutcome}
    (hsource : sourceRow (db call.community).leases call = none)
    (h : stale (db call.community).leases call = some o) : answer m db now call = some o := by
  have hexec : call.checkCurrent.exec () db = .error (.outcome o) := by
    simp only [stale] at h
    simp only [LeaseCall.checkCurrent, h]
  have hfree := checkSource_free hsource
  rw [answer_after_locks, alone_ok hfree, alone_stop hexec]
  rfl

theorem answer_of_expired
    (hchecked : ∀ a l, (db call.community).leases.get? a = some l → l.check a = true)
    (hsource : sourceRow (db call.community).leases call = none)
    (hstale : stale (db call.community).leases call = none)
    (hget : (db call.community).leases.get? a = some l)
    (hexp : expired now call.addr.author (a, l) = true) : answer m db now call = none := by
  have hactive : l.active = true := by
    simp only [expired, Bool.and_eq_true] at hexp
    exact hexp.1.2
  have hfails : ((((db call.community).leases.toList.filter (expired now call.addr.author)).map
      fun x => (x.1, Lease.deactivated x.2)).all fun x => x.2.check x.1) = false := by
    rw [List.all_eq_false]
    refine ⟨(a, Lease.deactivated l), ?_, ?_⟩
    · exact List.mem_map.mpr
        ⟨(a, l), List.mem_filter.mpr ⟨(Table.mem_toList _ _ _).mpr hget, hexp⟩, rfl⟩
    · rw [check_deactivated (hchecked a l hget) hactive]
      exact Bool.false_ne_true
  have hexec : (call.cleanUp now).exec () db = .error .databaseError := by
    simp only [LeaseCall.cleanUp, hfails, Bool.false_eq_true, if_false]
  have hfree := checkSource_free hsource
  have hwins := checkCurrent_wins hstale
  rw [answer_after_locks, alone_ok hfree, alone_ok hwins, alone_stop hexec]
  rfl

theorem checkQuota_cases (db : Db) : (call.checkQuota m).exec () db = .ok ((), []) ∨
    (call.checkQuota m).exec () db = .error (.outcome .leaseQuotaExceeded) := by
  simp only [LeaseCall.checkQuota]
  split_ifs
  · exact .inr rfl
  · exact .inl rfl

theorem checkEndpoint_cases (db : Db) : call.checkEndpoint.exec () db = .ok ((), []) ∨
    call.checkEndpoint.exec () db = .error (.outcome .endpointAlreadyLeased) := by
  simp only [LeaseCall.checkEndpoint]
  split_ifs
  · exact .inr rfl
  · exact .inl rfl

theorem insertEvent_cases (db : Db) :
    call.insertEvent.exec () db = .ok ((), [Write.event call.community call.key call.eventRow]) ∨
    call.insertEvent.exec () db = .error .databaseError ∨
    call.insertEvent.exec () db = .error (.outcome .constraintViolation) := by
  simp only [LeaseCall.insertEvent]
  split_ifs
  · exact .inr (.inl rfl)
  · exact .inr (.inr rfl)
  · exact .inl rfl

theorem upsertLease_cases (db : Db)
    (h : sourceTaken (db call.community).leases call.addr call.version.sourceEventId = false) :
    call.upsertLease.exec () db = .ok ((), [.lease call.community call.addr call.row]) ∨
    call.upsertLease.exec () db = .error (.outcome .endpointAlreadyLeased) ∨
    call.upsertLease.exec () db = .error (.outcome .constraintViolation) := by
  simp only [LeaseCall.upsertLease, h, Bool.false_eq_true, if_false]
  split_ifs with hcheck hend
  · exact .inr (.inr rfl)
  · exact .inr (.inl rfl)
  · exact .inl rfl

theorem answer_late (hsource : sourceRow (db call.community).leases call = none)
    (hstale : stale (db call.community).leases call = none)
    (hexp : (db call.community).leases.toList.filter (expired now call.addr.author) = []) :
    answer m db now call ∉ [some .staleEvent, some .staleGeneration, some .sourceEventCollision] := by
  have htaken : sourceTaken (db call.community).leases call.addr call.version.sourceEventId =
      false := by
    rw [sourceTaken_false]
    intro a l hget _ hid
    rw [sourceRow, List.find?_eq_none] at hsource
    exact hsource (a, l) ((Table.mem_toList _ _ _).mpr hget) (by simp [hid])
  have hclean : (call.cleanUp now).exec () db = .ok ((), []) := by
    simp only [LeaseCall.cleanUp, hexp, List.map_nil, List.all_nil, if_pos]
  have hfree := checkSource_free hsource
  have hwins := checkCurrent_wins hstale
  rw [answer_after_locks, alone_ok hfree, alone_ok hwins, alone_ok hclean]
  rcases @checkQuota_cases m call db with hquota | hquota
  · rw [alone_ok hquota]
    rcases @checkEndpoint_cases call db with hend | hend
    · have hretire : call.retire.exec () db =
          .ok ((), (call.retired db).map fun x => Write.event call.community x.1 x.2) := rfl
      rw [alone_ok hend, alone_ok hretire]
      simp only [List.nil_append, List.append_nil]
      rcases @insertEvent_cases call (view (system m) db
          ((call.retired db).map fun x => Write.event call.community x.1 x.2)) with hins | hins | hins
      · rw [alone_ok hins]
        -- Up to here only events are written, so the upsert sees the leases as they were.
        have hleases := leases_view_events m db
          ((call.retired db).map (fun x => Write.event call.community x.1 x.2) ++
            [Write.event call.community call.key call.eventRow]) call.community (by
              intro w hw
              simp only [List.mem_append, List.mem_map, List.mem_singleton] at hw
              obtain ⟨x, -, rfl⟩ | rfl := hw
              · rfl
              · rfl)
        rw [← hleases] at htaken
        rcases upsertLease_cases _ htaken with hup | hup | hup
        · rw [alone_ok hup]; simp [alone, outcomeOf]
        · rw [alone_stop hup]; simp [outcomeOf]
        · rw [alone_stop hup]; simp [outcomeOf]
      · rw [alone_stop hins]; simp [outcomeOf]
      · rw [alone_stop hins]; simp [outcomeOf]
    · rw [alone_stop hend]; simp [outcomeOf]
  · rw [alone_stop hquota]; simp [outcomeOf]

end Answers

/-! ## Taking the expired leases out -/

theorem leases_dropExpired (now : Int) (call : LeaseCall) (db : Db) :
    (dropExpired now call db call.community).leases =
      (db call.community).leases.removeWhere (expired now call.addr.author) := by
  simp [dropExpired]

theorem get?_dropExpired {now : Int} {call : LeaseCall} {db : Db} :
    (dropExpired now call db call.community).leases.get? a = some l ↔
      (db call.community).leases.get? a = some l ∧
        expired now call.addr.author (a, l) = false := by
  rw [leases_dropExpired, Table.get?_removeWhere, Option.filter_eq_some_iff]
  simp

variable {leases : Leases}

theorem sourceRow_none {call : LeaseCall} : sourceRow leases call = none ↔
    ∀ a l, leases.get? a = some l →
      l.version.sourceEventId ≠ call.version.sourceEventId := by
  simp only [sourceRow, List.find?_eq_none, Prod.forall, Table.mem_toList, beq_iff_eq, ne_eq]

theorem sourceRow_some {call : LeaseCall} {x : Address × Lease} (h : sourceRow leases call = some x) :
    leases.get? x.1 = some x.2 ∧ x.2.version.sourceEventId = call.version.sourceEventId := by
  have hmem := List.mem_of_find?_eq_some h
  have hid := List.find?_some h
  exact ⟨(Table.mem_toList _ _ _).mp hmem, by simpa using hid⟩

theorem stale_some {call : LeaseCall} {o : AcceptLeaseOutcome} (h : stale leases call = some o) :
    ∃ l, leases.get? call.addr = some l ∧ Loses call.version l.version ∧
      o ∈ [AcceptLeaseOutcome.staleEvent, .staleGeneration] := by
  simp only [stale, staleVersion, Option.bind_eq_some_iff] at h
  obtain ⟨l, hget, h⟩ := h
  refine ⟨l, hget, ?_⟩
  split_ifs at h with hwins hgen
  · cases h; exact ⟨.inl (by simpa using hwins), by simp⟩
  · cases h; exact ⟨.inr hgen, by simp⟩

theorem stale_none_of_loses {call : LeaseCall} (h : stale leases call = none)
    (hget : leases.get? call.addr = some l) : ¬Loses call.version l.version := by
  obtain ⟨hgen, hwins⟩ := staleVersion_none h hget
  rintro (hloses | hle)
  · rw [hloses] at hwins; cases hwins
  · omega

theorem no_expired_left (now : Int) (call : LeaseCall) (db : Db) :
    (dropExpired now call db call.community).leases.toList.filter
      (expired now call.addr.author) = [] := by
  rw [List.eq_nil_iff_forall_not_mem]
  rintro ⟨a, l⟩ hmem
  obtain ⟨hrow, hexp⟩ := List.mem_filter.mp hmem
  rw [(get?_dropExpired.mp ((Table.mem_toList _ _ _).mp hrow)).2] at hexp
  cases hexp

theorem sourceRow_dropExpired_none {now : Int} {call : LeaseCall} {db : Db}
    (h : ∀ a l, (db call.community).leases.get? a = some l →
      expired now call.addr.author (a, l) = false →
      l.version.sourceEventId ≠ call.version.sourceEventId) :
    sourceRow (dropExpired now call db call.community).leases call = none := by
  rw [sourceRow_none]
  intro a l hget
  obtain ⟨hget, hexp⟩ := get?_dropExpired.mp hget
  exact h a l hget hexp

theorem stale_dropExpired_none {now : Int} {call : LeaseCall} {db : Db}
    (h : ∀ l, (db call.community).leases.get? call.addr = some l →
      expired now call.addr.author (call.addr, l) = true) :
    stale (dropExpired now call db call.community).leases call = none := by
  by_contra hne
  obtain ⟨o, ho⟩ := Option.ne_none_iff_exists'.mp hne
  obtain ⟨l, hget, -⟩ := stale_some ho
  obtain ⟨hget, hexp⟩ := get?_dropExpired.mp hget
  rw [h l hget] at hexp
  cases hexp

theorem answer_ne_of_expired_source {m now : Int} {db : Db} {call : LeaseCall}
    (hget : (db call.community).leases.get? a = some l)
    (hexp : expired now call.addr.author (a, l) = true)
    (hsource : sourceRow (dropExpired now call db call.community).leases call = none) :
    answer m (dropExpired now call db) now call ≠
      some (if a ≠ call.addr then .sourceEventCollision else .staleEvent) := by
  intro heq
  by_cases ha : a = call.addr
  · subst ha
    have hstale := @stale_dropExpired_none now call db fun l' hget' => by
      rw [hget] at hget'; cases hget'; exact hexp
    have hlate := @answer_late m _ _ _ hsource hstale (no_expired_left now call db)
    rw [heq] at hlate
    simp at hlate
  · rw [if_pos ha] at heq
    cases hstale : stale (dropExpired now call db call.community).leases call with
    | some o =>
      obtain ⟨-, -, -, ho⟩ := stale_some hstale
      rw [answer_of_stale hsource hstale] at heq
      cases heq
      simp at ho
    | none =>
      have hlate := @answer_late m _ _ _ hsource hstale (no_expired_left now call db)
      rw [heq] at hlate
      simp at hlate

theorem harmless_iff_of_source {m now : Int} {db : Db} {call : LeaseCall}
    (hcon : Constrained (db call.community).leases)
    (hsource : sourceRow (db call.community).leases call = some (a, l)) :
    ((answer m db now call).isSome = true ∧
      answer m db now call = answer m (dropExpired now call db) now call) ↔
      TurnedAway now call (db call.community).leases := by
  obtain ⟨hget, hid⟩ : (db call.community).leases.get? a = some l ∧
      l.version.sourceEventId = call.version.sourceEventId := sourceRow_some hsource
  -- No second row has the source.
  have honly : ∀ a' l', (db call.community).leases.get? a' = some l' →
      l'.version.sourceEventId = call.version.sourceEventId → (a', l') = (a, l) := by
    intro a' l' hget' hid'
    obtain rfl := hcon.source a' a l' l hget' hget (hid'.trans hid.symm)
    rw [hget] at hget'
    cases hget'
    rfl
  rw [answer_of_source hsource]
  constructor
  · rintro ⟨-, hsame⟩
    by_cases hexp : expired now call.addr.author (a, l) = true
    · have hfree := @sourceRow_dropExpired_none now call db fun a' l' hget' hexp' hid' => by
        rw [honly a' l' hget' hid', hexp] at hexp'
        cases hexp'
      exact absurd hsame.symm (answer_ne_of_expired_source hget hexp hfree)
    · exact .inl ⟨a, l, hget, by simpa using hexp, hid⟩
  · rintro (⟨a', l', hget', hexp', hid'⟩ | ⟨hnone, -⟩)
    · rw [honly a' l' hget' hid'] at hexp'
      refine ⟨rfl, ?_⟩
      cases hrest : sourceRow (dropExpired now call db call.community).leases call with
      | none =>
        exact absurd hid (sourceRow_none.mp hrest a l (get?_dropExpired.mpr ⟨hget, hexp'⟩))
      | some x =>
        obtain ⟨hgetx, hidx⟩ := sourceRow_some hrest
        have hx : x = (a, l) := honly x.1 x.2 (get?_dropExpired.mp hgetx).1 hidx
        rw [hx] at hrest
        rw [answer_of_source hrest]
    · exact absurd hid (hnone a l hget)

theorem harmless_iff_of_no_source {m now : Int} {db : Db} {call : LeaseCall}
    (hcon : Constrained (db call.community).leases)
    (hexpired : ∃ a l, (db call.community).leases.get? a = some l ∧
      expired now call.addr.author (a, l) = true)
    (hsource : sourceRow (db call.community).leases call = none) :
    ((answer m db now call).isSome = true ∧
      answer m db now call = answer m (dropExpired now call db) now call) ↔
      TurnedAway now call (db call.community).leases := by
  have hnone := sourceRow_none.mp hsource
  have hfree := @sourceRow_dropExpired_none now call db fun a l hget _ => hnone a l hget
  cases hstale : stale (db call.community).leases call with
  | none =>
    obtain ⟨a, l, hget, hexp⟩ := hexpired
    rw [answer_of_expired hcon.checked hsource hstale hget hexp]
    constructor
    · rintro ⟨hsome, -⟩; cases hsome
    · rintro (⟨a', l', hget', -, hid'⟩ | ⟨-, l', hget', -, hloses⟩)
      · exact absurd hid' (hnone a' l' hget')
      · exact absurd hloses (stale_none_of_loses hstale hget')
  | some o =>
    obtain ⟨l, hget, hloses, ho⟩ := stale_some hstale
    rw [answer_of_stale hsource hstale]
    by_cases hexp : expired now call.addr.author (call.addr, l) = true
    · have hall : ∀ l', (db call.community).leases.get? call.addr = some l' →
          expired now call.addr.author (call.addr, l') = true := by
        intro l' hget'
        rw [hget] at hget'
        cases hget'
        exact hexp
      constructor
      · rintro ⟨-, hsame⟩
        have hlate := @answer_late m _ _ _ hfree (stale_dropExpired_none hall)
          (no_expired_left now call db)
        rw [← hsame] at hlate
        simp only [List.mem_cons, List.not_mem_nil, or_false] at ho
        rcases ho with rfl | rfl <;> simp at hlate
      · rintro (⟨a', l', hget', -, hid'⟩ | ⟨-, l', hget', hexp', -⟩)
        · exact absurd hid' (hnone a' l' hget')
        · rw [hall l' hget'] at hexp'; cases hexp'
    · have hkept : expired now call.addr.author (call.addr, l) = false := by simpa using hexp
      have hsame : stale (dropExpired now call db call.community).leases call = some o := by
        unfold stale staleVersion at hstale ⊢
        rw [get?_dropExpired.mpr ⟨hget, hkept⟩]
        rw [hget] at hstale
        exact hstale
      constructor
      · intro _; exact .inr ⟨hnone, l, hget, hkept, hloses⟩
      · intro _; exact ⟨rfl, (answer_of_stale hfree hsame).symm⟩

/-- An author with an expired lease gets the outcome that the absence of the expired leases would
give exactly when another lease turns the event away. -/
theorem expired_lease_harmless_iff (m now : Int) (db : Db) (call : LeaseCall)
    (hcon : Constrained (db call.community).leases)
    (hexpired : ∃ a l, (db call.community).leases.get? a = some l ∧
      expired now call.addr.author (a, l) = true) :
    ((answer m db now call).isSome = true ∧
      answer m db now call = answer m (dropExpired now call db) now call) ↔
      TurnedAway now call (db call.community).leases := by
  cases hsource : sourceRow (db call.community).leases call with
  | some x => exact harmless_iff_of_source hcon hsource
  | none => exact harmless_iff_of_no_source hcon hexpired hsource

/-! ## A lease that ran out -/

def leaseOf (installation : String) (generation createdAt expiresAt : Int) (id : EventId)
    (endpointHash : BitVec 256) : LeaseCall :=
  ⟨0, ⟨1, installation⟩, ⟨id, createdAt, generation, expiresAt⟩,
    some ⟨"buzz-ios-production", endpointHash, "grant", "default"⟩⟩

def lapse : List (Action Call Refusal) :=
  [Action.begin (Call.accept (leaseOf "tablet" 1 0 10 7 5))] ++
    List.replicate 11 (Action.exec 0) ++ [Action.commit 0] ++
    [Action.begin (Call.accept (leaseOf "phone" 1 0 1000 8 6))] ++
    List.replicate 11 (Action.exec 1) ++ [Action.commit 1, .advance 20000000]

theorem lapse_runs : ∃ s, run (step (system 16)) (World.start 0) lapse = some s ∧
    s.pub.clock = 20000000 ∧
    (s.pub.db 0).leases.get? ⟨1, "tablet"⟩ = some (leaseOf "tablet" 1 0 10 7 5).row ∧
    (s.pub.db 0).leases.get? ⟨1, "phone"⟩ = some (leaseOf "phone" 1 0 1000 8 6).row ∧
    answer 16 s.pub.db s.pub.clock (leaseOf "tablet" 2 20 1000 9 5) = none ∧
    answer 16 (dropExpired s.pub.clock (leaseOf "tablet" 2 20 1000 9 5) s.pub.db) s.pub.clock
      (leaseOf "tablet" 2 20 1000 9 5) = some .accepted := by
  have hend : (run (step (system 16)) (World.start 0) lapse).map (fun s =>
      (s.pub.clock, (s.pub.db 0).leases.get? ⟨1, "tablet"⟩, (s.pub.db 0).leases.get? ⟨1, "phone"⟩,
        answer 16 s.pub.db s.pub.clock (leaseOf "tablet" 2 20 1000 9 5),
        answer 16 (dropExpired s.pub.clock (leaseOf "tablet" 2 20 1000 9 5) s.pub.db) s.pub.clock
          (leaseOf "tablet" 2 20 1000 9 5))) =
      some (20000000, some (leaseOf "tablet" 1 0 10 7 5).row,
        some (leaseOf "phone" 1 0 1000 8 6).row, none, some .accepted) := by
    decide +kernel
  cases hrun : run (step (system 16)) (World.start 0) lapse with
  | none => rw [hrun] at hend; cases hend
  | some s =>
    rw [hrun] at hend
    simp only [Option.map_some, Option.some.injEq, Prod.mk.injEq] at hend
    exact ⟨s, rfl, hend⟩

/-- The tablet cannot renew its lease once it has expired. -/
theorem renewal_after_expiry_fails : ∃ s, run (step (system 16)) (World.start 0) lapse = some s ∧
    ¬((answer 16 s.pub.db s.pub.clock (leaseOf "tablet" 2 20 1000 9 5)).isSome = true ∧
      answer 16 s.pub.db s.pub.clock (leaseOf "tablet" 2 20 1000 9 5) =
        answer 16 (dropExpired s.pub.clock (leaseOf "tablet" 2 20 1000 9 5) s.pub.db) s.pub.clock
          (leaseOf "tablet" 2 20 1000 9 5)) := by
  obtain ⟨s, hrun, -, -, -, hnone, -⟩ := lapse_runs
  refine ⟨s, hrun, ?_⟩
  rintro ⟨hsome, -⟩
  rw [hnone] at hsome
  cases hsome

/-- A replay of the phone's event is refused as before. -/
theorem replay_beside_expired_is_harmless :
    ∃ s, run (step (system 16)) (World.start 0) lapse = some s ∧
      (answer 16 s.pub.db s.pub.clock (leaseOf "phone" 1 0 1000 8 6)).isSome = true ∧
      answer 16 s.pub.db s.pub.clock (leaseOf "phone" 1 0 1000 8 6) =
        answer 16 (dropExpired s.pub.clock (leaseOf "phone" 1 0 1000 8 6) s.pub.db) s.pub.clock
          (leaseOf "phone" 1 0 1000 8 6) := by
  obtain ⟨s, hrun, hclock, htablet, hphone, -⟩ := lapse_runs
  refine ⟨s, hrun, ?_⟩
  have hcon := ((run_consistent hrun).sound 0).constrained
  rw [hclock]
  refine (expired_lease_harmless_iff 16 20000000 s.pub.db _ hcon
    ⟨_, _, htablet, by decide⟩).mpr (.inl ⟨_, _, hphone, by decide, rfl⟩)

end Vingilot.Push.Accept
