import Mathlib.Tactic.IntervalCases
import Mathlib.Tactic.SplitIfs
import Vingilot.Push.Accept

/-! # Accepted leases stay ordered, bounded and in step with their events

While a transaction holds its author's lock, nobody else can write the author's rows. So what its
checks found out still holds at its commit.
-/

namespace Vingilot.Push.Accept

open Machine Transactions

/-! ## What holds of the committed tables -/

def Newer (v w : LeaseVersion) : Prop := v.generation < w.generation ∧ w.winsEvent v = true

def activeLeases (leases : Leases) (author : BitVec 256) : Nat :=
  (leases.toList.filter fun (a, l) => a.author == author && l.active).length

def LeaseVersion.key (v : LeaseVersion) : EventKey := ⟨v.sourceCreatedAt, v.sourceEventId⟩

def Live (d : Tables) (addr : Address) (key : EventKey) : Prop :=
  ∃ r, d.events.get? key = some r ∧ r.liveAt addr = true

structure Sound (maxActiveLeases : Int) (d : Tables) : Prop where
  checked : ∀ a l, d.leases.get? a = some l → l.check a = true
  source : ∀ a b la lb, d.leases.get? a = some la → d.leases.get? b = some lb →
    la.version.sourceEventId = lb.version.sourceEventId → a = b
  endpoint : ∀ a b la lb ea eb, d.leases.get? a = some la → d.leases.get? b = some lb →
    a.author = b.author → la.endpoint = some ea → lb.endpoint = some eb →
    ea.appProfile = eb.appProfile → ea.endpointHash = eb.endpointHash → a = b
  quota : ∀ author, (activeLeases d.leases author : Int) ≤ max 0 maxActiveLeases
  live : ∀ addr key, Live d addr key ↔
    ∃ l, d.leases.get? addr = some l ∧ key = LeaseVersion.key l.version

abbrev Pub := Public Call Db Unit Refusal

def versions (p : Pub) (c : CommunityId) (addr : Address) : List LeaseVersion :=
  p.answers.filterMap fun
    | (.accept call, .ok _) =>
      if call.community = c ∧ call.addr = addr then some call.version else none
    | _ => none

structure Consistent (maxActiveLeases : Int) (p : Pub) : Prop where
  sound : ∀ c, Sound maxActiveLeases (p.db c)
  ordered : ∀ c addr, (versions p c addr).Pairwise Newer
  latest : ∀ c addr,
    (versions p c addr).getLast? = ((p.db c).leases.get? addr).map Lease.version

/-! ## What an open transaction knows -/

/-- What the transaction knows once it is past its statement number `k`. -/
def LeaseCall.fact (call : LeaseCall) (maxActiveLeases now : Int) (db : Db)
    (held : List (Lock × Mode)) : Nat → Prop
  | 1 => (.author call.community call.addr.author, .exclusive) ∈ held
  | 3 => ∀ a l, (db call.community).leases.get? a = some l → a.author = call.addr.author →
      l.version.sourceEventId ≠ call.version.sourceEventId
  | 4 => staleVersion (db call.community).leases call.addr call.version
      AcceptLeaseOutcome.staleEvent .staleGeneration = none
  | 5 => (db call.community).leases.toList.filter (expired now call.addr.author) = []
  | 6 => call.active.isSome →
      (activeElsewhere (db call.community).leases call.addr : Int) < maxActiveLeases
  | 7 => call.active.any (endpointTaken (db call.community).leases call.addr) = false
  | 8 => ∀ x ∈ call.retired db, (.eventRow call.community x.1, .exclusive) ∈ held
  | 9 => (.eventRow call.community call.key, .exclusive) ∈ held ∧
      (db call.community).events.get? call.key = none
  | 10 => (.source call.community call.version.sourceEventId, .exclusive) ∈ held ∧
      call.row.check call.addr = true ∧
      sourceTaken (db call.community).leases call.addr call.version.sourceEventId = false
  | _ => True

/-- What statement number `k` writes. -/
def LeaseCall.written (call : LeaseCall) (db : Db) : Nat → List Write
  | 8 => (call.retired db).map fun x => .event call.community x.1 x.2
  | 9 => [.event call.community call.key call.eventRow]
  | 10 => [.lease call.community call.addr call.row]
  | _ => []

structure LeaseCall.Progress (call : LeaseCall) (maxActiveLeases now : Int) (db : Db)
    (held : List (Lock × Mode)) (writes : List Write) (n : Nat) : Prop where
  facts : ∀ k < n, call.fact maxActiveLeases now db held k
  writes : writes = (List.range n).flatMap (call.written db)

abbrev AcceptTx := Tx Call Db Lock Unit Write Refusal

def Own (maxActiveLeases : Int) (p : Pub) (t : AcceptTx) : Prop :=
  match t.call with
  | .accept call => ∃ n ≤ 11, t.rest = (call.program maxActiveLeases t.now).drop n ∧
      call.Progress maxActiveLeases t.now p.db t.held t.writes n
  | .store c key row =>
    (t.rest = [storeEvent c key row] ∧ t.writes = []) ∨
    (t.rest = [] ∧ t.writes = [.event c key row] ∧ row.kind ≠ pushLeaseKind ∧
      (.eventRow c key, .exclusive) ∈ t.held ∧ (p.db c).events.get? key = none)

/-! ## Views -/

theorem view_nil (m : Int) (db : Db) : view (system m) db [] = db := rfl

theorem view_cons (m : Int) (db : Db) (w : Write) (ws : List Write) :
    view (system m) db (w :: ws) = view (system m) (w.apply db) ws := rfl

theorem view_append (m : Int) (db : Db) (ws ws' : List Write) :
    view (system m) db (ws ++ ws') = view (system m) (view (system m) db ws) ws' :=
  List.foldl_append

@[simp]
theorem leases_apply_lease (db : Db) (c c' : CommunityId) (a : Address) (l : Lease) :
    (Write.apply db (.lease c a l) c').leases =
      if c' = c then (db c).leases.set a l else (db c').leases := by
  by_cases h : c' = c
  · subst h; simp [Write.apply]
  · simp [Write.apply, h]

@[simp]
theorem events_apply_lease (db : Db) (c c' : CommunityId) (a : Address) (l : Lease) :
    (Write.apply db (.lease c a l) c').events = (db c').events := by
  by_cases h : c' = c
  · subst h; simp [Write.apply]
  · simp [Write.apply, h]

@[simp]
theorem leases_apply_event (db : Db) (c c' : CommunityId) (k : EventKey) (r : EventRow) :
    (Write.apply db (.event c k r) c').leases = (db c').leases := by
  by_cases h : c' = c
  · subst h; simp [Write.apply]
  · simp [Write.apply, h]

@[simp]
theorem events_apply_event (db : Db) (c c' : CommunityId) (k : EventKey) (r : EventRow) :
    (Write.apply db (.event c k r) c').events =
      if c' = c then (db c).events.set k r else (db c').events := by
  by_cases h : c' = c
  · subst h; simp [Write.apply]
  · simp [Write.apply, h]

def Write.isEvent : Write → Bool
  | .event .. => true
  | .lease .. => false

theorem leases_view_events (m : Int) (db : Db) (ws : List Write) (c : CommunityId)
    (h : ∀ w ∈ ws, w.isEvent = true) : (view (system m) db ws c).leases = (db c).leases := by
  induction ws generalizing db with
  | nil => rfl
  | cons w ws ih =>
    rw [view_cons, ih _ fun w' hw' => h w' (List.mem_cons_of_mem w hw')]
    cases w with
    | event c' k r => simp
    | lease c' a l => exact absurd (h _ List.mem_cons_self) (by simp [Write.isEvent])

theorem events_view_none (m : Int) (db : Db) (ws : List Write) (c : CommunityId) (k : EventKey)
    (h : (view (system m) db ws c).events.get? k = none) : (db c).events.get? k = none := by
  induction ws generalizing db with
  | nil => exact h
  | cons w ws ih =>
    rw [view_cons] at h
    have hnone := ih _ h
    cases w with
    | event c' k' r =>
      rw [events_apply_event] at hnone
      split_ifs at hnone with hc
      · subst hc
        rw [Table.get?_set] at hnone
        split_ifs at hnone with hk
        exact hnone
      · exact hnone
    | lease c' a l => rwa [events_apply_lease] at hnone

/-! ## Running a statement -/

variable {k : Nat}

theorem written_isEvent (call : LeaseCall) (db : Db) (hk : k < 10) :
    ∀ w ∈ call.written db k, w.isEvent = true := by
  intro w hw
  interval_cases k <;> simp only [LeaseCall.written, List.not_mem_nil] at hw
  · obtain ⟨x, -, rfl⟩ := List.mem_map.mp hw; rfl
  · rw [List.mem_singleton] at hw; subst hw; rfl

variable {m now : Int} {db : Db} {writes : List Write} {n : Nat}

theorem LeaseCall.Progress.isEvent {call : LeaseCall} {held : List (Lock × Mode)}
    (h : call.Progress m now db held writes n) (hn : n ≤ 10) : ∀ w ∈ writes, w.isEvent = true := by
  intro w hw
  rw [h.writes, List.mem_flatMap] at hw
  obtain ⟨k, hk, hw⟩ := hw
  rw [List.mem_range] at hk
  exact written_isEvent call db (by omega) w hw

theorem LeaseCall.Progress.writes_nil {call : LeaseCall} {held : List (Lock × Mode)}
    (h : call.Progress m now db held writes n) (hn : n ≤ 8) : writes = [] := by
  rw [h.writes, List.flatMap_eq_nil_iff]
  intro k hk
  rw [List.mem_range] at hk
  have hlt : k < 8 := by omega
  interval_cases k <;> rfl

theorem fact_mono {call : LeaseCall} {held : List (Lock × Mode)} (locks : List (Lock × Mode))
    (h : call.fact m now db held k) : call.fact m now db (held ++ locks) k := by
  unfold LeaseCall.fact at h ⊢
  split at h
  · exact List.mem_append_left _ h
  · exact h
  · exact h
  · exact h
  · exact h
  · exact h
  · intro x hx; exact List.mem_append_left _ (h x hx)
  · exact ⟨List.mem_append_left _ h.1, h.2⟩
  · exact ⟨List.mem_append_left _ h.1, h.2⟩
  · exact h

variable {stmt : Stmt}

theorem program_drop {call : LeaseCall} {rest : List Stmt}
    (h : (call.program m now).drop n = stmt :: rest) :
    n ≤ 10 ∧ (call.program m now)[n]? = some stmt ∧ (call.program m now).drop (n + 1) = rest := by
  have hlt : n < (call.program m now).length := by
    by_contra hge
    rw [List.drop_eq_nil_of_le (by omega)] at h
    cases h
  rw [List.drop_eq_getElem_cons hlt] at h
  obtain ⟨hstmt, hrest⟩ := List.cons.inj h
  refine ⟨?_, ?_, hrest⟩
  · simpa [LeaseCall.program] using Nat.le_of_lt_succ hlt
  · rw [List.getElem?_eq_getElem hlt, hstmt]

variable {a : Address} {l : Lease}

theorem check_deactivated (hcheck : l.check a = true) (hactive : l.active = true) :
    (Lease.deactivated l).check a = false := by
  unfold Lease.check at hcheck ⊢
  simp only [Bool.and_eq_true, beq_iff_eq] at hcheck
  have hsome : l.endpoint.isSome = true := by rw [← hcheck.1.1.1]; exact hactive
  simp [Lease.deactivated, hsome]

variable {vars : Unit} {more : List Write}

theorem cleanUp_ok {call : LeaseCall} (hsound : Sound m (db call.community))
    (h : (call.cleanUp now).exec () db = .ok (vars, more)) :
    (db call.community).leases.toList.filter (expired now call.addr.author) = [] ∧ more = [] := by
  simp only [LeaseCall.cleanUp] at h
  split_ifs at h with hall
  have hnone : (db call.community).leases.toList.filter (expired now call.addr.author) = [] := by
    rw [List.eq_nil_iff_forall_not_mem]
    rintro ⟨a, l⟩ hmem
    have hall' : (Lease.deactivated l).check a = true := by
      simp only [List.all_map, List.all_eq_true] at hall
      exact hall (a, l) hmem
    obtain ⟨hrow, hexp⟩ := List.mem_filter.mp hmem
    have hactive : l.active = true := by
      simp only [expired, Bool.and_eq_true] at hexp
      exact hexp.1.2
    rw [check_deactivated (hsound.checked a l ((Table.mem_toList _ _ _).mp hrow)) hactive] at hall'
    cases hall'
  rw [hnone] at h
  cases h
  exact ⟨hnone, rfl⟩

theorem exec_fact {call : LeaseCall} {held : List (Lock × Mode)}
    (hsound : Sound m (db call.community)) (h : call.Progress m now db held writes n) (hn : n ≤ 10)
    (hstmt : (call.program m now)[n]? = some stmt)
    (hexec : stmt.exec () (view (system m) db writes) = .ok (vars, more)) :
    call.fact m now db (held ++ stmt.locks () (view (system m) db writes)) n ∧
      more = call.written db n := by
  have hleases := leases_view_events m db writes call.community (h.isEvent hn)
  have hview : n ≤ 8 → view (system m) db writes = db := by
    intro hle; rw [h.writes_nil hle]; rfl
  interval_cases n <;> cases hstmt
  · cases hexec; exact ⟨trivial, rfl⟩
  · cases hexec; exact ⟨List.mem_append_right _ List.mem_cons_self, rfl⟩
  · cases hexec; exact ⟨trivial, rfl⟩
  · rw [hview (by omega)] at hexec
    simp only [LeaseCall.checkSource] at hexec
    split at hexec
    · cases hexec
    · rename_i hnone
      cases hexec
      refine ⟨?_, rfl⟩
      intro a l hget _ hid
      rw [List.find?_eq_none] at hnone
      exact hnone (a, l) ((Table.mem_toList _ _ _).mpr hget) (by simp [hid])
  · rw [hview (by omega)] at hexec
    simp only [LeaseCall.checkCurrent] at hexec
    split at hexec
    · cases hexec
    · rename_i hnone; cases hexec; exact ⟨hnone, rfl⟩
  · rw [hview (by omega)] at hexec
    exact cleanUp_ok hsound hexec
  · rw [hview (by omega)] at hexec
    simp only [LeaseCall.checkQuota] at hexec
    split_ifs at hexec with hquota
    cases hexec
    refine ⟨?_, rfl⟩
    intro hactive
    exact Int.not_le.mp fun hle => hquota ⟨hactive, hle⟩
  · rw [hview (by omega)] at hexec
    simp only [LeaseCall.checkEndpoint] at hexec
    split_ifs at hexec with hend
    cases hexec
    exact ⟨eq_false_of_ne_true hend, rfl⟩
  · rw [hview (by omega)] at hexec
    cases hexec
    refine ⟨?_, rfl⟩
    intro x hx
    refine List.mem_append_right _ (List.mem_map.mpr ⟨_, List.mem_map.mpr ⟨x, ?_, rfl⟩, rfl⟩)
    rw [hview (by omega)]
    exact hx
  · simp only [LeaseCall.insertEvent] at hexec
    split_ifs at hexec with hfits hsome
    cases hexec
    refine ⟨⟨List.mem_append_right _ List.mem_cons_self, ?_⟩, rfl⟩
    exact events_view_none m db writes _ _ (by simpa using hsome)
  · simp only [LeaseCall.upsertLease] at hexec
    split_ifs at hexec with hcheck hsource hend
    cases hexec
    rw [hleases] at hsource
    refine ⟨⟨List.mem_append_right _ (List.mem_cons_of_mem _ List.mem_cons_self), ?_, ?_⟩, rfl⟩
    · simpa using hcheck
    · simpa using hsource

/-! ## Writes of other authors -/

/-- A write that does not touch what the call's statements read: it is of another community or of
another author, and it takes no unique key that the call holds. -/
def Foreign (call : LeaseCall) (held : List (Lock × Mode)) (db : Db) : Write → Prop
  | .lease c a l => c = call.community → a.author ≠ call.addr.author ∧
      ((.source c call.version.sourceEventId, .exclusive) ∈ held →
        l.version.sourceEventId ≠ call.version.sourceEventId)
  | .event c k r => c = call.community → r.liveAt call.addr = false ∧
      (∀ old, (db c).events.get? k = some old → old.liveAt call.addr = false) ∧
      ((.eventRow c call.key, .exclusive) ∈ held → k ≠ call.key)

variable {w : Write}

theorem Foreign.apply {call : LeaseCall} {held : List (Lock × Mode)} {w' : Write}
    (hw : Foreign call held db w) (hw' : Foreign call held db w') :
    Foreign call held (w.apply db) w' := by
  cases w' with
  | lease c a l => exact hw'
  | event c k r =>
    intro hc
    obtain ⟨hlive, hold, hkey⟩ := hw' hc
    refine ⟨hlive, ?_, hkey⟩
    intro old hget
    cases w with
    | lease c' a l =>
      rw [events_apply_lease] at hget
      exact hold old hget
    | event c' k' r' =>
      rw [events_apply_event] at hget
      split_ifs at hget with hcc
      · subst hcc
        rw [Table.get?_set] at hget
        split_ifs at hget with hk
        · cases hget; exact (hw hc).1
        · exact hold old hget
      · exact hold old hget

theorem get?_foreign {call : LeaseCall} {held : List (Lock × Mode)} (hw : Foreign call held db w)
    (ha : a.author = call.addr.author) :
    (w.apply db call.community).leases.get? a = (db call.community).leases.get? a := by
  cases w with
  | event c k r => rw [leases_apply_event]
  | lease c a' l =>
    rw [leases_apply_lease]
    split_ifs with hc
    · subst hc
      have hne : a ≠ a' := by
        intro heq
        exact (hw rfl).1 (heq ▸ ha)
      rw [Table.get?_set, if_neg hne]
    · rfl

theorem filter_leases_foreign {call : LeaseCall} {held : List (Lock × Mode)}
    (hw : Foreign call held db w) (p : Address × Lease → Bool)
    (hp : ∀ x, p x = true → x.1.author = call.addr.author) :
    (w.apply db call.community).leases.toList.filter p =
      (db call.community).leases.toList.filter p := by
  cases w with
  | event c k r => rw [leases_apply_event]
  | lease c a l =>
    rw [leases_apply_lease]
    split_ifs with hc
    · subst hc
      have hother : ∀ v, p (a, v) = false := by
        intro v
        by_contra hne
        exact (hw rfl).1 (hp (a, v) (by simpa using hne))
      exact Table.filter_toList_set_neg _ _ _ _ (hother l) fun v _ => hother v
    · rfl

theorem endpointTaken_eq_filter (leases : Leases) (addr : Address) (e : ActiveLease) :
    endpointTaken leases addr e =
      (leases.toList.filter fun x => x.1.author == addr.author).any fun x =>
        x.1.installationId != addr.installationId && x.2.active &&
          x.2.endpoint.any fun e' =>
            e'.appProfile == e.appProfile && e'.endpointHash == e.endpointHash := by
  rw [endpointTaken, List.any_filter]
  simp only [Bool.and_assoc]

theorem endpointTaken_foreign {call : LeaseCall} {held : List (Lock × Mode)}
    (hw : Foreign call held db w) : endpointTaken (w.apply db call.community).leases call.addr =
      endpointTaken (db call.community).leases call.addr := by
  funext e
  rw [endpointTaken_eq_filter, endpointTaken_eq_filter, filter_leases_foreign hw]
  intro x hx
  exact beq_iff_eq.mp hx

variable {leases : Leases} {addr : Address}

theorem sourceTaken_false {id : EventId} : sourceTaken leases addr id = false ↔
      ∀ a l, leases.get? a = some l → a ≠ addr → l.version.sourceEventId ≠ id := by
  simp only [sourceTaken, List.any_eq_false, Bool.and_eq_true, bne_iff_ne, ne_eq, beq_iff_eq,
    not_and, Prod.forall, Table.mem_toList]

theorem retired_foreign {call : LeaseCall} {held : List (Lock × Mode)} (hw : Foreign call held db w) :
    call.retired (w.apply db) = call.retired db := by
  unfold LeaseCall.retired
  cases w with
  | lease c a l => rw [events_apply_lease]
  | event c k r =>
    rw [events_apply_event]
    split_ifs with hc
    · subst hc
      obtain ⟨hlive, hold, -⟩ := hw rfl
      rw [Table.filter_toList_set_neg _ _ _ _ hlive hold]
    · rfl

theorem written_foreign {call : LeaseCall} {held : List (Lock × Mode)} (hw : Foreign call held db w)
    (k : Nat) : call.written (w.apply db) k = call.written db k := by
  unfold LeaseCall.written
  rw [retired_foreign hw]

theorem fact_foreign {call : LeaseCall} {held : List (Lock × Mode)} (hw : Foreign call held db w)
    (h : call.fact m now db held k) : call.fact m now (w.apply db) held k := by
  unfold LeaseCall.fact at h ⊢
  split at h
  · exact h
  · intro a l hget ha
    rw [get?_foreign hw ha] at hget
    exact h a l hget ha
  · unfold staleVersion at h ⊢
    rw [get?_foreign hw rfl]
    exact h
  · rw [filter_leases_foreign hw]
    · exact h
    · intro x hx
      simp only [expired, Bool.and_eq_true, beq_iff_eq] at hx
      exact hx.1.1
  · intro hactive
    unfold activeElsewhere at h ⊢
    rw [filter_leases_foreign hw]
    · exact h hactive
    · intro x hx
      simp only [Bool.and_eq_true, beq_iff_eq] at hx
      exact hx.1.1
  · rw [endpointTaken_foreign hw]
    exact h
  · rw [retired_foreign hw]
    exact h
  · refine ⟨h.1, ?_⟩
    cases w with
    | lease c a l => rw [events_apply_lease]; exact h.2
    | event c k' r =>
      rw [events_apply_event]
      split_ifs with hc
      · subst hc
        rw [Table.get?_set, if_neg (Ne.symm ((hw rfl).2.2 h.1))]
        exact h.2
      · exact h.2
  · refine ⟨h.1, h.2.1, ?_⟩
    rw [sourceTaken_false] at h ⊢
    intro a l hget hne
    cases w with
    | event c k' r => rw [leases_apply_event] at hget; exact h.2.2 a l hget hne
    | lease c a' l' =>
      rw [leases_apply_lease] at hget
      split_ifs at hget with hc
      · subst hc
        rw [Table.get?_set] at hget
        split_ifs at hget with ha
        · cases hget; exact (hw rfl).2 h.1
        · exact h.2.2 a l hget hne
      · exact h.2.2 a l hget hne
  · trivial

theorem progress_foreign {call : LeaseCall} {held : List (Lock × Mode)} (ws : List Write)
    (hws : ∀ w ∈ ws, Foreign call held db w) (h : call.Progress m now db held writes n) :
    call.Progress m now (view (system m) db ws) held writes n := by
  induction ws generalizing db with
  | nil => exact h
  | cons w ws ih =>
    have hw := hws w List.mem_cons_self
    refine ih (fun w' hw' => hw.apply (hws w' (List.mem_cons_of_mem w hw'))) ⟨?_, ?_⟩
    · intro k hk; exact fact_foreign hw (h.facts k hk)
    · rw [h.writes]
      simp only [List.flatMap]
      congr 1
      refine List.map_congr_left ?_
      intro k _
      exact (written_foreign hw k).symm

/-! ## The commit -/

theorem events_view_rows (m : Int) (db : Db) (c : CommunityId) (rows : List (EventKey × EventRow)) :
    (view (system m) db (rows.map fun x => .event c x.1 x.2) c).events =
      (db c).events.setAll rows := by
  induction rows generalizing db with
  | nil => rfl
  | cons x rows ih =>
    rw [List.map_cons, view_cons, ih, events_apply_event, if_pos rfl]
    rfl

theorem view_other (m : Int) (db : Db) (c c' : CommunityId) (ws : List Write) (hne : c' ≠ c)
    (h : ∀ w ∈ ws, (∃ a l, w = .lease c a l) ∨ ∃ k r, w = .event c k r) :
    view (system m) db ws c' = db c' := by
  induction ws generalizing db with
  | nil => rfl
  | cons w ws ih =>
    rw [view_cons, ih _ fun w' hw' => h w' (List.mem_cons_of_mem w hw')]
    obtain ⟨a, l, rfl⟩ | ⟨k, r, rfl⟩ := h w List.mem_cons_self
    · exact Function.update_of_ne hne _ _
    · exact Function.update_of_ne hne _ _

def LeaseCall.allWrites (call : LeaseCall) (db : Db) : List Write :=
  ((call.retired db).map fun x => .event call.community x.1 x.2) ++
    [.event call.community call.key call.eventRow, .lease call.community call.addr call.row]

theorem LeaseCall.Progress.allWrites {call : LeaseCall} {held : List (Lock × Mode)}
    (h : call.Progress m now db held writes 11) : writes = call.allWrites db := by
  rw [h.writes]
  simp [List.range_succ, LeaseCall.written, LeaseCall.allWrites]

theorem allWrites_here (call : LeaseCall) (db : Db) : ∀ w ∈ call.allWrites db,
    (∃ a l, w = .lease call.community a l) ∨ ∃ k r, w = .event call.community k r := by
  intro w hw
  simp only [LeaseCall.allWrites, List.mem_append, List.mem_map, List.mem_cons, List.not_mem_nil,
    or_false] at hw
  obtain ⟨x, -, rfl⟩ | rfl | rfl := hw
  · exact .inr ⟨_, _, rfl⟩
  · exact .inr ⟨_, _, rfl⟩
  · exact .inl ⟨_, _, rfl⟩

theorem leases_allWrites (m : Int) (db : Db) (call : LeaseCall) :
    (view (system m) db (call.allWrites db) call.community).leases =
      (db call.community).leases.set call.addr call.row := by
  rw [LeaseCall.allWrites, view_append, view_cons, view_cons, view_nil, leases_apply_lease,
    if_pos rfl, leases_apply_event, leases_view_events]
  intro w hw
  obtain ⟨x, -, rfl⟩ := List.mem_map.mp hw
  rfl

theorem events_allWrites (m : Int) (db : Db) (call : LeaseCall) (k : EventKey) :
    (view (system m) db (call.allWrites db) call.community).events.get? k =
      if k = call.key then some call.eventRow
      else ((db call.community).events.get? k).map fun r =>
        if r.liveAt call.addr then { r with deleted := true } else r := by
  rw [LeaseCall.allWrites, view_append, view_cons, view_cons, view_nil, events_apply_lease,
    events_apply_event, if_pos rfl, events_view_rows, Table.get?_set]
  split_ifs with hk
  · rfl
  · exact Table.get?_setAll_update (db call.community).events (fun x => x.2.liveAt call.addr)
      (fun r => { r with deleted := true }) k

theorem endpointTaken_false {e : ActiveLease} : endpointTaken leases addr e = false ↔
      ∀ a l, leases.get? a = some l → a.author = addr.author →
        a.installationId ≠ addr.installationId → l.active = true → ∀ e', l.endpoint = some e' →
          e'.appProfile = e.appProfile → e'.endpointHash ≠ e.endpointHash := by
  simp only [endpointTaken, List.any_eq_false, Bool.and_eq_true, bne_iff_ne, ne_eq, beq_iff_eq,
    Prod.forall, Table.mem_toList, Option.any_eq_true, not_and, not_exists, and_imp]

theorem address_eq {b : Address} (hauthor : a.author = b.author)
    (hid : a.installationId = b.installationId) : a = b := by
  cases a
  cases b
  simp only [Address.mk.injEq]
  exact ⟨hauthor, hid⟩

theorem address_ne {b : Address} (hauthor : a.author = b.author) (hne : a ≠ b) :
    a.installationId ≠ b.installationId := fun hid => hne (address_eq hauthor hid)

theorem activeLeases_set_le (leases : Leases) (addr : Address) (row : Lease) :
    activeLeases (leases.set addr row) addr.author ≤
      if row.active then activeElsewhere leases addr + 1 else activeLeases leases addr.author := by
  unfold activeLeases
  split_ifs with hactive
  · rw [Table.filter_toList_set_pos _ _ _ _ (by simp [hactive]), List.length_cons,
      Nat.succ_le_succ_iff, activeElsewhere, List.filter_filter]
    refine List.Sublist.length_le (List.monotone_filter_right _ ?_)
    rintro ⟨a, l⟩ h
    simp only [ne_eq, decide_not, Bool.and_eq_true, Bool.not_eq_eq_eq_not, Bool.not_true,
      decide_eq_false_iff_not, beq_iff_eq] at h
    simp [h.2.1, h.2.2, address_ne h.2.1 h.1]
  · rw [Table.toList_set, List.filter_cons_of_neg (by simp [hactive]), List.filter_filter]
    refine List.Sublist.length_le (List.monotone_filter_right _ ?_)
    intro x h
    simp only [Bool.and_eq_true] at h ⊢
    exact h.1

theorem check_active (h : l.check a = true) : l.active = l.endpoint.isSome := by
  unfold Lease.check at h
  simp only [Bool.and_eq_true, beq_iff_eq] at h
  exact h.1.1.1

theorem liveAt_eventRow (call : LeaseCall) (addr : Address) :
    call.eventRow.liveAt addr = true ↔ addr = call.addr := by
  simp only [LeaseCall.eventRow, EventRow.liveAt, beq_self_eq_true, Bool.true_and, Bool.not_false,
    Bool.and_true, Bool.and_eq_true, beq_iff_eq, Option.some.injEq]
  constructor
  · rintro ⟨hauthor, hid⟩; exact address_eq hauthor.symm hid.symm
  · rintro rfl; exact ⟨rfl, rfl⟩

theorem live_allWrites (m : Int) (db : Db) (call : LeaseCall) (addr : Address) (k : EventKey)
    (hfree : (db call.community).events.get? call.key = none) :
    Live (view (system m) db (call.allWrites db) call.community) addr k ↔
      if addr = call.addr then k = call.key else Live (db call.community) addr k := by
  unfold Live
  rw [events_allWrites]
  by_cases hk : k = call.key
  · subst hk
    simp only [if_pos, Option.some.injEq, exists_eq_left', liveAt_eventRow, hfree]
    split_ifs with haddr
    · simp [haddr]
    · simp [haddr]
  · rw [if_neg hk]
    cases hget : (db call.community).events.get? k with
    | none => simp [hk]
    | some r =>
      simp only [Option.map_some, Option.some.injEq, exists_eq_left']
      split_ifs with hlive haddr haddr
      · simp [EventRow.liveAt, hk]
      · -- A live event of the call's address is none of another address.
        have hother : r.liveAt addr = false := by
          by_contra hne
          simp only [Bool.not_eq_false, EventRow.liveAt, Bool.and_eq_true, beq_iff_eq] at hne hlive
          exact haddr (address_eq (hne.1.1.2.symm.trans hlive.1.1.2)
            (Option.some.inj (hne.1.2.symm.trans hlive.1.2)))
        have hdeleted : EventRow.liveAt addr { r with deleted := true } = false := by
          simp [EventRow.liveAt]
        rw [hother, hdeleted]
      · subst haddr; simp [hlive, hk]
      · rfl

theorem sound_accept {call : LeaseCall} {held : List (Lock × Mode)} (hsound : ∀ c, Sound m (db c))
    (h : call.Progress m now db held writes 11) (c : CommunityId) :
    Sound m (view (system m) db writes c) := by
  rw [h.allWrites]
  by_cases hc : c = call.community
  · subst hc
    have hs := hsound call.community
    obtain ⟨-, hcheck, hsource⟩ := h.facts 10 (by omega)
    have hend := h.facts 7 (by omega)
    have hquota := h.facts 6 (by omega)
    have hfree := (h.facts 9 (by omega)).2
    rw [sourceTaken_false] at hsource
    simp only [LeaseCall.fact] at hend hquota
    have hends : ∀ e, call.active = some e → ∀ a l, (db call.community).leases.get? a = some l →
        a.author = call.addr.author → a ≠ call.addr → ∀ e', l.endpoint = some e' →
          e'.appProfile = e.appProfile → e'.endpointHash ≠ e.endpointHash := by
      intro e he a l hget hauthor hne e' he'
      rw [he, Option.any_some, endpointTaken_false] at hend
      refine hend a l hget hauthor (address_ne hauthor hne) ?_ e' he'
      rw [check_active (hs.checked a l hget), he']
      rfl
    refine ⟨?_, ?_, ?_, ?_, ?_⟩
    · intro a l hget
      rw [leases_allWrites, Table.get?_set] at hget
      split_ifs at hget with ha
      · cases hget; subst ha; exact hcheck
      · exact hs.checked a l hget
    · intro a b la lb hga hgb hid
      rw [leases_allWrites, Table.get?_set] at hga hgb
      split_ifs at hga hgb with ha hb hb
      · rw [ha, hb]
      · cases hga; exact absurd hid.symm (hsource b lb hgb hb)
      · cases hgb; exact absurd hid (hsource a la hga ha)
      · exact hs.source a b la lb hga hgb hid
    · intro a b la lb ea eb hga hgb hauthor hea heb hprofile hhash
      rw [leases_allWrites, Table.get?_set] at hga hgb
      split_ifs at hga hgb with ha hb hb
      · rw [ha, hb]
      · cases hga
        subst ha
        exact absurd hhash.symm (hends ea hea b lb hgb hauthor.symm hb eb heb hprofile.symm)
      · cases hgb
        subst hb
        exact absurd hhash (hends eb heb a la hga hauthor ha ea hea hprofile)
      · exact hs.endpoint a b la lb ea eb hga hgb hauthor hea heb hprofile hhash
    · intro author
      rw [leases_allWrites]
      by_cases hauthor : author = call.addr.author
      · subst hauthor
        have hle := activeLeases_set_le (db call.community).leases call.addr call.row
        have hbefore := hs.quota call.addr.author
        split_ifs at hle with hactive
        · have hroom := hquota hactive
          omega
        · omega
      · unfold activeLeases
        rw [Table.filter_toList_set_neg]
        · exact hs.quota author
        · simp [Ne.symm hauthor]
        · intro v _; simp [Ne.symm hauthor]
    · intro addr k
      rw [live_allWrites m db call addr k hfree, leases_allWrites, Table.get?_set]
      split_ifs with haddr
      · simp only [Option.some.injEq, exists_eq_left']
        rfl
      · exact hs.live addr k
  · rw [view_other m db call.community c _ hc (allWrites_here call db)]
    exact hsound c

/-! ## The versions of an address -/

theorem winsEvent_iff {v w : LeaseVersion} : v.winsEvent w = true ↔
    w.sourceCreatedAt < v.sourceCreatedAt ∨
      (v.sourceCreatedAt = w.sourceCreatedAt ∧ v.sourceEventId < w.sourceEventId) := by
  simp [LeaseVersion.winsEvent]

theorem Newer.trans {u v w : LeaseVersion} (h : Newer u v) (h' : Newer v w) : Newer u w := by
  refine ⟨Int.lt_trans h.1 h'.1, ?_⟩
  have hwins := h.2
  have hwins' := h'.2
  rw [winsEvent_iff] at hwins hwins' ⊢
  rcases hwins with hlt | ⟨heq, hid⟩ <;> rcases hwins' with hlt' | ⟨heq', hid'⟩
  · left; omega
  · left; omega
  · left; omega
  · exact .inr ⟨heq'.trans heq, BitVec.lt_trans hid' hid⟩

theorem newer_of_last {vs : List LeaseVersion} {last w : LeaseVersion} (hsorted : vs.Pairwise Newer)
    (hlast : vs.getLast? = some last) (hw : Newer last w) : ∀ v ∈ vs, Newer v w := by
  obtain ⟨init, rfl⟩ := List.getLast?_eq_some_iff.mp hlast
  rw [List.pairwise_append] at hsorted
  intro v hv
  rcases List.mem_append.mp hv with hinit | hlast
  · exact (hsorted.2.2 v hinit last (List.mem_singleton_self last)).trans hw
  · rw [List.mem_singleton] at hlast
    exact hlast ▸ hw

theorem staleVersion_none {version : LeaseVersion}
    (h : staleVersion leases addr version AcceptLeaseOutcome.staleEvent .staleGeneration = none)
    (hget : leases.get? addr = some l) : Newer l.version version := by
  simp only [staleVersion, hget, Option.bind_some] at h
  split_ifs at h with hwins hgen
  exact ⟨Int.not_le.mp hgen, by simpa using hwins⟩

theorem versions_refuse (p : Pub) (call : Call) (error : Refusal) (c : CommunityId)
    (addr : Address) : versions (p.refuse call error) c addr = versions p c addr := by
  simp only [versions, Public.refuse, List.filterMap_append]
  cases call <;> simp

theorem versions_commit (m : Int) (p : Pub) (t : AcceptTx) (c : CommunityId) (addr : Address) :
    versions (p.commit (system m) t) c addr = versions p c addr ++
      match t.call with
      | .accept call => if call.community = c ∧ call.addr = addr then [call.version] else []
      | .store .. => [] := by
  simp only [versions, Public.commit, List.filterMap_append]
  congr 1
  cases t.call with
  | store c' key row => rfl
  | accept call =>
    by_cases h : call.community = c ∧ call.addr = addr
    · simp [h]
    · simp [h]

variable {p : Pub}

theorem consistent_commit_accept {t : AcceptTx} {call : LeaseCall} (hinv : Consistent m p)
    (hcall : t.call = .accept call) (h : call.Progress m t.now p.db t.held t.writes 11) :
    Consistent m (p.commit (system m) t) := by
  have hcurrent := h.facts 4 (by omega)
  refine ⟨sound_accept hinv.sound h, ?_, ?_⟩
  · intro c addr
    rw [versions_commit, hcall]
    simp only
    split_ifs with hsame
    · obtain ⟨rfl, rfl⟩ := hsame
      rw [List.pairwise_append]
      refine ⟨hinv.ordered _ _, List.pairwise_singleton _ _, ?_⟩
      intro v hv w hw
      rw [List.mem_singleton] at hw
      subst hw
      have hlatest := hinv.latest call.community call.addr
      cases hget : (p.db call.community).leases.get? call.addr with
      | none =>
        rw [hget, Option.map_none, List.getLast?_eq_none_iff] at hlatest
        rw [hlatest] at hv
        cases hv
      | some l =>
        rw [hget] at hlatest
        exact newer_of_last (hinv.ordered _ _) hlatest (staleVersion_none hcurrent hget) v hv
    · rw [List.append_nil]; exact hinv.ordered c addr
  · intro c addr
    rw [versions_commit, hcall]
    simp only [Public.commit]
    rw [h.allWrites]
    by_cases hc : c = call.community
    · subst hc
      rw [leases_allWrites, Table.get?_set]
      by_cases haddr : addr = call.addr
      · subst haddr
        simp only [and_self, if_pos, List.getLast?_append, List.getLast?_singleton,
          Option.some_or, Option.map_some]
        rfl
      · simp only [true_and, if_neg haddr, if_neg (Ne.symm haddr), List.append_nil]
        exact hinv.latest _ _
    · rw [view_other m p.db call.community c _ hc (allWrites_here call p.db)]
      simp only [Ne.symm hc, false_and, if_false, List.append_nil]
      exact hinv.latest c addr

theorem consistent_commit_store {t : AcceptTx} {c : CommunityId} {key : EventKey} {row : EventRow}
    (hinv : Consistent m p) (hcall : t.call = .store c key row)
    (hwrites : t.writes = [.event c key row]) (hkind : row.kind ≠ pushLeaseKind)
    (hfree : (p.db c).events.get? key = none) : Consistent m (p.commit (system m) t) := by
  have hleases : ∀ c', ((p.commit (system m) t).db c').leases = (p.db c').leases := by
    intro c'
    simp only [Public.commit, hwrites, view_cons, view_nil, leases_apply_event]
  have hlive : ∀ c' addr k,
      Live ((p.commit (system m) t).db c') addr k ↔ Live (p.db c') addr k := by
    intro c' addr k
    simp only [Live, Public.commit, hwrites, view_cons, view_nil, events_apply_event]
    split_ifs with hc
    · subst hc
      rw [Table.get?_set]
      split_ifs with hk
      · subst hk
        simp [hfree, EventRow.liveAt, hkind]
      · rfl
    · rfl
  have hversions : ∀ c' addr, versions (p.commit (system m) t) c' addr = versions p c' addr := by
    intro c' addr
    rw [versions_commit, hcall]
    exact List.append_nil _
  refine ⟨?_, ?_, ?_⟩
  · intro c'
    have hs := hinv.sound c'
    refine ⟨?_, ?_, ?_, ?_, ?_⟩
    · rw [hleases]; exact hs.checked
    · rw [hleases]; exact hs.source
    · rw [hleases]; exact hs.endpoint
    · rw [hleases]; exact hs.quota
    · intro addr k; rw [hlive, hleases]; exact hs.live addr k
  · intro c' addr; rw [hversions]; exact hinv.ordered c' addr
  · intro c' addr; rw [hversions, hleases]; exact hinv.latest c' addr

/-! ## Commits of the others -/

theorem progress_early {call : LeaseCall} {db' : Db} {held : List (Lock × Mode)} (hn : n ≤ 2)
    (h : call.Progress m now db held writes n) : call.Progress m now db' held writes n := by
  refine ⟨?_, ?_⟩
  · intro k hk
    have hfact := h.facts k hk
    have hlt : k < 2 := by omega
    interval_cases k <;> exact hfact
  · rw [h.writes]
    interval_cases n <;> rfl

theorem progress_done {call : LeaseCall} {t : AcceptTx} (hrest : t.rest = [])
    (h : ∃ n ≤ 11, t.rest = (call.program m t.now).drop n ∧
      call.Progress m t.now db t.held t.writes n) :
    call.Progress m t.now db t.held t.writes 11 := by
  obtain ⟨n, hn, hdrop, hprog⟩ := h
  rw [hrest] at hdrop
  have hlen := List.drop_eq_nil_iff.mp hdrop.symm
  simp only [LeaseCall.program, List.length_cons, List.length_nil] at hlen
  obtain rfl : n = 11 := by omega
  exact hprog

theorem own_event_locked {t : AcceptTx} (h : Own m p t) (hrest : t.rest = []) {c : CommunityId}
    {k : EventKey} {r : EventRow} (hw : .event c k r ∈ t.writes) :
    (.eventRow c k, .exclusive) ∈ t.held := by
  unfold Own at h
  split at h
  · have hprog := progress_done hrest h
    rw [hprog.allWrites] at hw
    simp only [LeaseCall.allWrites, List.mem_append, List.mem_map, List.mem_cons, List.not_mem_nil,
      or_false, reduceCtorEq, Write.event.injEq] at hw
    obtain ⟨x, hx, rfl, rfl, rfl⟩ | ⟨rfl, rfl, rfl⟩ := hw
    · exact hprog.facts 8 (by omega) x hx
    · exact (hprog.facts 9 (by omega)).1
  · obtain ⟨hrest', -⟩ | ⟨-, hwrites, -, hlock, -⟩ := h
    · rw [hrest] at hrest'; cases hrest'
    · rw [hwrites, List.mem_singleton] at hw
      cases hw
      exact hlock

theorem liveAt_author {r : EventRow} (h : r.liveAt addr = true) : r.pubkey = addr.author := by
  simp only [EventRow.liveAt, Bool.and_eq_true, beq_iff_eq] at h
  exact h.1.1.2

theorem writes_foreign {t : AcceptTx} {call : LeaseCall} {held : List (Lock × Mode)} (h : Own m p t)
    (hrest : t.rest = []) (hlocked : (.author call.community call.addr.author, .exclusive) ∈ held)
    (hfit : conflict t.held held = false) : ∀ w ∈ t.writes, Foreign call held p.db w := by
  have hno : ∀ k, (k, Mode.exclusive) ∈ t.held → (k, Mode.exclusive) ∉ held := by
    intro k hk hk'
    rw [conflict_of_mem hk hk'] at hfit
    cases hfit
  have hkeys : ∀ c k r, .event c k r ∈ t.writes → c = call.community →
      (.eventRow c call.key, .exclusive) ∈ held → k ≠ call.key := by
    intro c k r hw _ hlock hk
    exact hno _ (own_event_locked h hrest hw) (hk ▸ hlock)
  have hown := h
  unfold Own at h
  intro w hw
  split at h
  · rename_i call' hcall
    have hprog := progress_done hrest h
    have hauthor : call'.community = call.community → call'.addr.author ≠ call.addr.author := by
      intro hc ha
      have hlock := hprog.facts 1 (by omega)
      simp only [LeaseCall.fact] at hlock
      rw [hc, ha] at hlock
      exact hno _ hlock hlocked
    have hnotLive : ∀ r : EventRow, call'.community = call.community →
        r.pubkey = call'.addr.author → r.liveAt call.addr = false := by
      intro r hc hr
      by_contra hne
      exact hauthor hc (hr.symm.trans (liveAt_author (by simpa using hne)))
    have hw' := hw
    rw [hprog.allWrites] at hw'
    simp only [LeaseCall.allWrites, List.mem_append, List.mem_map, List.mem_cons, List.not_mem_nil,
      or_false] at hw'
    obtain ⟨x, hx, rfl⟩ | rfl | rfl := hw'
    · intro hc
      simp only [LeaseCall.retired, List.mem_map, List.mem_filter] at hx
      obtain ⟨⟨k, r⟩, ⟨hmem, hlive⟩, rfl⟩ := hx
      have hpubkey : r.pubkey = call'.addr.author := liveAt_author hlive
      refine ⟨hnotLive _ hc hpubkey, ?_, hkeys _ _ _ hw hc⟩
      intro old hget
      rw [(Table.mem_toList _ _ _).mp hmem] at hget
      cases hget
      exact hnotLive _ hc hpubkey
    · intro hc
      refine ⟨hnotLive _ hc rfl, ?_, hkeys _ _ _ hw hc⟩
      intro old hget
      rw [(hprog.facts 9 (by omega)).2] at hget
      cases hget
    · intro hc
      refine ⟨hauthor hc, ?_⟩
      intro hlock hid
      refine hno _ (hprog.facts 10 (by omega)).1 ?_
      rw [← hid] at hlock
      exact hlock
  · obtain ⟨hrest', -⟩ | ⟨-, hwrites, hkind, -, hfree⟩ := h
    · rw [hrest] at hrest'; cases hrest'
    · have hw' := hw
      rw [hwrites, List.mem_singleton] at hw'
      subst hw'
      intro hc
      refine ⟨?_, ?_, hkeys _ _ _ hw hc⟩
      · simp [EventRow.liveAt, hkind]
      · intro old hget
        rw [hfree] at hget
        cases hget

theorem events_view_unwritten (m : Int) (db : Db) (ws : List Write) (c : CommunityId) (k : EventKey)
    (h : ∀ r, .event c k r ∉ ws) :
    (view (system m) db ws c).events.get? k = (db c).events.get? k := by
  induction ws generalizing db with
  | nil => rfl
  | cons w ws ih =>
    rw [view_cons, ih _ fun r hr => h r (List.mem_cons_of_mem w hr)]
    cases w with
    | lease c' a l => rw [events_apply_lease]
    | event c' k' r =>
      rw [events_apply_event]
      split_ifs with hc
      · subst hc
        have hk : k ≠ k' := by
          rintro rfl
          exact h r List.mem_cons_self
        rw [Table.get?_set, if_neg hk]
      · rfl

theorem own_commit {t u : AcceptTx} (ht : Own m p t) (hu : Own m p u) (hrest : t.rest = [])
    (hfit : conflict t.held u.held = false) : Own m (p.commit (system m) t) u := by
  have hwrites := @writes_foreign m p t
  unfold Own at hu ⊢
  split
  · rename_i call hcall
    rw [hcall] at hu
    obtain ⟨n, hn, hdrop, hprog⟩ := hu
    refine ⟨n, hn, hdrop, ?_⟩
    by_cases hearly : n ≤ 1
    · exact progress_early (by omega) hprog
    · exact progress_foreign t.writes (hwrites ht hrest (hprog.facts 1 (by omega)) hfit) hprog
  · rename_i c key row hcall
    rw [hcall] at hu
    obtain ⟨hrest', hnil⟩ | ⟨hrest', hw, hkind, hlock, hfree⟩ := hu
    · exact .inl ⟨hrest', hnil⟩
    · refine .inr ⟨hrest', hw, hkind, hlock, ?_⟩
      simp only [Public.commit]
      rw [events_view_unwritten]
      · exact hfree
      · intro r hr
        rw [conflict_of_mem (own_event_locked ht hrest hr) hlock] at hfit
        cases hfit

/-! ## The rule of the machine -/

theorem own_exec {t : AcceptTx} {rest : List Stmt} (hinv : Consistent m p) (h : Own m p t)
    (hrest : t.rest = stmt :: rest)
    (hexec : stmt.exec t.vars (view (system m) p.db t.writes) = .ok (vars, more)) :
    Own m p (t.after rest (stmt.locks t.vars (view (system m) p.db t.writes)) vars more) := by
  unfold Own at h ⊢
  simp only [Tx.after]
  split
  · rename_i call hcall
    rw [hcall] at h
    obtain ⟨n, hn, hdrop, hprog⟩ := h
    rw [hrest] at hdrop
    obtain ⟨hle, hstmt, hrest'⟩ := program_drop hdrop.symm
    obtain ⟨hfact, hmore⟩ := exec_fact (hinv.sound _) hprog hle hstmt hexec
    refine ⟨n + 1, by omega, hrest'.symm, ?_, ?_⟩
    · intro k hk
      by_cases hlast : k = n
      · subst hlast; exact hfact
      · exact fact_mono _ (hprog.facts k (by omega))
    · rw [List.range_succ, List.flatMap_append, ← hprog.writes, hmore]
      simp
  · rename_i c key row hcall
    rw [hcall] at h
    obtain ⟨hone, hnil⟩ | ⟨hdone, -⟩ := h
    · rw [hrest] at hone
      obtain ⟨rfl, rfl⟩ := List.cons.inj hone
      rw [hnil, view_nil] at hexec
      simp only [storeEvent] at hexec
      split_ifs at hexec with hbad
      cases hexec
      push Not at hbad
      refine .inr ⟨rfl, by rw [hnil]; rfl, hbad.1, ?_, ?_⟩
      · exact List.mem_append_right _ List.mem_cons_self
      · simpa using hbad.2
    · rw [hrest] at hdone; cases hdone

theorem rule (m : Int) : Rule (system m) .any (Consistent m) (Own m) where
  advance p micros h := ⟨h.sound, h.ordered, h.latest⟩
  refuse p call error h := by
    refine ⟨h.sound, ?_, ?_⟩
    · intro c addr; rw [versions_refuse]; exact h.ordered c addr
    · intro c addr; rw [versions_refuse]; exact h.latest c addr
  commit p t h hown hrest _ := by
    have hown' := hown
    unfold Own at hown'
    split at hown'
    · rename_i call hcall
      exact consistent_commit_accept h hcall (progress_done hrest hown')
    · rename_i c key row hcall
      obtain ⟨hrest', -⟩ | ⟨-, hwrites, hkind, -, hfree⟩ := hown'
      · rw [hrest] at hrest'; cases hrest'
      · exact consistent_commit_store h hcall hwrites hkind hfree
  begin p call h := by
    unfold Own fresh
    cases call with
    | accept call =>
      refine ⟨0, by omega, rfl, ?_, rfl⟩
      intro k hk; omega
    | store c key row => exact .inl ⟨rfl, rfl⟩
  exec p t stmt rest vars writes h hown hrest _ hexec := own_exec h hown hrest hexec
  ownAdvance p t micros h := h
  ownRefuse p t call error h := h
  ownCommit p t u _ ht hu hrest hfit _ := own_commit ht hu hrest hfit

theorem consistent_start (m clock : Int) : Consistent m ⟨clock, emptyDb, []⟩ := by
  have hnone : ∀ c addr, (emptyDb c).leases.get? addr = none := fun _ _ => rfl
  refine ⟨?_, ?_, ?_⟩
  · intro c
    refine ⟨?_, ?_, ?_, ?_, ?_⟩
    · intro a l hget; rw [hnone] at hget; cases hget
    · intro a b la lb hget; rw [hnone] at hget; cases hget
    · intro a b la lb ea eb hget; rw [hnone] at hget; cases hget
    · intro author; exact Int.le_max_left 0 m
    · intro addr key
      constructor
      · rintro ⟨r, hget, -⟩; cases hget
      · rintro ⟨l, hget, -⟩; rw [hnone] at hget; cases hget
  · intro c addr; exact List.Pairwise.nil
  · intro c addr; rfl

theorem run_consistent {clock : Int} {actions : List (Action Call Refusal)} {s : World}
    (hrun : run (step (system m)) (World.start clock) actions = some s) : Consistent m s.pub :=
  (run_keeps (rule m) (kept_init clock (consistent_start m clock)) hrun).inv

/-! ## The contract of acceptance -/

/-- What a caller can rely on in a state `s`. -/
structure Orderly (maxActiveLeases : Int) (s : World) : Prop where
  ordered : ∀ c addr, (versions s.pub c addr).Pairwise Newer
  latest : ∀ c addr,
    (versions s.pub c addr).getLast? = ((s.pub.db c).leases.get? addr).map Lease.version
  live : ∀ c addr key, Live (s.pub.db c) addr key ↔
    ∃ l, (s.pub.db c).leases.get? addr = some l ∧ key = LeaseVersion.key l.version
  quota : ∀ c author,
    (activeLeases (s.pub.db c).leases author : Int) ≤ max 0 maxActiveLeases
  endpoint : ∀ c a b la lb ea eb, (s.pub.db c).leases.get? a = some la →
    (s.pub.db c).leases.get? b = some lb → a.author = b.author →
    la.active = true → lb.active = true → la.endpoint = some ea → lb.endpoint = some eb →
    ea.appProfile = eb.appProfile → ea.endpointHash = eb.endpointHash → a = b
  /-- A step changes the tables only when it answers a call with success. -/
  unchanged : ∀ action s', step (system maxActiveLeases) s action = some s' →
    (∃ call, s'.pub.answers = s.pub.answers ++ [(call, Except.ok ())]) ∨ s'.pub.db = s.pub.db

/-- Whatever the order in which the statements of any number of acceptances run. -/
theorem acceptances_stay_orderly (maxActiveLeases clock : Int)
    (actions : List (Action Call Refusal)) (s : World)
    (hrun : run (step (system maxActiveLeases)) (World.start clock) actions = some s) :
    Orderly maxActiveLeases s := by
  have hinv := run_consistent hrun
  refine ⟨hinv.ordered, hinv.latest, fun c => (hinv.sound c).live, fun c => (hinv.sound c).quota,
    ?_, ?_⟩
  · intro c a b la lb ea eb hga hgb hauthor _ _ hea heb hprofile hhash
    exact (hinv.sound c).endpoint a b la lb ea eb hga hgb hauthor hea heb hprofile hhash
  · intro action s' hstep
    cases step_cases hstep with
    | advance micros => exact .inr rfl
    | begin call => exact .inr rfl
    | exec hopen hrest hfree hexec => exact .inr rfl
    | commit hopen hrest => exact .inl ⟨_, rfl⟩
    | refuse hopen hrest hexec => exact .inr rfl
    | fail error hopen => exact .inr rfl

def rotation : List (Action Call Refusal) :=
  let lease (generation createdAt : Int) (id : EventId) (author : BitVec 256) : Call :=
    .accept ⟨0, ⟨author, "phone"⟩, ⟨id, createdAt, generation, 1000⟩,
      some ⟨"buzz-ios-production", 5, "grant", "default"⟩⟩
  -- Both take their own locks. The second waits for the gate until the first has committed.
  [Action.begin (lease 1 100 7 1), .begin (lease 1 100 8 2), .exec 0, .exec 1, .exec 0, .exec 1] ++
    List.replicate 9 (Action.exec 0) ++ [Action.commit 0] ++
    List.replicate 9 (Action.exec 1) ++ [Action.commit 1] ++
    [Action.begin (lease 2 100 6 1)] ++ List.replicate 11 (Action.exec 2) ++ [Action.commit 2] ++
    [Action.begin (lease 1 100 7 1)] ++ List.replicate 5 (Action.exec 3)

theorem rotation_stays_orderly : ∃ s, run (step (system 16)) (World.start 0) rotation = some s ∧
    (versions s.pub 0 ⟨1, "phone"⟩).map LeaseVersion.generation = [1, 2] ∧
    s.pub.answers.map (fun x => decide (x.2 = .ok ())) = [true, true, true, false] ∧
    Orderly 16 s := by
  have hend : ((run (step (system 16)) (World.start 0) rotation).any fun s =>
      (versions s.pub 0 ⟨1, "phone"⟩).map LeaseVersion.generation == [1, 2] &&
        (s.pub.answers.map fun x => decide (x.2 = .ok ())) == [true, true, true, false]) =
      true := by
    decide +kernel
  obtain ⟨s, hrun, hfacts⟩ := (Option.any_eq_true _ _).mp hend
  simp only [Bool.and_eq_true, beq_iff_eq] at hfacts
  exact ⟨s, hrun, hfacts.1, hfacts.2, acceptances_stay_orderly 16 0 rotation s hrun⟩

end Vingilot.Push.Accept
