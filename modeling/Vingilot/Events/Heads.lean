import Vingilot.Events.Effects
import Vingilot.Lib.Serial

/-!
# The head of an address

The replacements of one address take the same lock first, so they run one after the other. Each
leaves the newest event it has seen as the only live row.
-/

namespace Vingilot.Events

open Machine Transactions

/-! ## One replacement alone -/

variable {error : DbError} {key : EventKey}

section Alone

variable {χ : Type} {plan : χ → List Sql} {db : Db} {r : Replacement} {now : Int}
  {v v' : Vars} {ws ws' : List Write}

theorem retired_rows (w : Where) :
    ((db.find w).map Prod.fst).filterMap (fun key =>
      ((db.events.get? key).filter (w.has key)).map fun row => (key, row)) = db.find w := by
  rw [List.filterMap_map]
  refine (List.filterMap_congr ?_).trans List.filterMap_some
  rintro ⟨key, row⟩ hmem
  obtain ⟨hget, hhas⟩ := mem_find.mp hmem
  simp [hget, hhas]

theorem alone_readWatermark (plan : χ → List Sql) (db : Db) (now : Int) {v : Vars}
    (hv : v.watermark = none) (ws : List Write) (c : Option Coordinate) :
    alone (store plan).system db ((c.toList.map Sql.readWatermark).map ((store plan).statement now))
        v ws =
      .ok ({ v with watermark := c.bind (view (store plan).system db ws).watermarks.get? }, ws) := by
  cases c with
  | none =>
    obtain ⟨existing, watermark, found, skipped, wasInserted, deleted, members, snapshot⟩ := v
    cases hv
    rfl
  | some c => simp [alone, Planned.statement, store, Sql.exec]

theorem alone_upsertWatermark (plan : χ → List Sql) (db : Db) (now : Int) (v : Vars)
    (ws : List Write) (c : Option Coordinate) (stamp : Stamp) :
    alone (store plan).system db
        ((c.toList.map (Sql.upsertWatermark · stamp)).map ((store plan).statement now)) v ws =
      .ok (v, ws ++ c.toList.map (Write.watermark · stamp)) := by
  cases c with
  | none => simp [alone]
  | some c => simp [alone, Planned.statement, store, Sql.exec]

def Replacement.reads (r : Replacement) : List Sql :=
  [Sql.checkTime r.event.time, .lockAddress r.address, .readHead r.address] ++
    r.watermark.toList.map Sql.readWatermark

def Replacement.swap (r : Replacement) : List Sql :=
  [.checkStale r.event.stamp, .findRows (.address r.address) r.ifHead,
    .retireRows (.address r.address) r.superseded, .guardWatermark r.key r.row,
    .insertRow r.key r.row true]

def Replacement.readVars (r : Replacement) (db : Db) : Vars :=
  { Vars.init with existing := db.head r.address, watermark := r.watermark.bind db.watermarks.get? }

theorem Replacement.stamp_key (r : Replacement) : r.key.stamp = r.event.stamp := by
  simp only [Replacement.key, Event.key, EventKey.stamp, Event.stamp]

theorem plan_eq (r : Replacement) :
    r.plan = r.reads ++ (r.swap ++ r.watermark.toList.map (Sql.upsertWatermark · r.event.stamp)) := by
  simp [Replacement.plan, Replacement.reads, Replacement.swap]

theorem alone_reads (h : (Workflow.fromTimestamp r.event.time).isSome = true)
    (rest : List (Statement Db Lock Vars Write DbError)) :
    alone (store plan).system db (r.reads.map ((store plan).statement now) ++ rest) Vars.init [] =
      alone (store plan).system db rest (r.readVars db) [] := by
  have hcheck : ((store plan).statement now (.checkTime r.event.time)).exec Vars.init
      (view (store plan).system db []) = .ok (Vars.init, []) := by
    simp [Planned.statement, store, Sql.exec, h]
  have hlock : ((store plan).statement now (.lockAddress r.address)).exec Vars.init
      (view (store plan).system db []) = .ok (Vars.init, []) := rfl
  have hhead : ((store plan).statement now (.readHead r.address)).exec Vars.init
      (view (store plan).system db []) =
        .ok ({ Vars.init with existing := db.head r.address }, []) := rfl
  simp only [Replacement.reads, List.map_cons, List.cons_append, List.nil_append]
  rw [alone_ok hcheck, List.append_nil, alone_ok hlock, List.append_nil, alone_ok hhead,
    List.append_nil, alone_append, alone_readWatermark plan db now rfl [] r.watermark]
  rfl

theorem swap_of_plan_ok
    (h : alone (store plan).system db (r.plan.map ((store plan).statement now)) Vars.init [] =
      .ok (v, ws)) :
    ∃ ws', alone (store plan).system db (r.swap.map ((store plan).statement now))
        (r.readVars db) [] = .ok (v, ws') ∧
      ws = ws' ++ r.watermark.toList.map (Write.watermark · r.event.stamp) := by
  rw [plan_eq, List.map_append] at h
  cases htime : (Workflow.fromTimestamp r.event.time).isSome with
  | true =>
    rw [alone_reads htime, List.map_append] at h
    obtain ⟨v', ws', hswap, h⟩ := alone_append_ok.mp h
    rw [alone_upsertWatermark] at h
    cases h
    exact ⟨ws', hswap, rfl⟩
  | false =>
    obtain ⟨_, _, hcheck, -⟩ := alone_cons_ok.mp h
    simp [Planned.statement, store, Sql.exec, htime] at hcheck

theorem swap_of_plan_error
    (h : alone (store plan).system db (r.plan.map ((store plan).statement now)) Vars.init [] =
      .error error) : error = .invalidTimestamp r.event.time ∨
      alone (store plan).system db (r.swap.map ((store plan).statement now))
        (r.readVars db) [] = .error error := by
  rw [plan_eq, List.map_append] at h
  cases htime : (Workflow.fromTimestamp r.event.time).isSome with
  | true =>
    rw [alone_reads htime, List.map_append] at h
    rcases alone_append_error.mp h with hswap | ⟨v', ws', -, h⟩
    · exact .inr hswap
    · rw [alone_upsertWatermark] at h
      cases h
  | false =>
    refine .inl ?_
    have hstop : ((store plan).statement now (.checkTime r.event.time)).exec Vars.init
        (view (store plan).system db []) = .error (.invalidTimestamp r.event.time) := by
      simp [Planned.statement, store, Sql.exec, htime]
    have hall := (alone_stop hstop).symm.trans h
    cases hall
    rfl

theorem guard_writes {row : Row} (h : guardWatermark key row v db = .ok (v', ws)) :
    (∀ w ∈ ws, ∃ c ∈ triggerCoordinate key row, w = .watermark c key.stamp) ∧
      (v'.skipped = true → ∃ c ∈ triggerCoordinate key row,
        db.watermarks.get? c = some key.stamp) := by
  unfold guardWatermark at h
  split at h
  · cases h
    exact ⟨by simp, by simp⟩
  · rename_i c hc
    split at h
    · cases h
      exact ⟨by simp [hc], by simp⟩
    · rename_i accepted hget
      split_ifs at h with hlt heq
      · cases h
        exact ⟨by simp [hc], by simp⟩
      · cases h
        exact ⟨by simp, fun _ => ⟨c, hc, by rw [hget, heq]⟩⟩

theorem guard_error {row : Row} (h : guardWatermark key row v db = .error error) :
    error = staleNipRs := by
  unfold guardWatermark at h
  split at h
  · cases h
  · split at h
    · cases h
    · split_ifs at h
      cases h
      rfl

def Replacement.retired (r : Replacement) (db : Db) (now : Int) : List Write :=
  (db.find (.address r.address)).map fun x => .event x.1 (r.superseded.apply x.2 now)

theorem alone_retire (plan : χ → List Sql) (db : Db) (r : Replacement) (now : Int)
    (rest : List (Statement Db Lock Vars Write DbError)) :
    ∃ v', alone (store plan).system db
        ((store plan).statement now (.findRows (.address r.address) r.ifHead) ::
          (store plan).statement now (.retireRows (.address r.address) r.superseded) :: rest)
        (r.readVars db) [] =
      alone (store plan).system db rest v' (r.retired db now) := by
  have hrows : (if (r.ifHead && (r.readVars db).existing.isNone) = true then []
      else (db.find (.address r.address)).map Prod.fst).filterMap (fun key =>
        ((db.events.get? key).filter ((Where.address r.address).has key)).map
          fun row => (key, row)) = db.find (.address r.address) := by
    split_ifs with hskip
    · simp only [Bool.and_eq_true, Option.isNone_iff_eq_none] at hskip
      rw [head_none hskip.2]
      rfl
    · exact retired_rows _
  obtain ⟨v₁, hfound, hfind⟩ : ∃ v₁ : Vars, v₁.found =
      (if (r.ifHead && (r.readVars db).existing.isNone) = true then []
        else (db.find (.address r.address)).map Prod.fst) ∧
      ((store plan).statement now (.findRows (.address r.address) r.ifHead)).exec (r.readVars db)
        (view (store plan).system db []) = .ok (v₁, []) := ⟨_, rfl, rfl⟩
  obtain ⟨v₂, hretire⟩ : ∃ v₂ : Vars,
      ((store plan).statement now (.retireRows (.address r.address) r.superseded)).exec v₁
        (view (store plan).system db []) = .ok (v₂, r.retired db now) := by
    refine ⟨{ v₁ with deleted := !(db.find (.address r.address)).isEmpty }, ?_⟩
    simp only [Planned.statement, store, Sql.exec, view, List.foldl_nil]
    rw [hfound, hrows]
    rfl
  exact ⟨v₂, (alone_ok hfind).trans (alone_ok hretire)⟩

theorem swap_ok (h : alone (store plan).system db (r.swap.map ((store plan).statement now))
      (r.readVars db) [] = .ok (v, ws)) :
    (∀ accepted ∈ db.head r.address, accepted < r.event.stamp) ∧
      ∃ v₁ v₂ marks, guardWatermark r.key r.row v₁
          (view (store plan).system db (r.retired db now)) = .ok (v₂, marks) ∧
        v.wasInserted = true ∧ ws = r.retired db now ++ marks ++ [Write.inserted r.key r.row] := by
  obtain ⟨v₀, ws₀, hstale, h⟩ := alone_cons_ok.mp h
  simp only [Planned.statement, store, Sql.exec] at hstale
  split_ifs at hstale with hnew
  cases hstale
  have hnewer : ∀ accepted ∈ db.head r.address, accepted < r.event.stamp := by
    intro accepted haccepted
    simp only [List.any_append, Bool.or_eq_true, not_or, List.any_eq_true, not_exists, not_and,
      dominated_eq_true, not_le] at hnew
    exact hnew.1 accepted (by simpa [Replacement.readVars] using haccepted)
  refine ⟨hnewer, ?_⟩
  obtain ⟨v₁, hretire⟩ := alone_retire plan db r now
    [(store plan).statement now (.guardWatermark r.key r.row),
      (store plan).statement now (.insertRow r.key r.row true)]
  rw [List.append_nil] at h
  have h := hretire.symm.trans h
  obtain ⟨v₂, marks, hguard, h⟩ := alone_cons_ok.mp h
  obtain ⟨v₃, ws₃, hinsert, h⟩ := alone_cons_ok.mp h
  cases h
  simp only [Planned.statement, store, Sql.exec] at hinsert
  split_ifs at hinsert
  cases hinsert
  exact ⟨v₁, v₂, marks, hguard, rfl, rfl⟩

theorem watermarks_retired (c : Coordinate) :
    (view (store plan).system db (r.retired db now)).watermarks.get? c =
      db.watermarks.get? c := by
  refine (watermarkRow plan c).read_spared ?_
  intro w hw heq
  obtain ⟨x, -, rfl⟩ := List.mem_map.mp hw
  cases heq

theorem stored_of_retired
    (h : ((view (store plan).system db (r.retired db now)).events.get? key).isSome = true) :
    (db.events.get? key).isSome = true := by
  by_cases hlive : ∃ row, (key, row) ∈ db.find (.address r.address)
  · obtain ⟨row, hmem⟩ := hlive
    rw [(mem_find.mp hmem).1]
    rfl
  · unfold Replacement.retired at h
    rw [events_not_retired] at h
    · exact h
    · rintro ⟨key', row⟩ hx rfl
      exact hlive ⟨row, hx⟩

theorem stored_of_swap {marks : List Write}
    (hmarks : ∀ w ∈ marks, ∃ c ∈ triggerCoordinate r.key r.row, w = .watermark c r.key.stamp)
    (h : ((view (store plan).system db
      (r.retired db now ++ marks)).events.get? key).isSome = true) :
    (db.events.get? key).isSome = true := by
  have hview : (view (store plan).system db (r.retired db now ++ marks)).events.get? key =
      (view (store plan).system db (r.retired db now)).events.get? key := by
    unfold view
    rw [List.foldl_append]
    refine (eventRow plan key).read_spared ?_
    intro w hw heq
    obtain ⟨c, -, rfl⟩ := hmarks w hw
    cases heq
  rw [hview] at h
  exact stored_of_retired h

theorem swap_error (h : alone (store plan).system db (r.swap.map ((store plan).statement now))
      (r.readVars db) [] = .error .notInserted) :
    (∃ accepted ∈ db.head r.address, r.event.stamp ≤ accepted) ∨
      (∃ c, (c ∈ r.watermark ∨ c ∈ triggerCoordinate r.key r.row) ∧
        ∃ accepted ∈ db.watermarks.get? c, r.event.stamp ≤ accepted) ∨
      (db.events.get? r.key).isSome = true := by
  rcases alone_cons_error.mp h with hstale | ⟨v₀, ws₀, hstale, h⟩
  · simp only [Planned.statement, store, Sql.exec] at hstale
    split_ifs at hstale with hold
    simp only [List.any_append, Bool.or_eq_true, List.any_eq_true, dominated_eq_true,
      Option.mem_toList] at hold
    rcases hold with ⟨accepted, haccepted, hle⟩ | ⟨accepted, haccepted, hle⟩
    · exact .inl ⟨accepted, haccepted, hle⟩
    · obtain ⟨c, hc, hget⟩ := Option.bind_eq_some_iff.mp haccepted
      exact .inr (.inl ⟨c, .inl hc, accepted, hget, hle⟩)
  · simp only [Planned.statement, store, Sql.exec] at hstale
    split_ifs at hstale
    cases hstale
    obtain ⟨v₁, hretire⟩ := alone_retire plan db r now
      [(store plan).statement now (.guardWatermark r.key r.row),
        (store plan).statement now (.insertRow r.key r.row true)]
    rw [List.append_nil] at h
    have h := hretire.symm.trans h
    rcases alone_cons_error.mp h with hguard | ⟨v₂, marks, hguard, h⟩
    · cases guard_error hguard
    · obtain ⟨hmarks, hskipped⟩ := guard_writes hguard
      rcases alone_cons_error.mp h with hinsert | ⟨v₃, ws₃, -, h⟩
      · simp only [Planned.statement, store, Sql.exec] at hinsert
        split_ifs at hinsert with hconflict
        rw [Bool.or_eq_true] at hconflict
        rcases hconflict with hskip | hstored
        · obtain ⟨c, hc, hget⟩ := hskipped hskip
          rw [watermarks_retired, r.stamp_key] at hget
          exact .inr (.inl ⟨c, .inr hc, r.event.stamp, hget, le_refl _⟩)
        · exact .inr (.inr (stored_of_swap hmarks hstored))
      · cases h

def Swaps (r : Replacement) (db : Db) (now : Int) (ws : List Write) : Prop :=
  ∃ marks marks', ws = r.retired db now ++ marks ++ [Write.inserted r.key r.row] ++ marks' ∧
    ∀ w ∈ marks ++ marks', ∃ c, (c ∈ r.watermark ∨ c ∈ triggerCoordinate r.key r.row) ∧
      w = .watermark c r.event.stamp

theorem replaced_of_plan_ok
    (h : alone (store plan).system db (r.plan.map ((store plan).statement now)) Vars.init [] =
      .ok (v, ws)) :
    (∀ accepted ∈ db.head r.address, accepted < r.event.stamp) ∧ v.wasInserted = true ∧
      Swaps r db now ws := by
  obtain ⟨ws', hswap, rfl⟩ := swap_of_plan_ok h
  obtain ⟨hnewer, v₁, v₂, marks, hguard, hinserted, rfl⟩ := swap_ok hswap
  refine ⟨hnewer, hinserted, marks, _, rfl, ?_⟩
  intro w hw
  rcases List.mem_append.mp hw with hw | hw
  · obtain ⟨c, hc, rfl⟩ := (guard_writes hguard).1 w hw
    exact ⟨c, .inr hc, by rw [r.stamp_key]⟩
  · obtain ⟨c, hc, rfl⟩ := List.mem_map.mp hw
    exact ⟨c, .inl (by simpa using hc), rfl⟩

theorem refused_of_plan_error
    (h : alone (store plan).system db (r.plan.map ((store plan).statement now)) Vars.init [] =
      .error .notInserted) :
    (∃ accepted ∈ db.head r.address, r.event.stamp ≤ accepted) ∨
      (∃ c, (c ∈ r.watermark ∨ c ∈ triggerCoordinate r.key r.row) ∧
        ∃ accepted ∈ db.watermarks.get? c, r.event.stamp ≤ accepted) ∨
      (db.events.get? r.key).isSome = true := by
  rcases swap_of_plan_error h with htime | hswap
  · cases htime
  · exact swap_error hswap

/-! ### The rows after a replacement -/

theorem Swaps.events (h : Swaps r db now ws) (key : EventKey) :
    (view (store plan).system db ws).events.get? key =
      if key = r.key then some r.row
      else (view (store plan).system db (r.retired db now)).events.get? key := by
  obtain ⟨marks, marks', rfl, hmarks⟩ := h
  have hspared : ∀ ws ⊆ marks ++ marks', ∀ w ∈ ws, w.lock ≠ .event key := by
    intro ws hsub w hw heq
    obtain ⟨c, -, rfl⟩ := hmarks w (hsub hw)
    cases heq
  unfold view
  rw [List.foldl_append, List.foldl_append, List.foldl_append]
  refine ((eventRow plan key).read_spared (hspared marks' (List.subset_append_right ..))).trans ?_
  refine ((eventRow plan key).read_apply _ (.inserted r.key r.row)).trans ?_
  simp only [eventRow]
  split_ifs with hkey hkey' hkey'
  · rfl
  · exact absurd hkey.symm hkey'
  · exact absurd hkey'.symm hkey
  · exact (eventRow plan key).read_spared (hspared marks (List.subset_append_left ..))

theorem Swaps.live (h : Swaps r db now ws) (hat : r.address.has r.key r.row = true)
    (key : EventKey) (row : Row) :
    LiveAt (view (store plan).system db ws) r.address key row ↔ key = r.key ∧ row = r.row := by
  unfold LiveAt
  rw [h.events]
  constructor
  · rintro ⟨hget, hhas⟩
    split_ifs at hget with hkey
    · cases hget
      exact ⟨hkey, rfl⟩
    · exfalso
      by_cases hlive : ∃ row, (key, row) ∈ db.find (.address r.address)
      · obtain ⟨old, hmem⟩ := hlive
        have hold := (mem_find.mp hmem).1
        unfold Replacement.retired at hget
        rw [events_retired hmem ?_] at hget
        · exact retired_not_live hget hhas
        · intro row' hrow'
          rw [(mem_find.mp hrow').1] at hold
          cases hold
          rfl
      · unfold Replacement.retired at hget
        rw [events_not_retired] at hget
        · exact hlive ⟨row, mem_find.mpr ⟨hget, hhas⟩⟩
        · rintro ⟨key', row'⟩ hx rfl
          exact hlive ⟨row', hx⟩
  · rintro ⟨rfl, rfl⟩
    rw [if_pos rfl]
    exact ⟨rfl, by rw [Where.has, hat]; rfl⟩

theorem Swaps.stored (h : Swaps r db now ws)
    (hstored : ((view (store plan).system db ws).events.get? key).isSome = true) :
    key = r.key ∨ (db.events.get? key).isSome = true := by
  rw [h.events] at hstored
  split_ifs at hstored with hkey
  · exact .inl hkey
  · exact .inr (stored_of_retired hstored)

theorem Swaps.watermark (h : Swaps r db now ws) (c : Coordinate) :
    (view (store plan).system db ws).watermarks.get? c = db.watermarks.get? c ∨
      (view (store plan).system db ws).watermarks.get? c = some r.event.stamp := by
  obtain ⟨marks, marks', rfl, hmarks⟩ := h
  rcases watermark_view plan db _ c with hsame | ⟨stamp, hmem, hread⟩
  · exact .inl hsame
  · refine .inr (hread.trans ?_)
    have hmark : .watermark c stamp ∈ marks ++ marks' := by
      simpa [Replacement.retired] using hmem
    obtain ⟨c', -, heq⟩ := hmarks _ hmark
    cases heq
    rfl

end Alone

/-! ## Submissions to one address -/

structure Submission (a : Address) (start : Db) where
  event : Event
  /-- Stored on the row. It is part of the address of the other replacement only. -/
  channelId : Option Uuid
  kind_eq : event.kind = a.kind
  pubkey_eq : event.pubkey = a.pubkey
  fresh : start.events.get? (event.key a.communityId) = none

variable {a : Address} {start : Db}

def Submission.replacement (x : Submission a start) : Replacement :=
  match a.scope with
  | .channel channelId => replaceAddressableEvent a.communityId x.event channelId
  | .dTag dTag => replaceParameterizedEvent a.communityId x.event dTag x.channelId

def Submission.plan (x : Submission a start) : List Sql := x.replacement.plan

def addressStore (a : Address) (start : Db) :
    Planned (Submission a start) Sql Db Lock Vars Write DbError :=
  store Submission.plan

@[simp]
theorem Submission.event_eq (x : Submission a start) : x.replacement.event = x.event := by
  unfold Submission.replacement
  split <;> rfl

@[simp]
theorem Submission.address_eq (x : Submission a start) : x.replacement.address = a := by
  obtain ⟨communityId, kind, pubkey, scope⟩ := a
  have hkind : x.event.kind = kind := x.kind_eq
  have hpubkey : x.event.pubkey = pubkey := x.pubkey_eq
  unfold Submission.replacement
  cases scope with
  | channel id => simp [replaceAddressableEvent, hkind, hpubkey]
  | dTag value => simp [replaceParameterizedEvent, Coordinate.address, hkind, hpubkey]

theorem Submission.has_row (x : Submission a start) :
    x.replacement.address.has x.replacement.key x.replacement.row = true := by
  unfold Submission.replacement
  cases hscope : a.scope <;>
    simp [Address.has, Replacement.key, Replacement.row, Event.key, replaceAddressableEvent,
      replaceParameterizedEvent, Coordinate.address]

def Address.marks (a : Address) (c : Coordinate) : Prop :=
  c.communityId = a.communityId ∧ c.kind = a.kind ∧ c.pubkey = a.pubkey ∧
    ∀ d, a.scope = .dTag d → c.dTag = d

theorem Submission.marks (x : Submission a start) {c : Coordinate}
    (h : c ∈ x.replacement.watermark ∨
      c ∈ triggerCoordinate x.replacement.key x.replacement.row) : a.marks c := by
  have hkind := x.kind_eq
  have hpubkey := x.pubkey_eq
  unfold Submission.replacement at h
  cases hscope : a.scope with
  | channel id =>
    simp only [hscope, replaceAddressableEvent, Replacement.key, Replacement.row] at h
    rcases h with h | h
    · cases h
    · simp only [triggerCoordinate] at h
      split_ifs at h
      · obtain ⟨d, -, rfl⟩ := Option.map_eq_some_iff.mp h
        exact ⟨rfl, hkind, hpubkey, by simp [hscope]⟩
      · cases h
  | dTag value =>
    simp only [hscope, replaceParameterizedEvent, Replacement.key, Replacement.row] at h
    rcases h with h | h
    · split_ifs at h
      · cases h
        exact ⟨rfl, hkind, hpubkey, by simp [hscope]⟩
      · cases h
    · simp only [triggerCoordinate] at h
      split_ifs at h
      · cases h
        exact ⟨rfl, hkind, hpubkey, by simp [hscope]⟩
      · cases h

/-! ## What every submission keeps -/

abbrev AddressPublic (a : Address) (start : Db) := Public (Submission a start) Db Vars DbError

def Submitted (p : AddressPublic a start) (x : Submission a start) : Prop :=
  (∃ v, (x, .ok v) ∈ p.answers) ∨ (x, .error .notInserted) ∈ p.answers

def Reached (db : Db) (a : Address) (stamp : Stamp) : Prop :=
  ∃ key row, LiveAt db a key row ∧ stamp ≤ key.stamp

structure Settled (a : Address) (start : Db) (p : AddressPublic a start) : Prop where
  one : ∀ key row key' row', LiveAt p.db a key row → LiveAt p.db a key' row' → key = key'
  greatest : ∀ x, Submitted p x → Reached p.db a x.event.stamp
  live : ∀ key row, LiveAt p.db a key row →
    ∃ x, Submitted p x ∧ key = x.replacement.key ∧ row = x.replacement.row
  inserted : ∀ x v, (x, .ok v) ∈ p.answers → v.wasInserted = true

structure Bounded (a : Address) (start : Db) (p : AddressPublic a start) : Prop where
  stored : ∀ x : Submission a start, (p.db.events.get? x.replacement.key).isSome = true →
    Reached p.db a x.event.stamp
  marks : ∀ c stamp, a.marks c → p.db.watermarks.get? c = some stamp → Reached p.db a stamp

structure Untouched (a : Address) (start : Db) : Prop where
  live : ∀ key row, ¬ LiveAt start a key row
  marks : ∀ c, a.marks c → start.watermarks.get? c = none

variable {stamp : Stamp}

theorem reached_of_head {db : Db} {top : Stamp} (h : db.head a = some top) (hle : stamp ≤ top) :
    Reached db a stamp := by
  obtain ⟨key, row, hlive, rfl⟩ := exists_head h
  exact ⟨key, row, hlive, hle⟩

theorem lt_of_reached {db : Db} {incoming : Stamp} (h : Reached db a stamp)
    (hnewer : ∀ top ∈ db.head a, top < incoming) : stamp < incoming := by
  obtain ⟨key, row, hlive, hle⟩ := h
  cases hhead : db.head a with
  | none =>
    have hmem := mem_find.mpr hlive
    rw [head_none hhead] at hmem
    cases hmem
  | some top => exact lt_of_le_of_lt (hle.trans (le_head hhead hlive)) (hnewer top hhead)

variable {t : Tx (Submission a start) Db Lock Vars Write DbError}

section Rule

variable {p : AddressPublic a start}

theorem settled_refuse (x : Submission a start) (h : Settled a start p)
    (hreached : error = .notInserted → Reached p.db a x.event.stamp) :
    Settled a start (p.refuse x error) where
  one := h.one
  greatest y hy := by
    rcases hy with ⟨v, hv⟩ | hy
    · rcases List.mem_append.mp hv with hv | hv
      · exact h.greatest y (.inl ⟨v, hv⟩)
      · cases List.mem_singleton.mp hv
    · rcases List.mem_append.mp hy with hy | hy
      · exact h.greatest y (.inr hy)
      · cases List.mem_singleton.mp hy
        exact hreached rfl
  live key row hlive := by
    obtain ⟨y, hy, hkey, hrow⟩ := h.live key row hlive
    refine ⟨y, ?_, hkey, hrow⟩
    rcases hy with ⟨v, hv⟩ | hy
    · exact .inl ⟨v, List.mem_append_left _ hv⟩
    · exact .inr (List.mem_append_left _ hy)
  inserted y v hv := by
    rcases List.mem_append.mp hv with hv | hv
    · exact h.inserted y v hv
    · cases List.mem_singleton.mp hv

theorem reached_of_refused (hbounded : Bounded a start p) (x : Submission a start) {now : Int}
    (h : (addressStore a start).outcome p.db x now = .error .notInserted) :
    Reached p.db a x.event.stamp := by
  have hrefused := refused_of_plan_error h
  rw [x.address_eq, x.event_eq] at hrefused
  rcases hrefused with ⟨top, htop, hle⟩ | ⟨c, hc, accepted, haccepted, hle⟩ | hstored
  · exact reached_of_head htop hle
  · obtain ⟨key, row, hlive, hle'⟩ := hbounded.marks c accepted (x.marks hc) haccepted
    exact ⟨key, row, hlive, hle.trans hle'⟩
  · exact hbounded.stored x hstored

theorem committed_live (h : Swaps t.call.replacement p.db t.now t.writes) (key : EventKey)
    (row : Row) : LiveAt (p.commit (addressStore a start).system t).db a key row ↔
      key = t.call.replacement.key ∧ row = t.call.replacement.row := by
  have hlive : LiveAt (view (addressStore a start).system p.db t.writes)
      t.call.replacement.address key row ↔
      key = t.call.replacement.key ∧ row = t.call.replacement.row := h.live t.call.has_row key row
  rw [t.call.address_eq] at hlive
  exact hlive

theorem reached_commit (h : Swaps t.call.replacement p.db t.now t.writes)
    (hle : stamp ≤ t.call.event.stamp) :
    Reached (p.commit (addressStore a start).system t).db a stamp := by
  refine ⟨_, _, (committed_live h _ _).mpr ⟨rfl, rfl⟩, ?_⟩
  rw [Replacement.stamp_key, t.call.event_eq]
  exact hle

theorem settled_commit (hsettled : Settled a start p)
    (houtcome : (addressStore a start).outcome p.db t.call t.now = .ok (t.vars, t.writes)) :
    Settled a start (p.commit (addressStore a start).system t) := by
  obtain ⟨hnewer, hinserted, hswaps⟩ := replaced_of_plan_ok houtcome
  rw [t.call.address_eq, t.call.event_eq] at hnewer
  have hanswer : Submitted (p.commit (addressStore a start).system t) t.call :=
    .inl ⟨t.vars, List.mem_append_right _ List.mem_cons_self⟩
  refine ⟨?_, ?_, ?_, ?_⟩
  · intro key row key' row' hlive hlive'
    exact ((committed_live hswaps _ _).mp hlive).1.trans ((committed_live hswaps _ _).mp hlive').1.symm
  · intro x hx
    refine reached_commit hswaps ?_
    have hold (h : Submitted p x) : x.event.stamp ≤ t.call.event.stamp :=
      (lt_of_reached (hsettled.greatest x h) hnewer).le
    rcases hx with ⟨v, hv⟩ | hx
    · rcases List.mem_append.mp hv with hv | hv
      · exact hold (.inl ⟨v, hv⟩)
      · cases List.mem_singleton.mp hv
        exact le_refl _
    · rcases List.mem_append.mp hx with hx | hx
      · exact hold (.inr hx)
      · cases List.mem_singleton.mp hx
  · intro key row hlive
    exact ⟨t.call, hanswer, (committed_live hswaps key row).mp hlive⟩
  · intro x v hv
    rcases List.mem_append.mp hv with hv | hv
    · exact hsettled.inserted x v hv
    · cases List.mem_singleton.mp hv
      exact hinserted

theorem bounded_commit (hbounded : Bounded a start p)
    (houtcome : (addressStore a start).outcome p.db t.call t.now = .ok (t.vars, t.writes)) :
    Bounded a start (p.commit (addressStore a start).system t) := by
  obtain ⟨hnewer, -, hswaps⟩ := replaced_of_plan_ok houtcome
  rw [t.call.address_eq, t.call.event_eq] at hnewer
  refine ⟨?_, ?_⟩
  · intro x hstored
    refine reached_commit hswaps ?_
    rcases hswaps.stored hstored with hkey | hold
    · have hstamp := congrArg EventKey.stamp hkey
      rw [Replacement.stamp_key, Replacement.stamp_key, x.event_eq, t.call.event_eq] at hstamp
      exact hstamp.le
    · exact (lt_of_reached (hbounded.stored x hold) hnewer).le
  · intro c stamp hmarks hget
    refine reached_commit hswaps ?_
    rcases hswaps.watermark c with hsame | hnew
    · rw [Public.commit, addressStore, hsame] at hget
      exact (lt_of_reached (hbounded.marks c stamp hmarks hget) hnewer).le
    · rw [Public.commit, addressStore, hnew, t.call.event_eq, Option.some.injEq] at hget
      exact hget.ge

end Rule

theorem address_rule (a : Address) (start : Db) :
    SerialRule (addressStore a start) (· ≠ .notInserted)
      (fun p => Settled a start p ∧ Bounded a start p) where
  advance p micros h :=
    ⟨⟨h.1.one, h.1.greatest, h.1.live, h.1.inserted⟩, ⟨h.2.stored, h.2.marks⟩⟩
  fail p x error h hother :=
    ⟨settled_refuse x h.1 fun heq => absurd heq hother, ⟨h.2.stored, h.2.marks⟩⟩
  refuse p x now error h _ houtcome := by
    refine ⟨settled_refuse x h.1 ?_, ⟨h.2.stored, h.2.marks⟩⟩
    rintro rfl
    exact reached_of_refused h.2 x houtcome
  commit p t h _ houtcome := ⟨settled_commit h.1 houtcome, bounded_commit h.2 houtcome⟩

theorem address_locksFirst (a : Address) (start : Db) :
    LocksFirst (addressStore a start) (.advisory a.lockKey) := by
  intro x
  refine ⟨[.checkTime x.replacement.event.time], .lockAddress x.replacement.address,
    (x.replacement.plan).drop 2, ?_, ?_, ?_⟩
  · simp [addressStore, store, Submission.plan, Replacement.plan]
  · intro j hj now vars s s'
    simp only [List.cons_append, List.nil_append, List.mem_cons, List.not_mem_nil, or_false] at hj
    rcases hj with rfl | rfl <;> rfl
  · intro now vars s
    simp [addressStore, store, Sql.locks]

/-- Whatever the order in which the events of an address are submitted, and however their
statements interleave: at most one row is live, it is the newest of the events whose calls have
returned, and a call that returns `was_inserted = false` has changed nothing. -/
theorem replaceable_head_converges {a : Address} {start : Db} {clock : Int}
    {as : List (Action (Submission a start) DbError)}
    {s : World (Submission a start) Db Lock Vars Write DbError} (hstart : Untouched a start)
    (hfails : ∀ action ∈ as, FailsOnly (· ≠ .notInserted) action)
    (hrun : run (step (addressStore a start).system) (World.init clock start) as = some s) :
    Settled a start s.pub ∧
      ∀ action s' x, step (addressStore a start).system s action = some s' →
        s'.pub.answers = s.pub.answers ++ [(x, Except.error DbError.notInserted)] →
          s'.pub.db = s.pub.db := by
  have hinit : Settled a start ⟨clock, start, []⟩ ∧ Bounded a start ⟨clock, start, []⟩ := by
    refine ⟨⟨?_, ?_, ?_, ?_⟩, ⟨?_, ?_⟩⟩
    · intro key row key' row' hlive
      exact absurd hlive (hstart.live key row)
    · rintro x (⟨v, hv⟩ | hx)
      · cases hv
      · cases hx
    · intro key row hlive
      exact absurd hlive (hstart.live key row)
    · intro x v hv
      cases hv
    · intro x hstored
      have hfresh := x.fresh
      have hkey : x.replacement.key = x.event.key a.communityId := by
        unfold Replacement.key
        rw [x.event_eq, x.address_eq]
      rw [← hkey] at hfresh
      rw [hfresh] at hstored
      cases hstored
    · intro c stamp hmarks hget
      rw [hstart.marks c hmarks] at hget
      cases hget
  refine ⟨(run_serial (address_rule a start) (address_locksFirst a start) hinit hfails hrun).1, ?_⟩
  intro action s' x hstep hanswer
  refine step_db hstep ?_
  rintro tx rfl
  obtain ⟨t, -, -, hpub⟩ := step_commit hstep
  rw [hpub, Public.commit, List.append_cancel_left_eq] at hanswer
  cases hanswer

/-! ## A run -/

def readStateAddress : Address := ⟨1, kindReadState, 7, .dTag readStateTag⟩

def submitReadState (id : EventId) (createdAt : Nat) (h : createdAt < 2 ^ 63) :
    Submission readStateAddress .empty :=
  ⟨readState id createdAt h, none, rfl, rfl, rfl⟩

def readStateRun : List (Action (Submission readStateAddress .empty) DbError) :=
  [Action.begin (submitReadState 3 100 time100_lt), .begin (submitReadState 2 100 time100_lt),
    .exec 0, .exec 1] ++ List.replicate 9 (Action.exec 0) ++ [Action.commit 0] ++
    List.replicate 9 (Action.exec 1) ++
    [Action.commit 1, .begin (submitReadState 3 100 time100_lt)] ++ List.replicate 5 (Action.exec 2)

theorem replaceable_head_converges_on_read_state :
    ∃ s, run (step (addressStore readStateAddress .empty).system) (World.init 0 .empty)
        readStateRun = some s ∧
      s.pub.db.head readStateAddress = some ⟨100, 2⟩ ∧ s.pub.answers.length = 3 ∧
      Settled readStateAddress .empty s.pub := by
  have hrun : ((run (step (addressStore readStateAddress .empty).system) (World.init 0 .empty)
      readStateRun).any fun s => s.pub.db.head readStateAddress == some ⟨100, 2⟩ &&
        s.pub.answers.length == 3) = true := by
    decide +kernel
  have hstart : Untouched readStateAddress .empty := by
    refine ⟨?_, fun c _ => rfl⟩
    rintro key row ⟨hget, -⟩
    cases hget
  have hfails : ∀ action ∈ readStateRun, FailsOnly (· ≠ .notInserted) action := by
    intro action haction
    simp only [readStateRun, List.mem_append, List.mem_cons, List.mem_replicate,
      List.not_mem_nil, or_false] at haction
    rcases haction with ((((( rfl | rfl | rfl | rfl) | ⟨-, rfl⟩) | rfl) | ⟨-, rfl⟩) |
      rfl | rfl) | ⟨-, rfl⟩ <;> trivial
  obtain ⟨s, hs, hfacts⟩ := (Option.any_eq_true _ _).mp hrun
  simp only [Bool.and_eq_true, beq_iff_eq] at hfacts
  exact ⟨s, hs, hfacts.1, hfacts.2, (replaceable_head_converges hstart hfails hs).1⟩

end Vingilot.Events
