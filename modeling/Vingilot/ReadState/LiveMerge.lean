import Vingilot.ReadState.Convergence

/-!
# Fetched and live events

An event that is fetched goes through `mergeEvents`, one that comes in live through
`handleIncomingEvent`. Both raise the same timestamps. A fetched event of another client makes only
those contexts publishable that it advances, a live one all of its contexts.
-/

namespace Vingilot.ReadState

open Js Machine

variable {m n : Manager} {entries : List (ContextId × Number)} {createdAt : Int}

def Advances (m : Manager) (entry : ContextId × Number) : Prop :=
  (Manager.resolveRemoteContextTimestamp ((m.effectiveState.get? entry.1).getD 0) entry.2).2 =
    .advanced

/-! ## The loops -/

theorem foldl_effectiveState_congr (h : m.effectiveState = n.effectiveState) :
    (entries.foldl (Manager.mergeContext createdAt) m).effectiveState =
      (entries.foldl (Manager.receiveContext createdAt) n).effectiveState := by
  induction entries generalizing m n with
  | nil => exact h
  | cons entry entries ih =>
    apply ih
    rw [mergeContext_effectiveState, receiveContext_effectiveState]
    simp only [Manager.applyRemoteContextTimestamp, h]

theorem mem_mergeContext {entry : ContextId × Number} {c : ContextId} :
    c ∈ (Manager.mergeContext createdAt m entry).publishableContextIds ↔
      c ∈ m.publishableContextIds ∨ c = entry.1 ∧ Advances m entry := by
  unfold Manager.mergeContext Advances
  simp only [Manager.applyRemoteContextTimestamp]
  by_cases hadvanced : (Manager.resolveRemoteContextTimestamp
    ((m.effectiveState.get? entry.1).getD 0) entry.2).2 = .advanced
  · simp [hadvanced, mem_pushNew]
  · simp [hadvanced]

theorem advances_mergeContext {entry other : ContextId × Number} (h : entry.1 ≠ other.1) :
    Advances (Manager.mergeContext createdAt m entry) other ↔ Advances m other := by
  unfold Advances
  rw [mergeContext_effectiveState]
  simp only [Manager.applyRemoteContextTimestamp]
  split_ifs with hadvanced
  · rw [Table.get?_set, if_neg (Ne.symm h)]
  · rfl

theorem mem_foldl_mergeContext (hkeys : entries.Pairwise fun x y => x.1 ≠ y.1) (c : ContextId) :
    c ∈ (entries.foldl (Manager.mergeContext createdAt) m).publishableContextIds ↔
      c ∈ m.publishableContextIds ∨ ∃ entry ∈ entries, c = entry.1 ∧ Advances m entry := by
  induction entries generalizing m with
  | nil => simp
  | cons entry entries ih =>
    obtain ⟨hentry, hkeys⟩ := List.pairwise_cons.mp hkeys
    have hrest : (∃ e ∈ entries, c = e.1 ∧ Advances (Manager.mergeContext createdAt m entry) e) ↔
        ∃ e ∈ entries, c = e.1 ∧ Advances m e := by
      refine exists_congr fun e => and_congr_right fun he => and_congr_right fun _ => ?_
      exact advances_mergeContext (hentry e he)
    rw [List.foldl_cons, ih hkeys, hrest, mem_mergeContext, List.exists_mem_cons_iff, or_assoc]

theorem mem_foldl_receiveContext (c : ContextId) :
    c ∈ (entries.foldl (Manager.receiveContext createdAt) m).publishableContextIds ↔
      c ∈ m.publishableContextIds ∨ ∃ entry ∈ entries, c = entry.1 := by
  induction entries generalizing m with
  | nil => simp
  | cons entry entries ih =>
    rw [List.foldl_cons, ih, List.exists_mem_cons_iff, ← or_assoc]
    exact or_congr_left (mem_pushNew _ _ _)

theorem foldl_mergeContext_frame :
    (entries.foldl (Manager.mergeContext createdAt) m).destroyed = m.destroyed ∧
      (entries.foldl (Manager.mergeContext createdAt) m).pubkey = m.pubkey ∧
      (entries.foldl (Manager.mergeContext createdAt) m).clientId = m.clientId := by
  induction entries generalizing m with
  | nil => exact ⟨rfl, rfl, rfl⟩
  | cons entry entries ih =>
    obtain ⟨hdestroyed, hpubkey, hclient⟩ := ih (m := Manager.mergeContext createdAt m entry)
    rw [List.foldl_cons, hdestroyed, hpubkey, hclient]
    unfold Manager.mergeContext
    simp only
    split_ifs
    · exact ⟨rfl, rfl, rfl⟩
    · exact ⟨rfl, rfl, rfl⟩

/-! ## One event -/

/-- `mergeEvents` for one event, with nothing in between. -/
def mergeEvents (m : Manager) (id : Nat) (event : RelayEvent) (opened : Option Value)
    (freshSlotId : Str) : Option Manager :=
  if m.destroyed then some m
  else
    run step m [.fetched id [event], .mergeEvent id opened, .checkEvent id opened freshSlotId,
      .finishMerge id]

theorem mem_recordOwn {call : MergeCall} {clientId : Str} {parsed : ParsedReadStateEvent}
    (hown : call.ownBlobsBySlot = ∅) (slot : Str × ReadStateBlob × Int) :
    slot ∈ (call.recordOwn clientId parsed).toList ↔ parsed.blob.clientId = clientId ∧
      slot = (parsed.dTag, parsed.blob, parsed.createdAt) := by
  obtain ⟨dTag, x⟩ := slot
  unfold MergeCall.recordOwn
  rw [hown, Table.get?_empty]
  split_ifs with hclient
  · simp only
    rw [Table.mem_toList, Table.get?_set]
    split_ifs with hslot
    · simp [hclient, hslot, eq_comm]
    · simp [Table.get?_empty, hslot]
  · simp [Table.mem_toList, Table.get?_empty, hclient]

variable {id : Nat} {event : RelayEvent} {opened : Option Value} {freshSlotId : Str}
  {own : Table Str (ReadStateBlob × Int)}

/-- The second loop changes the slot at most. -/
theorem checkEvent_spec (opened : Option Value) (freshSlotId : Str) (hdestroyed : m.destroyed = false)
    (hcall : m.merges.get? id = some ⟨[], [event], own⟩) :
    ∃ m', m.checkEvent id opened freshSlotId = some m' ∧
      m'.merges.get? id = some ⟨[], [], own⟩ ∧ m'.effectiveState = m.effectiveState ∧
      m'.publishableContextIds = m.publishableContextIds := by
  unfold Manager.checkEvent
  simp only [hcall, hdestroyed, Bool.false_eq_true, if_false]
  cases m.reads event opened with
  | none => exact ⟨_, rfl, by rw [Table.get?_set, if_pos rfl], rfl, rfl⟩
  | some parsed =>
    simp only
    split_ifs
    · exact ⟨_, rfl, by rw [Table.get?_set, if_pos rfl], rfl, rfl⟩
    · exact ⟨_, rfl, by rw [Table.get?_set, if_pos rfl], rfl, rfl⟩
    · exact ⟨_, rfl, by rw [Table.get?_set, if_pos rfl], rfl, rfl⟩

theorem finishMerge_spec (hcall : m.merges.get? id = some ⟨[], [], own⟩) :
    ∃ m', m.finishMerge id = some m' ∧ m'.effectiveState = m.effectiveState ∧
      ∀ c, c ∈ m'.publishableContextIds ↔ c ∈ m.publishableContextIds ∨
        ∃ slot ∈ own.toList, ∃ entry ∈ slot.2.1.contexts.toList, c = entry.1 := by
  unfold Manager.finishMerge
  simp only [hcall]
  split_ifs with hnone
  · refine ⟨_, rfl, rfl, fun c => ?_⟩
    rw [List.map_eq_nil_iff] at hnone
    simp [hnone]
  · refine ⟨_, rfl, rfl, fun c => ?_⟩
    have hcontext (blob : ReadStateBlob) : c ∈ blob.contexts.toList.map Prod.fst ↔
        ∃ entry ∈ blob.contexts.toList, c = entry.1 := by
      simp only [List.mem_map, eq_comm]
    simp only [mem_foldl_pushNew, List.mem_flatMap, hcontext]
    simp only [List.mem_map, exists_exists_and_eq_and]

theorem mergeEvent_spec (opened : Option Value) (hdestroyed : m.destroyed = false)
    (hcall : m.merges.get? id = some ⟨[event], [event], ∅⟩) :
    ∃ m' own, m.mergeEvent id opened = some m' ∧ m'.destroyed = false ∧
      m'.merges.get? id = some ⟨[], [event], own⟩ ∧
      match m.reads event opened with
      | none => own = ∅ ∧ m'.effectiveState = m.effectiveState ∧
          m'.publishableContextIds = m.publishableContextIds
      | some parsed =>
        own = (MergeCall.mk [event] [event] ∅).recordOwn m.clientId parsed ∧
          m'.effectiveState = (parsed.blob.contexts.toList.foldl
            (Manager.mergeContext parsed.createdAt) (m.fetchedUpTo parsed.createdAt)).effectiveState ∧
          m'.publishableContextIds = (parsed.blob.contexts.toList.foldl
            (Manager.mergeContext parsed.createdAt)
              (m.fetchedUpTo parsed.createdAt)).publishableContextIds := by
  unfold Manager.mergeEvent
  simp only [hcall]
  rw [if_neg (by rw [hdestroyed]; exact Bool.false_ne_true)]
  cases m.reads event opened with
  | none => exact ⟨_, _, rfl, hdestroyed, by rw [Table.get?_set, if_pos rfl], rfl, rfl, rfl⟩
  | some parsed =>
    obtain ⟨hframe, -, hclient⟩ := @foldl_mergeContext_frame (m.fetchedUpTo parsed.createdAt)
      parsed.blob.contexts.toList parsed.createdAt
    refine ⟨_, _, rfl, hframe.trans hdestroyed, by rw [Table.get?_set, if_pos rfl], ?_, rfl, rfl⟩
    exact congrArg (fun clientId => MergeCall.recordOwn _ clientId parsed) hclient

/-- A fetched event, read or not, with what its contexts come to. -/
theorem mergeEvents_spec (event : RelayEvent) (opened : Option Value) (freshSlotId : Str)
    (hid : m.merges.get? id = none) (hdestroyed : m.destroyed = false) :
    ∃ m', mergeEvents m id event opened freshSlotId = some m' ∧
      match m.reads event opened with
      | none => m'.effectiveState = m.effectiveState ∧
          ∀ c, c ∈ m'.publishableContextIds ↔ c ∈ m.publishableContextIds
      | some parsed =>
        m'.effectiveState = (parsed.blob.contexts.toList.foldl
            (Manager.receiveContext parsed.createdAt) (m.fetchedUpTo parsed.createdAt)).effectiveState ∧
          ∀ c, c ∈ m'.publishableContextIds ↔ c ∈ m.publishableContextIds ∨
            ∃ entry ∈ parsed.blob.contexts.toList, c = entry.1 ∧
              (parsed.blob.clientId = m.clientId ∨ Advances m entry) := by
  have hfetched : step m (.fetched id [event]) =
      some { m with merges := m.merges.set id ⟨[event], [event], ∅⟩ } := by
    simp [step, hdestroyed, hid]
  obtain ⟨m₁, own, hmerge, hdestroyed₁, hcall₁, h₁⟩ := mergeEvent_spec opened
    (show Manager.destroyed { m with merges := m.merges.set id ⟨[event], [event], ∅⟩ } = false
      from hdestroyed)
    (by rw [Table.get?_set, if_pos rfl])
  obtain ⟨m₂, hcheck, hcall₂, hstate₂, hpublishable₂⟩ :=
    checkEvent_spec opened freshSlotId hdestroyed₁ hcall₁
  obtain ⟨m₃, hfinish, hstate₃, hpublishable₃⟩ := finishMerge_spec hcall₂
  have hrun : mergeEvents m id event opened freshSlotId = some m₃ := by
    unfold mergeEvents
    rw [hdestroyed, if_neg Bool.false_ne_true]
    exact run_cons_some.mpr ⟨_, hfetched, run_cons_some.mpr ⟨_, hmerge,
      run_cons_some.mpr ⟨_, hcheck, run_cons_some.mpr ⟨_, hfinish, rfl⟩⟩⟩⟩
  refine ⟨m₃, hrun, ?_⟩
  have hreads : Manager.reads { m with merges := m.merges.set id ⟨[event], [event], ∅⟩ } event opened =
      m.reads event opened := rfl
  rw [hreads] at h₁
  cases hparsed : m.reads event opened with
  | none =>
    rw [hparsed] at h₁
    obtain ⟨rfl, hstate₁, hpublishable₁⟩ := h₁
    refine ⟨hstate₃.trans (hstate₂.trans hstate₁), fun c => ?_⟩
    rw [hpublishable₃, hpublishable₂, hpublishable₁]
    simp [Table.mem_toList, Table.get?_empty]
  | some parsed =>
    rw [hparsed] at h₁
    obtain ⟨rfl, hstate₁, hpublishable₁⟩ := h₁
    refine ⟨hstate₃.trans (hstate₂.trans (hstate₁.trans (foldl_effectiveState_congr rfl))), ?_⟩
    intro c
    rw [hpublishable₃, hpublishable₂, hpublishable₁, mem_foldl_mergeContext (Table.nodup_keys _)]
    constructor
    · rintro ((h | ⟨entry, hentry, hc, hadvances⟩) | ⟨slot, hslot, entry, hentry, hc⟩)
      · exact Or.inl h
      · exact Or.inr ⟨entry, hentry, hc, Or.inr hadvances⟩
      · obtain ⟨hclient, rfl⟩ := (mem_recordOwn rfl slot).mp hslot
        exact Or.inr ⟨entry, hentry, hc, Or.inl hclient⟩
    · rintro (h | ⟨entry, hentry, hc, hclient | hadvances⟩)
      · exact Or.inl (Or.inl h)
      · exact Or.inr ⟨_, (mem_recordOwn rfl _).mpr ⟨hclient, rfl⟩, entry, hentry, hc⟩
      · exact Or.inl (Or.inr ⟨entry, hentry, hc, hadvances⟩)

/-- The two paths end in one state for the events that cannot be read, for those of this client, and
for those whose contexts are all publishable already or advance. -/
theorem mergeEvents_agrees_iff (m : Manager) (id : Nat) (event : RelayEvent) (opened : Option Value)
    (freshSlotId : Str) (hid : m.merges.get? id = none) :
    (∃ m', mergeEvents m id event opened freshSlotId = some m' ∧
        m'.effectiveState = (m.handleIncomingEvent event opened).effectiveState ∧
        ∀ c, c ∈ m'.publishableContextIds ↔
          c ∈ (m.handleIncomingEvent event opened).publishableContextIds) ↔
      ∀ parsed, m.reads event opened = some parsed → parsed.blob.clientId = m.clientId ∨
        ∀ entry ∈ parsed.blob.contexts.toList,
          entry.1 ∈ m.publishableContextIds ∨ Advances m entry := by
  have hlive : m.handleIncomingEvent event opened =
      match m.reads event opened with
      | none => m
      | some parsed => parsed.blob.contexts.toList.foldl (Manager.receiveContext parsed.createdAt)
          (m.fetchedUpTo parsed.createdAt) := by
    unfold Manager.handleIncomingEvent
    split_ifs with hout
    · have hreads : m.reads event opened = none := by
        unfold Manager.reads parseReadStateEvent
        rcases hout with hdestroyed | hother
        · rw [if_pos hdestroyed]
        · rw [if_pos hother, ite_self]
      rw [hreads]
    · rfl
  rw [hlive]
  cases hdestroyed : m.destroyed with
  | true =>
    have hreads : m.reads event opened = none := by
      rw [Manager.reads, if_pos hdestroyed]
    rw [hreads]
    refine iff_of_true ⟨m, ?_, rfl, fun c => Iff.rfl⟩ (by simp)
    rw [mergeEvents, if_pos hdestroyed]
  | false =>
    obtain ⟨m', hrun, h⟩ := mergeEvents_spec event opened freshSlotId hid hdestroyed
    cases hreads : m.reads event opened with
    | none =>
      rw [hreads] at h
      exact iff_of_true ⟨m', hrun, h⟩ (by simp)
    | some parsed =>
      rw [hreads] at h
      obtain ⟨hstate, hpublishable⟩ := h
      simp only [Option.some.injEq, forall_eq', hrun, exists_eq_left']
      rw [and_iff_right hstate]
      simp only [hpublishable, mem_foldl_receiveContext]
      constructor
      · intro h
        rw [or_iff_not_imp_left]
        rintro hother ⟨c, timestamp⟩ hentry
        rcases (h c).mpr (Or.inr ⟨_, hentry, rfl⟩) with hc | ⟨other, hmem, rfl, hclient | hadvances⟩
        · exact Or.inl hc
        · exact absurd hclient hother
        · rw [Table.mem_toList] at hentry
          have hsame := ((Table.mem_toList _ other.1 other.2).mp hmem).symm.trans hentry
          rw [← Option.some.inj hsame]
          exact Or.inr hadvances
      · intro h c
        constructor
        · rintro (hc | ⟨entry, hentry, hc, -⟩)
          · exact Or.inl hc
          · exact Or.inr ⟨entry, hentry, hc⟩
        · rintro (hc | ⟨entry, hentry, rfl⟩)
          · exact Or.inl hc
          · rcases h with hclient | hall
            · exact Or.inr ⟨entry, hentry, rfl, Or.inl hclient⟩
            · exact (hall entry hentry).imp_right fun ha => ⟨entry, hentry, rfl, Or.inr ha⟩

theorem mergeEvents_agrees_own_blob :
    ∃ m', mergeEvents demoStart 0 (demoEvent "s1" 9) (demoBlob "laptop" [("general", 40)])
        (str "s9") = some m' ∧
      m'.effectiveState = (demoStart.handleIncomingEvent (demoEvent "s1" 9)
        (demoBlob "laptop" [("general", 40)])).effectiveState ∧
      ∀ c, c ∈ m'.publishableContextIds ↔ c ∈ (demoStart.handleIncomingEvent (demoEvent "s1" 9)
        (demoBlob "laptop" [("general", 40)])).publishableContextIds := by
  refine (mergeEvents_agrees_iff demoStart 0 (demoEvent "s1" 9)
    (demoBlob "laptop" [("general", 40)]) (str "s9") rfl).mpr fun parsed hparsed => Or.inl ?_
  have hclient : (demoStart.reads (demoEvent "s1" 9) (demoBlob "laptop" [("general", 40)])).map
      (fun parsed => parsed.blob.clientId) = some (str "laptop") := by decide +kernel
  rw [hparsed] at hclient
  exact Option.some.inj hclient

/-- The timestamp is known, and nothing has made the context publishable yet. -/
theorem known_context_differs :
    (mergeEvents demoStart 0 (demoEvent "s2" 9) (demoBlob "phone" [("general", 40)])
        (str "s9")).map (fun m => m.publishableContextIds) = some [] ∧
      (demoStart.handleIncomingEvent (demoEvent "s2" 9)
        (demoBlob "phone" [("general", 40)])).publishableContextIds = [str "general"] := by
  constructor <;> decide +kernel

end Vingilot.ReadState
