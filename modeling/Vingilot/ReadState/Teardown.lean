import Vingilot.ReadState.LiveMerge

/-!
# Publishing and teardown

The debounce timer of `readStateManager.ts` and the calls of `publish`. A call first waits for
`fetchOwnBlobBeforePublish`, whose merge is among the steps of the manager, and then reads the
contexts. What it makes of them is left out.
-/

namespace Vingilot.ReadState

open Js Machine

structure Publisher where
  manager : Manager
  debounceTimer : Bool
  fetching : Nat
  /-- Contexts that a publish was scheduled for and that no call has read since. -/
  owed : List ContextId

namespace Publisher

def start (m : Manager) : Publisher := ⟨m, false, 0, []⟩

def schedulePublish (p : Publisher) (contexts : List ContextId) : Publisher :=
  if p.manager.destroyed then p
  else { p with debounceTimer := true, owed := p.owed ++ contexts }

/-- `publish` up to its first `await`. -/
def publish (p : Publisher) : Publisher := { p with fetching := p.fetching + 1 }

def marks (m : Manager) (contextId : ContextId) (unixTimestamp : Number) : Bool :=
  !m.destroyed && (!decide (unixTimestamp.le ((m.effectiveState.get? contextId).getD 0)) ||
    !m.publishableContextIds.contains contextId)

def changed (m : Manager) (parsed : ParsedReadStateEvent) : List ContextId :=
  (parsed.blob.contexts.toList.filter fun entry =>
    decide ((Manager.resolveRemoteContextTimestamp
      ((m.effectiveState.get? entry.1).getD 0) entry.2).2 = .advanced) ||
      !m.publishableContextIds.contains entry.1).map Prod.fst

end Publisher

inductive PublisherAction where
  | markContextRead (contextId : ContextId) (unixTimestamp : Number) (now : Int)
  | handleIncomingEvent (event : RelayEvent) (opened : Option Value)
  /-- The end of `initialize`, when the contexts differ from what was published. -/
  | initialized
  | other (a : Action)
  | timer
  /-- The fetch of a call of `publish` has returned and is merged. -/
  | fetched
  | destroy

open Publisher in
def publisherStep (p : Publisher) : PublisherAction → Option Publisher
  | .markContextRead contextId unixTimestamp now =>
    let marked := { p with manager := p.manager.markContextRead contextId unixTimestamp now }
    some (if marks p.manager contextId unixTimestamp then marked.schedulePublish [contextId]
      else marked)
  | .handleIncomingEvent event opened =>
    let received := { p with manager := p.manager.handleIncomingEvent event opened }
    match p.manager.reads event opened with
    | none => some received
    | some parsed =>
      if changed p.manager parsed ≠ [] ∧ parsed.blob.clientId ≠ p.manager.clientId then
        some (received.schedulePublish (changed p.manager parsed))
      else some received
  | .initialized => some (p.schedulePublish p.manager.publishableContextIds)
  | .other (.markContextRead ..) | .other (.handleIncomingEvent ..) | .other .destroy => none
  | .other a => (step p.manager a).map fun m => { p with manager := m }
  | .timer => if p.debounceTimer then some { p with debounceTimer := false }.publish else none
  | .fetched =>
    if p.fetching = 0 then none
    else
      let returned := { p with fetching := p.fetching - 1 }
      -- A destroyed manager returns before it reads the contexts.
      some (if p.manager.destroyed then returned else { returned with owed := [] })
  | .destroy =>
    let destroyed := { p with manager := { p.manager with destroyed := true } }
    some (if p.debounceTimer then { destroyed with debounceTimer := false }.publish else destroyed)

def Quiet (p : Publisher) : PublisherAction → Prop
  | .destroy => p.debounceTimer = false ∧ p.fetching = 0
  | _ => True

/-! ## Who destroys a manager -/

theorem destroyed_handleIncomingEvent (m : Manager) (event : RelayEvent) (opened : Option Value) :
    (m.handleIncomingEvent event opened).destroyed = m.destroyed := by
  have hfoldl (entries : List (ContextId × Number)) (createdAt : Int) (n : Manager) :
      (entries.foldl (Manager.receiveContext createdAt) n).destroyed = n.destroyed := by
    induction entries generalizing n with
    | nil => rfl
    | cons entry entries ih => exact ih _
  unfold Manager.handleIncomingEvent
  split_ifs
  · rfl
  · cases m.reads event opened with
    | none => rfl
    | some parsed => exact hfoldl _ _ _

theorem destroyed_advanceContext (m : Manager) (contextId : ContextId) (n : Number) (b : Bool) :
    (m.advanceContext contextId n b).destroyed = m.destroyed := by
  unfold Manager.advanceContext
  simp only
  split_ifs <;> rfl

theorem destroyed_step {m m' : Manager} {a : Action} (ha : a ≠ .destroy)
    (hstep : step m a = some m') : m'.destroyed = m.destroyed := by
  cases a with
  | markContextRead contextId n now =>
    cases hstep
    exact destroyed_advanceContext m contextId n true
  | seedContextRead contextId n =>
    cases hstep
    exact destroyed_advanceContext m contextId n false
  | fetched id events =>
    simp only [step] at hstep
    split_ifs at hstep <;> cases hstep <;> rfl
  | mergeEvent id opened =>
    simp only [step, Manager.mergeEvent] at hstep
    split at hstep
    · split at hstep
      · split_ifs at hstep
        · cases hstep
          rfl
        · split at hstep
          · cases hstep
            rfl
          · cases hstep
            exact foldl_mergeContext_frame.1
      · cases hstep
    · cases hstep
  | checkEvent id opened freshSlotId =>
    simp only [step, Manager.checkEvent] at hstep
    repeat' split at hstep
    all_goals cases hstep <;> rfl
  | finishMerge id =>
    simp only [step, Manager.finishMerge] at hstep
    repeat' split at hstep
    all_goals cases hstep <;> rfl
  | handleIncomingEvent event opened =>
    cases hstep
    exact destroyed_handleIncomingEvent m event opened
  | drainSyncedAdvances =>
    cases hstep
    rfl
  | destroy => exact absurd rfl ha

instance (p : Publisher) : (a : PublisherAction) → Decidable (Quiet p a)
  | .destroy => inferInstanceAs (Decidable (_ ∧ _))
  | .markContextRead .. | .handleIncomingEvent .. | .initialized | .other _ | .timer | .fetched =>
    .isTrue trivial

/-! ## What is owed -/

def Covered (p : Publisher) : Prop :=
  (p.owed = [] ∨ p.debounceTimer = true ∨ 0 < p.fetching) ∧
    (p.manager.destroyed = true → p.owed = [])

variable {p p' : Publisher} {a : PublisherAction}

theorem Covered.schedulePublish (h : Covered p) (contexts : List ContextId) :
    Covered (p.schedulePublish contexts) := by
  unfold Publisher.schedulePublish
  split_ifs with hdestroyed
  · exact h
  · exact ⟨Or.inr (Or.inl rfl), fun hd => absurd hd hdestroyed⟩

theorem Covered.manager (h : Covered p) {m : Manager} (hm : m.destroyed = p.manager.destroyed) :
    Covered { p with manager := m } :=
  ⟨h.1, fun hd => h.2 (hm ▸ hd)⟩

theorem Covered.step (h : Covered p) (hquiet : Quiet p a) (hstep : publisherStep p a = some p') :
    Covered p' := by
  cases a with
  | markContextRead contextId n now =>
    have hmarked := h.manager (m := p.manager.markContextRead contextId n now)
      (destroyed_advanceContext p.manager contextId n true)
    simp only [publisherStep, Option.some.injEq] at hstep
    subst hstep
    split_ifs
    · exact hmarked.schedulePublish _
    · exact hmarked
  | handleIncomingEvent event opened =>
    have hreceived := h.manager (destroyed_handleIncomingEvent p.manager event opened)
    simp only [publisherStep] at hstep
    split at hstep
    · cases hstep
      exact hreceived
    · split_ifs at hstep
      · cases hstep
        exact hreceived.schedulePublish _
      · cases hstep
        exact hreceived
  | initialized =>
    cases hstep
    exact h.schedulePublish _
  | other b =>
    have hother : (ReadState.step p.manager b).map (fun m => { p with manager := m }) = some p' ∧
        b ≠ .destroy := by
      cases b <;> first | exact ⟨hstep, nofun⟩ | cases hstep
    obtain ⟨m, hm, rfl⟩ := Option.map_eq_some_iff.mp hother.1
    exact h.manager (destroyed_step hother.2 hm)
  | timer =>
    simp only [publisherStep] at hstep
    split_ifs at hstep
    cases hstep
    exact ⟨Or.inr (Or.inr (Nat.succ_pos _)), h.2⟩
  | fetched =>
    simp only [publisherStep] at hstep
    split_ifs at hstep with hnone hdestroyed
    · cases hstep
      exact ⟨Or.inl (h.2 hdestroyed), h.2⟩
    · cases hstep
      exact ⟨Or.inl rfl, fun _ => rfl⟩
  | destroy =>
    obtain ⟨htimer, hfetching⟩ := hquiet
    have howed : p.owed = [] := by
      rcases h.1 with howed | hset | hpos
      · exact howed
      · rw [htimer] at hset
        cases hset
      · omega
    simp only [publisherStep, htimer, Bool.false_eq_true, if_false, Option.some.injEq] at hstep
    subst hstep
    exact ⟨Or.inl howed, fun _ => howed⟩

/-- A manager that is destroyed with no publish pending owes nothing, then or later. -/
theorem destroyed_owes_nothing (m : Manager) (actions : List PublisherAction)
    (hrun : run publisherStep (.start m) actions = some p)
    (hquiet : Meets publisherStep Quiet (.start m) actions) :
    p.manager.destroyed = true → p.owed = [] := by
  have hstart : Covered (.start m) := ⟨Or.inl rfl, fun _ => rfl⟩
  exact (run_invariant_of_meets Covered (fun _ _ _ h hquiet hstep => h.step hquiet hstep) hstart
    hquiet hrun).2

def publishThenDestroy : List PublisherAction :=
  [.markContextRead (str "random") 60 100, .timer, .fetched, .destroy]

theorem destroyed_owes_nothing_after_publish : ∃ p,
    run publisherStep (.start demoStart) publishThenDestroy = some p ∧
      (p.manager.destroyed = true → p.owed = []) := by
  have hrun : (run publisherStep (.start demoStart) publishThenDestroy).isSome = true := by
    decide +kernel
  obtain ⟨p, hp⟩ := Option.isSome_iff_exists.mp hrun
  exact ⟨p, hp, destroyed_owes_nothing demoStart publishThenDestroy hp (by decide +kernel)⟩

/-- The manager is destroyed before the five seconds are over. -/
theorem pending_mark_lost : (run publisherStep (.start demoStart)
    [.markContextRead (str "random") 60 100, .destroy, .fetched]).map
      (fun p => (p.manager.destroyed, p.debounceTimer, p.fetching, p.owed)) =
        some (true, false, 0, [str "random"]) := by
  decide +kernel

end Vingilot.ReadState
