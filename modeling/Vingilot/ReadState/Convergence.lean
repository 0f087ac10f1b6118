import Vingilot.Lib.Frontier
import Vingilot.ReadState.Manager

/-!
# Clients converge on the greatest timestamps

The map of a manager is a frontier, where an absent entry stands for zero. Every
path into the map, the fetched events, the live events and the local marks, raises
the frontier by what it accepts, so the map is settled by the set of inputs alone.
-/

namespace Vingilot.ReadState

open Js Frontier Machine

/-! ## The map as a frontier -/

structure Shows (effectiveState : Table ContextId Number) (f : ContextId → Extended) : Prop where
  get : ∀ c, effectiveState.get? c = if f c = 0 then none else some (.num (f c))
  nonneg : ∀ c, 0 ≤ f c

variable {t : Table ContextId Number} {f : ContextId → Extended}

theorem Shows.current (h : Shows t f) (c : ContextId) : (t.get? c).getD 0 = .num (f c) := by
  rw [h.get]
  split_ifs with hzero
  · rw [hzero]
    rfl
  · rfl

theorem Shows.raise (h : Shows t f) (c : ContextId) (x : Extended) :
    Shows (if f c < x then t.set c (.num x) else t) (Frontier.raise f (c, x)) := by
  constructor
  · intro d
    rw [raise_apply]
    split_ifs with hlt hd hzero hzero hd hzero hzero
    · have hpos : 0 < x := (h.nonneg c).trans_lt hlt
      rw [max_eq_right hlt.le] at hzero
      exact absurd hzero hpos.ne'
    · rw [Table.get?_set, if_pos hd, max_eq_right hlt.le]
    · rw [Table.get?_set, if_neg hd, h.get, if_pos hzero]
    · rw [Table.get?_set, if_neg hd, h.get, if_neg hzero]
    · subst hd
      rw [max_eq_left (not_lt.mp hlt)] at hzero
      rw [h.get, if_pos hzero]
    · subst hd
      rw [max_eq_left (not_lt.mp hlt)] at hzero ⊢
      rw [h.get, if_neg hzero]
    · rw [h.get, if_pos hzero]
    · rw [h.get, if_neg hzero]
  · exact fun d => (h.nonneg d).trans (le_raise f (c, x) d)

theorem shows_empty : Shows ∅ fun _ => 0 := ⟨fun c => by simp, fun _ => le_rfl⟩

/-! ## The inputs -/

def numbers (given : List (ContextId × Number)) : List (ContextId × Extended) :=
  given.filterMap fun entry => entry.2.extended?.map fun x => (entry.1, x)

theorem mem_numbers {given : List (ContextId × Number)} {c : ContextId} {x : Extended} :
    (c, x) ∈ numbers given ↔ (c, Number.num x) ∈ given := by
  simp only [numbers, List.mem_filterMap]
  constructor
  · rintro ⟨⟨d, n⟩, hmem, heq⟩
    cases n with
    | nan => simp [Number.extended?] at heq
    | num y =>
      simp only [Number.extended?, Option.map_some, Option.some.injEq, Prod.mk.injEq] at heq
      obtain ⟨rfl, rfl⟩ := heq
      exact hmem
  · exact fun hmem => ⟨_, hmem, rfl⟩

theorem numbers_append (xs ys : List (ContextId × Number)) :
    numbers (xs ++ ys) = numbers xs ++ numbers ys := List.filterMap_append

def contextsOf (parsed : Option ParsedReadStateEvent) : List (ContextId × Number) :=
  match parsed with
  | some parsed => parsed.blob.contexts.toList
  | none => []

def accepts (m : Manager) : Action → List (ContextId × Number)
  | .markContextRead contextId unixTimestamp _ =>
    if m.destroyed then [] else [(contextId, unixTimestamp)]
  | .seedContextRead contextId unixTimestamp =>
    if m.destroyed then [] else [(contextId, unixTimestamp)]
  | .mergeEvent id opened =>
    match m.merges.get? id with
    | some ⟨event :: _, _, _⟩ => contextsOf (m.reads event opened)
    | _ => []
  | .handleIncomingEvent event opened => contextsOf (m.reads event opened)
  | _ => []

def Stored.timestamps (stored : Stored) : List (ContextId × Number) :=
  stored.contexts.filterMap fun entry =>
    entry.2.map fun seconds => (entry.1, .num ((seconds : ℚ) : WithTop ℚ))

def given (pubkey clientId slotId : Str) (stored : Stored) (actions : List Action) :
    List (ContextId × Number) :=
  stored.timestamps ++ gather step accepts (Manager.hydrated pubkey clientId slotId stored) actions

/-- A local mark is not `NaN`. The callers take it from an event or from
`localIsoToUnixSeconds`, which turns `NaN` away. -/
def Numeric (_ : Manager) : Action → Prop
  | .markContextRead _ unixTimestamp _ => unixTimestamp ≠ .nan
  | .seedContextRead _ unixTimestamp => unixTimestamp ≠ .nan
  | _ => True

instance (m : Manager) (a : Action) : Decidable (Numeric m a) := by
  cases a <;> simp only [Numeric] <;> infer_instance

/-! ## One timestamp on each path -/

theorem shows_mergeLocalStorageKey (h : Shows t f) (stored : List (ContextId × Option Int)) :
    Shows (mergeLocalStorageKey t stored)
      (raiseAll f (numbers (Stored.timestamps ⟨stored, [], ∅⟩))) := by
  induction stored generalizing t f with
  | nil => exact h
  | cons entry rest ih =>
    obtain ⟨c, seconds⟩ := entry
    cases seconds with
    | none => exact ih h
    | some n =>
      have hstep := ih (h.raise c ((n : ℚ) : WithTop ℚ))
      rw [mergeLocalStorageKey, List.foldl_cons]
      simp only [h.current, Number.lt, decide_eq_true_eq]
      exact hstep

theorem shows_advanceContext {m : Manager} (h : Shows m.effectiveState f)
    (hlive : m.destroyed = false) (c : ContextId) (x : Extended) (publishable : Bool) :
    Shows (m.advanceContext c (.num x) publishable).effectiveState (Frontier.raise f (c, x)) := by
  have hraise := h.raise c x
  unfold Manager.advanceContext
  rw [if_neg (by simp [hlive])]
  simp only [h.current, Number.le, decide_eq_true_eq]
  by_cases hle : x ≤ f c
  · rw [if_neg (not_lt.mpr hle)] at hraise
    rw [if_pos hle]
    split_ifs
    · exact hraise
    · exact hraise
  · rw [if_pos (not_le.mp hle)] at hraise
    rw [if_neg hle]
    exact hraise

theorem shows_applyRemote {m : Manager} (h : Shows m.effectiveState f) (c : ContextId)
    (x : Extended) (createdAt : Int) :
    Shows (m.applyRemoteContextTimestamp c (.num x) createdAt).1.effectiveState
      (Frontier.raise f (c, x)) := by
  have hraise := h.raise c x
  simp only [Manager.applyRemoteContextTimestamp, Manager.resolveRemoteContextTimestamp, h.current,
    Number.max, Number.same, decide_eq_true_eq, max_eq_left_iff]
  by_cases hle : x ≤ f c
  · rw [if_neg (not_lt.mpr hle)] at hraise
    rw [if_pos hle]
    exact hraise
  · rw [if_pos (not_le.mp hle)] at hraise
    rw [if_neg hle, if_pos rfl, max_eq_right (le_of_not_ge hle)]
    exact hraise

theorem shows_foldl {body : Manager → ContextId × Number → Manager} {createdAt : Int}
    (hbody : ∀ m entry, (body m entry).effectiveState =
      (m.applyRemoteContextTimestamp entry.1 entry.2 createdAt).1.effectiveState)
    {entries : List (ContextId × Number)} (hentries : ∀ entry ∈ entries, Timestamp entry.2)
    {m : Manager} (h : Shows m.effectiveState f) :
    Shows (entries.foldl body m).effectiveState (raiseAll f (numbers entries)) := by
  induction entries generalizing m f with
  | nil => exact h
  | cons entry rest ih =>
    obtain ⟨c, n⟩ := entry
    obtain ⟨x, rfl, -⟩ := hentries _ List.mem_cons_self
    refine ih (fun e he => hentries e (List.mem_cons_of_mem _ he)) ?_
    rw [hbody]
    exact shows_applyRemote h c x createdAt

theorem mergeContext_effectiveState (createdAt : Int) (m : Manager) (entry : ContextId × Number) :
    (Manager.mergeContext createdAt m entry).effectiveState =
      (m.applyRemoteContextTimestamp entry.1 entry.2 createdAt).1.effectiveState := by
  unfold Manager.mergeContext
  simp only
  split_ifs
  · rfl
  · rfl

theorem receiveContext_effectiveState (createdAt : Int) (m : Manager)
    (entry : ContextId × Number) :
    (Manager.receiveContext createdAt m entry).effectiveState =
      (m.applyRemoteContextTimestamp entry.1 entry.2 createdAt).1.effectiveState := rfl

variable {opened : Option Value}

theorem timestamp_of_reads {m : Manager} {event : RelayEvent} {parsed : ParsedReadStateEvent}
    (h : m.reads event opened = some parsed) :
    ∀ entry ∈ parsed.blob.contexts.toList, Timestamp entry.2 := by
  unfold Manager.reads at h
  split_ifs at h
  rintro ⟨c, n⟩ hmem
  exact timestamp_of_parse h ((Table.mem_toList _ _ _).mp hmem)

/-! ## One step -/

variable {m' : Manager} {id : Nat}

theorem shows_mergeEvent {m : Manager} (h : Shows m.effectiveState f)
    (hstep : m.mergeEvent id opened = some m') :
    Shows m'.effectiveState (raiseAll f (numbers (accepts m (.mergeEvent id opened)))) := by
  unfold Manager.mergeEvent at hstep
  cases hcall : m.merges.get? id with
  | none => simp [hcall] at hstep
  | some call =>
    obtain ⟨toMerge, toCheck, own⟩ := call
    cases toMerge with
    | nil => simp [hcall] at hstep
    | cons event rest =>
      simp only [hcall] at hstep
      simp only [accepts, hcall]
      by_cases hdestroyed : m.destroyed = true
      · rw [if_pos hdestroyed] at hstep
        cases hstep
        have hreads : m.reads event opened = none := by rw [Manager.reads, if_pos hdestroyed]
        rw [hreads]
        exact h
      · rw [if_neg hdestroyed] at hstep
        cases hreads : m.reads event opened with
        | none =>
          simp only [hreads] at hstep
          cases hstep
          exact h
        | some parsed =>
          simp only [hreads] at hstep
          cases hstep
          exact shows_foldl (mergeContext_effectiveState parsed.createdAt)
            (timestamp_of_reads hreads) (m := m.fetchedUpTo parsed.createdAt) h

theorem shows_handleIncomingEvent {m : Manager} {event : RelayEvent} (h : Shows m.effectiveState f) :
    Shows (m.handleIncomingEvent event opened).effectiveState
      (raiseAll f (numbers (accepts m (.handleIncomingEvent event opened)))) := by
  unfold Manager.handleIncomingEvent
  simp only [accepts]
  by_cases hout : m.destroyed = true ∨ event.pubkey ≠ m.pubkey
  · -- the check before the `await` turns away nothing that the parse would let through
    have hreads : m.reads event opened = none := by
      unfold Manager.reads parseReadStateEvent
      rcases hout with hdestroyed | hother
      · rw [if_pos hdestroyed]
      · rw [if_pos hother, ite_self]
    rw [if_pos hout, hreads]
    exact h
  · rw [if_neg hout]
    cases hreads : m.reads event opened with
    | none => exact h
    | some parsed =>
      exact shows_foldl (receiveContext_effectiveState parsed.createdAt)
        (timestamp_of_reads hreads) (m := m.fetchedUpTo parsed.createdAt) h

theorem checkEvent_effectiveState {m : Manager} {freshSlotId : Str}
    (hstep : m.checkEvent id opened freshSlotId = some m') :
    m'.effectiveState = m.effectiveState := by
  unfold Manager.checkEvent at hstep
  split at hstep
  · split at hstep
    · split_ifs at hstep
      · cases hstep
        rfl
      · split at hstep
        · cases hstep
          rfl
        · split_ifs at hstep <;> cases hstep <;> rfl
    · cases hstep
  · cases hstep

theorem finishMerge_effectiveState {m : Manager} (hstep : m.finishMerge id = some m') :
    m'.effectiveState = m.effectiveState := by
  unfold Manager.finishMerge at hstep
  split at hstep
  · simp only at hstep
    split_ifs at hstep <;> cases hstep <;> rfl
  · cases hstep

theorem shows_mark {m : Manager} (h : Shows m.effectiveState f) (c : ContextId) {n : Number}
    (hn : n ≠ .nan) (publishable : Bool) : Shows (m.advanceContext c n publishable).effectiveState
      (raiseAll f (numbers (if m.destroyed then [] else [(c, n)]))) := by
  cases n with
  | nan => exact absurd rfl hn
  | num x =>
    cases hdestroyed : m.destroyed with
    | true =>
      rw [Manager.advanceContext, if_pos hdestroyed]
      exact h
    | false => exact shows_advanceContext h hdestroyed c x publishable

theorem shows_step {m : Manager} {a : Action} (h : Shows m.effectiveState f) (hnum : Numeric m a)
    (hstep : step m a = some m') :
    Shows m'.effectiveState (raiseAll f (numbers (accepts m a))) := by
  cases a with
  | markContextRead c n now =>
    cases hstep
    exact shows_mark h c hnum true
  | seedContextRead c n =>
    cases hstep
    exact shows_mark h c hnum false
  | fetched id events =>
    simp only [step] at hstep
    split_ifs at hstep <;> cases hstep <;> exact h
  | mergeEvent id opened => exact shows_mergeEvent h hstep
  | checkEvent id opened freshSlotId =>
    rw [checkEvent_effectiveState hstep]
    exact h
  | finishMerge id =>
    rw [finishMerge_effectiveState hstep]
    exact h
  | handleIncomingEvent event opened =>
    cases hstep
    exact shows_handleIncomingEvent h
  | drainSyncedAdvances =>
    cases hstep
    exact h
  | destroy =>
    cases hstep
    exact h

/-! ## Whole runs -/

variable {pubkey clientId slotId : Str} {stored : Stored} {actions : List Action} {m : Manager}

theorem shows_given
    (hrun : run step (Manager.hydrated pubkey clientId slotId stored) actions = some m)
    (hnum : Meets step Numeric (Manager.hydrated pubkey clientId slotId stored) actions) :
    Shows m.effectiveState
      (raiseAll (fun _ => 0) (numbers (given pubkey clientId slotId stored actions))) := by
  refine run_gather (fun m given => Shows m.effectiveState (raiseAll (fun _ => 0) (numbers given)))
    ?_ (shows_mergeLocalStorageKey shows_empty stored.contexts) hnum hrun
  intro m a m' given h hnumeric hstep
  rw [numbers_append, raiseAll_append]
  exact shows_step h hnumeric hstep

/-- A client's map holds, for every context, the greatest timestamp it accepted: nothing
when that is zero, since an absent entry reads as zero. Two clients that accepted the
same timestamps hold the same map, and no step lowers an entry. -/
theorem effectiveState_converges
    (hrun : run step (Manager.hydrated pubkey clientId slotId stored) actions = some m)
    (hnum : Meets step Numeric (Manager.hydrated pubkey clientId slotId stored) actions) :
    (∀ c, ∃ x, IsGreatest
        (insert 0 {x | (c, Number.num x) ∈ given pubkey clientId slotId stored actions}) x ∧
      m.effectiveState.get? c = if x = 0 then none else some (.num x)) ∧
    (∀ pubkey' clientId' slotId' stored' actions' m',
      run step (Manager.hydrated pubkey' clientId' slotId' stored') actions' = some m' →
      Meets step Numeric (Manager.hydrated pubkey' clientId' slotId' stored') actions' →
      (∀ c x, (c, Number.num x) ∈ given pubkey clientId slotId stored actions ↔
        (c, Number.num x) ∈ given pubkey' clientId' slotId' stored' actions') →
      ∀ c, m.effectiveState.get? c = m'.effectiveState.get? c) ∧
    (∀ a m', Numeric m a → step m a = some m' → ∀ c x,
      m.effectiveState.get? c = some (.num x) →
        ∃ y, x ≤ y ∧ m'.effectiveState.get? c = some (.num y)) := by
  have hshows := shows_given hrun hnum
  refine ⟨?_, ?_, ?_⟩
  · intro c
    have hgreatest := isGreatest_raiseAll (fun _ => (0 : Extended))
      (numbers (given pubkey clientId slotId stored actions)) c
    simp only [mem_numbers] at hgreatest
    exact ⟨_, hgreatest, hshows.get c⟩
  · intro pubkey' clientId' slotId' stored' actions' m' hrun' hnum' hsame c
    have hcongr : raiseAll (fun _ => (0 : Extended))
        (numbers (given pubkey clientId slotId stored actions)) =
          raiseAll (fun _ => 0) (numbers (given pubkey' clientId' slotId' stored' actions')) :=
      raiseAll_congr _ fun p => mem_numbers.trans ((hsame p.1 p.2).trans mem_numbers.symm)
    rw [hshows.get c, (shows_given hrun' hnum').get c, hcongr]
  · intro a m' hnumeric hstep c x hx
    have hshows' := shows_step hshows hnumeric hstep
    rw [hshows.get c] at hx
    split_ifs at hx with hzero
    cases hx
    have hle := le_raiseAll (raiseAll (fun _ => (0 : Extended))
      (numbers (given pubkey clientId slotId stored actions))) (numbers (accepts m a)) c
    refine ⟨_, hle, ?_⟩
    rw [hshows'.get c, if_neg]
    exact ((lt_of_le_of_ne (hshows.nonneg c) (Ne.symm hzero)).trans_le hle).ne'

/-! ## A session -/

def demoEvent (slot : String) (createdAt : Int) : RelayEvent where
  pubkey := str "alice"
  createdAt := createdAt
  tags := [[str "d", str ("read-state:" ++ slot)], [str "t", str "read-state"]]

def demoBlob (clientId : String) (contexts : List (String × Number)) : Option Value :=
  some (.obj
    [(str "v", .num 1), (str "client_id", .str (str clientId)),
      (str "contexts", .obj (contexts.map fun entry => (str entry.1, .num entry.2)))])

def demoStart : Manager :=
  .hydrated (str "alice") (str "laptop") (str "s1") ⟨[(str "general", some 40)], [], ∅⟩

def demoActions : List Action :=
  [.fetched 0 [demoEvent "s2" 9, demoEvent "s3" 8],
    .mergeEvent 0 (demoBlob "phone" [("general", 70), ("random", 5)]),
    .markContextRead (str "random") 60 100,
    .handleIncomingEvent (demoEvent "s4" 12) (demoBlob "desk" [("general", 90)]),
    .mergeEvent 0 (demoBlob "tablet" [("general", 80), ("random", 50)]),
    .checkEvent 0 (demoBlob "phone" [("general", 70)]) (str "s9"),
    .checkEvent 0 none (str "s9"), .finishMerge 0]

theorem effectiveState_converges_session : ∃ m, run step demoStart demoActions = some m ∧
    m.effectiveState.get? (str "random") = some 60 ∧
    ∀ a m', Numeric m a → step m a = some m' →
      ∃ y : Extended, ((60 : ℚ) : WithTop ℚ) ≤ y ∧
        m'.effectiveState.get? (str "random") = some (.num y) := by
  have hdemo : ((run step demoStart demoActions).any fun m =>
      m.effectiveState.get? (str "random") == some 60) = true := by decide +kernel
  have hnum : Meets step Numeric demoStart demoActions := by decide +kernel
  obtain ⟨m, hrun, hget⟩ := (Option.any_eq_true _ _).mp hdemo
  have hrandom := eq_of_beq hget
  refine ⟨m, hrun, hrandom, fun a m' hnumeric hstep => ?_⟩
  exact (effectiveState_converges hrun hnum).2.2 a m' hnumeric hstep _ _ hrandom

/-- A blob may give zero, and then there is no entry. A local `NaN` gives way to the
next mark but outlives every blob, so the order of the marks matters. -/
theorem zero_has_no_entry_nan_depends_on_order :
    (¬ ∀ pubkey clientId slotId stored actions m,
      run step (Manager.hydrated pubkey clientId slotId stored) actions = some m →
      ∀ c x, IsGreatest
        {x | (c, Number.num x) ∈ given pubkey clientId slotId stored actions} x →
        m.effectiveState.get? c = some (.num x)) ∧
    (run step demoStart [.markContextRead (str "random") .nan 1,
        .markContextRead (str "random") 5 1]).map
        (fun m => m.effectiveState.get? (str "random")) = some (some 5) ∧
    (run step demoStart [.markContextRead (str "random") 5 1,
        .markContextRead (str "random") .nan 1]).map
        (fun m => m.effectiveState.get? (str "random")) = some (some .nan) := by
  refine ⟨?_, by decide +kernel, by decide +kernel⟩
  intro hclaim
  let actions : List Action :=
    [.handleIncomingEvent (demoEvent "s2" 9) (demoBlob "phone" [("random", 0)])]
  have hdemo : ((run step demoStart actions).any fun m =>
      m.effectiveState.get? (str "random") == none) = true := by decide +kernel
  obtain ⟨m, hrun, hget⟩ := (Option.any_eq_true _ _).mp hdemo
  have hgiven : given (str "alice") (str "laptop") (str "s1") ⟨[(str "general", some 40)], [], ∅⟩
      actions = [(str "general", 40), (str "random", 0)] := by decide +kernel
  have hentry := hclaim _ _ _ _ _ m hrun (str "random") 0 (by
    rw [hgiven]
    constructor
    · decide +kernel
    · rintro x hx
      have hne : str "random" ≠ str "general" := by decide +kernel
      simp only [Set.mem_ofPred_eq, List.mem_cons, Prod.mk.injEq, hne, false_and, true_and,
        List.not_mem_nil, or_false, false_or, Number.zero_def, Number.num.injEq] at hx
      exact hx.le)
  rw [eq_of_beq hget] at hentry
  cases hentry

end Vingilot.ReadState
