import Vingilot.Lib.Machine
import Vingilot.Lib.OrdMap
import Vingilot.Coordinator.Store

/-!
# Workspace mutations (`coordinator/src/workspace.rs`)

A call names the revision that it builds on. It is accepted only on the current one, and then its
patches, its hash and its number go to the row and to the log together.
-/

namespace Vingilot.Coordinator.Workspaces

open Machine

/-! ## The calls -/

section Calls

-- `hex::encode(Sha256::digest(..))`
variable (sha256 : List Char → String)

def stateHash (state : Json.Value) : String := sha256 (Json.render state)

def emptyState : Json.Value := .obj []

def ensureWorkspace (db : Db) (id : Uuid) : Db :=
  insertWorkspace db id ⟨0, emptyState, stateHash sha256 emptyState⟩

def mergePatch : Json.Value → Json.Value → Json.Value
  | .obj base, .obj patch => .obj (patch.foldl (fun m e => OrdMap.insertEntry e.1 e.2 m) base)
  | _, other => other

inductive WorkspaceError where
  | notFound (id : Uuid)
  | db

structure MutationOutcome where
  accepted : Bool
  revision : Int
  stateHash : String

def applyMutations (db : Db) (id : Uuid) (expectedRevision : Int) (mutations : List Json.Value) :
    Except WorkspaceError (Db × MutationOutcome) :=
  match db.workspaces.get? id with
  | none => .error (.notFound id)
  | some row =>
    if row.revision ≠ expectedRevision then .ok (db, ⟨false, row.revision, row.stateHash⟩)
    else
      let newState := mutations.foldl mergePatch row.state
      let newRevision := row.revision + 1
      let newHash := stateHash sha256 newState
      if (db.workspaceEvents.get? (id, newRevision)).isSome then .error .db
      else
        .ok ({ db with
          workspaces := db.workspaces.set id ⟨newRevision, newState, newHash⟩
          workspaceEvents := db.workspaceEvents.set (id, newRevision)
            ⟨row.revision, mutations, newHash⟩ }, ⟨true, newRevision, newHash⟩)

/-! ## Runs -/

structure Answer where
  workspaceId : Uuid
  expectedRevision : Int
  mutations : List Json.Value
  outcome : MutationOutcome

structure World where
  db : Db
  answers : List Answer

def World.init : World := ⟨.empty, []⟩

inductive Action where
  | ensure (id : Uuid)
  | apply (id : Uuid) (expectedRevision : Int) (mutations : List Json.Value)

def step (w : World) : Action → Option World
  | .ensure id => some { w with db := ensureWorkspace sha256 w.db id }
  | .apply id expectedRevision mutations =>
    match applyMutations sha256 w.db id expectedRevision mutations with
    | .ok (db, outcome) =>
      some ⟨db, w.answers ++ [⟨id, expectedRevision, mutations, outcome⟩]⟩
    | .error _ => some w

end Calls

/-! ## The log -/

def replay (events : List WorkspaceEvent) : Json.Value :=
  events.foldl (fun state e => e.mutations.foldl mergePatch state) emptyState

theorem replay_append (events : List WorkspaceEvent) (e : WorkspaceEvent) :
    replay (events ++ [e]) = e.mutations.foldl mergePatch (replay events) := by
  simp [replay]

variable {sha256 : List Char → String}

structure Replays (sha256 : List Char → String) (events : List WorkspaceEvent)
    (row : Workspace) : Prop where
  revision : row.revision = events.length
  state : row.state = replay events
  hash : row.stateHash = stateHash sha256 (replay events)
  hashes : ∀ (i : Nat) e, events[i]? = some e →
    e.prevRevision = i ∧ e.stateHash = stateHash sha256 (replay (events.take (i + 1)))

theorem Replays.nil : Replays sha256 [] ⟨0, emptyState, stateHash sha256 emptyState⟩ :=
  ⟨rfl, rfl, rfl, by simp⟩

variable {row : Workspace}

theorem Replays.append {events : List WorkspaceEvent} (h : Replays sha256 events row)
    (mutations : List Json.Value) : Replays sha256
      (events ++ [⟨row.revision, mutations, stateHash sha256 (mutations.foldl mergePatch row.state)⟩])
      ⟨row.revision + 1, mutations.foldl mergePatch row.state,
        stateHash sha256 (mutations.foldl mergePatch row.state)⟩ where
  revision := by rw [h.revision]; simp
  state := by rw [replay_append, h.state]
  hash := by rw [replay_append, h.state]
  hashes := by
    intro i e he
    by_cases hlt : i < events.length
    · rw [List.getElem?_append_left hlt] at he
      rw [List.take_append_of_le_length (by omega)]
      exact h.hashes i e he
    · have hi : i = events.length := by
        have hbound := (List.getElem?_eq_some_iff.mp he).1
        simp only [List.length_append, List.length_singleton] at hbound
        omega
      subst hi
      obtain rfl : _ = e := by simpa using he
      refine ⟨h.revision, ?_⟩
      rw [List.take_of_length_le (by simp), replay_append, h.state]

/-! ## What every run keeps -/

def World.accepted (w : World) (id : Uuid) : List Answer :=
  w.answers.filter fun a => a.workspaceId = id && a.outcome.accepted

structure Accepts (answers : List Answer) (events : List WorkspaceEvent) : Prop where
  revisions : answers.map (·.outcome.revision) =
    (List.range events.length).map fun i : Nat => (i : Int) + 1
  mutations : answers.map (·.mutations) = events.map (·.mutations)

theorem Accepts.append {answers : List Answer} {events : List WorkspaceEvent}
    (h : Accepts answers events) {a : Answer} {e : WorkspaceEvent}
    (hrevision : a.outcome.revision = events.length + 1) (hmutations : a.mutations = e.mutations) :
    Accepts (answers ++ [a]) (events ++ [e]) where
  revisions := by
    rw [List.map_append, h.revisions, List.length_append, List.length_singleton, List.range_succ,
      List.map_append, List.map_singleton, List.map_singleton, hrevision]
  mutations := by
    rw [List.map_append, List.map_append, h.mutations, List.map_singleton, List.map_singleton,
      hmutations]

structure Kept (sha256 : List Char → String) (w : World) : Prop where
  none : ∀ id, w.db.workspaces.get? id = none →
    Numbered w.db.workspaceEvents id [] ∧ Accepts (w.accepted id) []
  some : ∀ id row, w.db.workspaces.get? id = some row →
    ∃ events, Numbered w.db.workspaceEvents id events ∧ Replays sha256 events row ∧
      Accepts (w.accepted id) events

theorem kept_init : Kept sha256 .init :=
  ⟨fun _ _ => ⟨.nil fun _ => rfl, rfl, rfl⟩, fun _ _ h => by cases h⟩

variable {w : World}

theorem Kept.ensure (h : Kept sha256 w) (id : Uuid) :
    Kept sha256 { w with db := ensureWorkspace sha256 w.db id } := by
  unfold ensureWorkspace insertWorkspace
  split_ifs with hthere
  · exact h
  · have hnone : w.db.workspaces.get? id = .none := Option.not_isSome_iff_eq_none.mp hthere
    constructor
    · intro id' hid'
      simp only [Table.get?_set] at hid'
      split_ifs at hid'
      exact h.none id' hid'
    · intro id' row hid'
      simp only [Table.get?_set] at hid'
      split_ifs at hid' with hsame
      · cases hid'
        subst hsame
        obtain ⟨hnumbered, haccepts⟩ := h.none id' hnone
        exact ⟨[], hnumbered, .nil, haccepts⟩
      · exact h.some id' row hid'

variable {id : Uuid}

theorem applyMutations_stale {db : Db} (hrow : db.workspaces.get? id = some row)
    {expectedRevision : Int} (hstale : expectedRevision ≠ row.revision)
    (mutations : List Json.Value) : applyMutations sha256 db id expectedRevision mutations =
      .ok (db, ⟨false, row.revision, row.stateHash⟩) := by
  unfold applyMutations
  simp only [hrow]
  rw [if_pos (Ne.symm hstale)]

theorem applyMutations_current (h : Kept sha256 w) (hrow : w.db.workspaces.get? id = some row)
    (mutations : List Json.Value) : applyMutations sha256 w.db id row.revision mutations =
      .ok ({ w.db with
        workspaces := w.db.workspaces.set id ⟨row.revision + 1, mutations.foldl mergePatch row.state,
          stateHash sha256 (mutations.foldl mergePatch row.state)⟩
        workspaceEvents := w.db.workspaceEvents.set (id, row.revision + 1) ⟨row.revision, mutations,
          stateHash sha256 (mutations.foldl mergePatch row.state)⟩ },
        ⟨true, row.revision + 1, stateHash sha256 (mutations.foldl mergePatch row.state)⟩) := by
  obtain ⟨events, hnumbered, hreplays, -⟩ := h.some id row hrow
  have hfree : w.db.workspaceEvents.get? (id, row.revision + 1) = none :=
    hnumbered.get?_eq_none (.inr (by rw [hreplays.revision]; omega))
  unfold applyMutations
  simp [hrow, hfree]

theorem accepted_append {db : Db} {a : Answer} (id : Uuid) :
    (World.mk db (w.answers ++ [a])).accepted id =
      w.accepted id ++ if a.workspaceId = id ∧ a.outcome.accepted = true then [a] else [] := by
  unfold World.accepted
  rw [List.filter_append]
  by_cases hid : a.workspaceId = id
  · by_cases haccepted : a.outcome.accepted = true
    · simp [hid, haccepted]
    · simp [hid, haccepted]
  · simp [hid]

theorem Kept.apply {w' : World} (h : Kept sha256 w) {expectedRevision : Int}
    {mutations : List Json.Value}
    (hstep : step sha256 w (.apply id expectedRevision mutations) = Option.some w') :
    Kept sha256 w' := by
  unfold step at hstep
  cases hrow : w.db.workspaces.get? id with
  | none =>
    simp only [applyMutations, hrow] at hstep
    cases hstep
    exact h
  | some row =>
    by_cases hcurrent : expectedRevision = row.revision
    · subst hcurrent
      simp only [applyMutations_current h hrow] at hstep
      cases hstep
      obtain ⟨events, hnumbered, hreplays, haccepts⟩ := h.some id row hrow
      have hseq : row.revision + 1 = nextSeq w.db.workspaceEvents id := by
        rw [hnumbered.nextSeq_eq, hreplays.revision]
      constructor
      · intro id' hid'
        simp only [Table.get?_set] at hid'
        split_ifs at hid' with hsame
        obtain ⟨hnumbered', haccepts'⟩ := h.none id' hid'
        refine ⟨hnumbered'.set_other hsame _ _, ?_⟩
        rw [accepted_append, if_neg (by simp [Ne.symm hsame]), List.append_nil]
        exact haccepts'
      · intro id' row' hid'
        simp only [Table.get?_set] at hid'
        split_ifs at hid' with hsame
        · cases hid'
          subst hsame
          refine ⟨_, ?_, hreplays.append mutations, ?_⟩
          · simp only [hseq]
            exact hnumbered.append _
          · rw [accepted_append, if_pos ⟨rfl, rfl⟩]
            exact haccepts.append (by simp [hreplays.revision]) rfl
        · obtain ⟨events', hnumbered', hreplays', haccepts'⟩ := h.some id' row' hid'
          refine ⟨events', hnumbered'.set_other hsame _ _, hreplays', ?_⟩
          rw [accepted_append, if_neg (by simp [Ne.symm hsame]), List.append_nil]
          exact haccepts'
    · simp only [applyMutations_stale hrow hcurrent] at hstep
      cases hstep
      refine ⟨fun id' hid' => ?_, fun id' row' hid' => ?_⟩
      · rw [accepted_append, if_neg (by simp), List.append_nil]
        exact h.none id' hid'
      · rw [accepted_append, if_neg (by simp), List.append_nil]
        exact h.some id' row' hid'

theorem kept_of_run {actions : List Action} (h : run (step sha256) .init actions = some w) :
    Kept sha256 w := by
  refine run_invariant (Kept sha256) ?_ kept_init h
  intro w a w' hw hstep
  cases a with
  | ensure id => cases hstep; exact hw.ensure id
  | apply id expectedRevision mutations => exact hw.apply hstep

/-- The accepted calls of a workspace have the revisions 1, 2, 3, .. one each, in the order in which
they were answered. The log has their patches, and played from the empty object it gives the state,
and at each of its rows the hash of that row. A call on another revision changes nothing and
reports the current one. -/
theorem mutations_replay (sha256 : List Char → String) {actions : List Action} {w : World}
    (hrun : run (step sha256) .init actions = some w) {id : Uuid} {row : Workspace}
    (hrow : w.db.workspaces.get? id = some row) :
    ∃ events, Numbered w.db.workspaceEvents id events ∧ Replays sha256 events row ∧
      Accepts (w.accepted id) events ∧
      ∀ expectedRevision mutations, expectedRevision ≠ row.revision →
        applyMutations sha256 w.db id expectedRevision mutations =
            .ok (w.db, ⟨false, row.revision, row.stateHash⟩) := by
  obtain ⟨events, hnumbered, hreplays, haccepts⟩ := (kept_of_run hrun).some id row hrow
  exact ⟨events, hnumbered, hreplays, haccepts,
    fun _ mutations hstale => applyMutations_stale hrow hstale mutations⟩

def demoSha256 (text : List Char) : String :=
  if text = "\x7b\x7d".toList then
    "44136fa355b3678a1146ad16f7e8649e94fb4fc21fe77e8310c060f61caaff8a"
  else if text = "\x7b\"a\":1\x7d".toList then
    "015abd7f5cc57a2dd94b7590f04ad8084273905ee33ec5cebeae62276a97f862"
  else "e5a71045b6b297a5ba41ee2a7551269c2ef5e7b0d5b1032456e17b6b7b373db5"

def raced : List Action :=
  [.ensure 7, .apply 7 0 [.obj [("a", .num ['1'])]], .ensure 7, .apply 7 0 [.obj [("b", .str "x")]],
    .apply 7 1 [.obj [("b", .str "x")], .obj [("a", .num ['2'])]]]

theorem mutations_replay_raced : ∃ (w : World) (row : Workspace) (events : List WorkspaceEvent),
    run (step demoSha256) .init raced = some w ∧ w.db.workspaces.get? 7 = some row ∧
      Json.render row.state = "\x7b\"a\":2,\"b\":\"x\"\x7d".toList ∧ events.length = 2 ∧
      Numbered w.db.workspaceEvents 7 events ∧ Replays demoSha256 events row ∧
      applyMutations demoSha256 w.db 7 0 [] = .ok (w.db, ⟨false, row.revision, row.stateHash⟩) := by
  have hdemo : ((run (step demoSha256) .init raced).any fun w =>
      (w.db.workspaces.get? 7).any fun row => decide (row.revision = 2) &&
        decide (Json.render row.state = "\x7b\"a\":2,\"b\":\"x\"\x7d".toList)) = true := by decide +kernel
  obtain ⟨w, hrun, h⟩ := (Option.any_eq_true _ _).mp hdemo
  obtain ⟨row, hrow, h⟩ := (Option.any_eq_true _ _).mp h
  simp only [Bool.and_eq_true, decide_eq_true_eq] at h
  obtain ⟨events, hnumbered, hreplays, -, hstale⟩ := mutations_replay demoSha256 hrun hrow
  refine ⟨w, row, events, hrun, hrow, h.2, ?_, hnumbered, hreplays, hstale 0 [] (by omega)⟩
  have hrevision := hreplays.revision
  omega

end Vingilot.Coordinator.Workspaces
