import Vingilot.Lib.Machine
import Vingilot.Lib.Collections
import Vingilot.Workflow.Schedule

/-! # The scheduler loop on any number of pods (`WorkflowEngine::run`)

Each pod works through its list of workflows one database call at a time. A call can fail
before or after it took effect, and a pod can crash between any two of them. Claims and
runs are shared. What a pod has fired is in its memory only.
-/

namespace Vingilot.Workflow

abbrev PodId := Nat

inductive TriggerDef where
  | schedule (cron interval : Option String)
  /-- Handled by `on_event`. -/
  | other

structure WorkflowDef where
  enabled : Bool
  trigger : TriggerDef

/-- `definition` is `none` when the stored JSON does not parse. -/
structure WorkflowRecord where
  id : Uuid
  communityId : CommunityId
  channelId : Option Uuid
  definition : Option WorkflowDef

/-- The primary key of `scheduled_workflow_fires`. -/
structure FireKey where
  communityId : CommunityId
  workflowId : Uuid
  scheduledFor : Int
deriving DecidableEq

/-- A claim. `winner` is the pod whose insert made the row. It is not a column. -/
structure ClaimRow where
  winner : PodId
  workflowRunId : Option Uuid

abbrev Claims := Table FireKey ClaimRow

inductive FireTrigger where
  | cron
  | interval (secs : Nat) (anchor : Int)
deriving DecidableEq

structure Fire where
  key : FireKey
  trigger : FireTrigger
deriving DecidableEq

/-- A workflow run. All but the id and the workflow is kept for the proofs. -/
structure Run where
  id : Uuid
  fire : Fire
  pod : PodId
  createdAt : Int
deriving DecidableEq

structure Pass where
  now : Int
  workflows : List WorkflowRecord
  rest : List WorkflowRecord

inductive Phase where
  | sleeping
  | scanning (pass : Pass)
  | claiming (pass : Pass) (fire : Fire)
  | creating (pass : Pass) (fire : Fire)
  | attaching (pass : Pass) (fire : Fire) (runId : Uuid)

abbrev LastFired := Table (CommunityId × Uuid) Int

structure Pod where
  lastFired : LastFired
  phase : Phase

structure World where
  clock : Int
  claims : Claims
  runs : List Run
  pods : PodId → Pod

def World.init (clock : Int) : World := ⟨clock, ∅, [], fun _ => ⟨∅, .sleeping⟩⟩

/-! ## The database calls -/

/-- `INSERT .. ON CONFLICT DO NOTHING RETURNING ..`. -/
def claimScheduledWorkflowFire (claims : Claims) (pod : PodId) (key : FireKey) : Claims × Bool :=
  match claims.get? key with
  | none => (claims.set key ⟨pod, none⟩, true)
  | some _ => (claims, false)

/-- `SELECT MAX(scheduled_for) ..`. -/
def latestScheduledWorkflowFire (claims : Claims) (communityId : CommunityId) (workflowId : Uuid) :
    Option Int :=
  (claims.toList.filterMap fun (key, _) =>
    if key.communityId = communityId ∧ key.workflowId = workflowId then some key.scheduledFor
    else none).max?

def attachScheduledWorkflowRun (claims : Claims) (key : FireKey) (runId : Uuid) : Claims :=
  claims.alter key fun row => row.map fun row =>
    if row.workflowRunId.isNone then { row with workflowRunId := some runId } else row

/-! ## The decision for one workflow -/

/-- The in-memory anchor if there is one, else the durable one. An unreadable anchor is
no anchor. -/
def resolveAnchor (lastFired : LastFired) (claims : Claims) (anchorReadable : Bool)
    (w : WorkflowRecord) : Option Int :=
  match lastFired.get? (w.communityId, w.id) with
  | some t => some t
  | none =>
    if anchorReadable then latestScheduledWorkflowFire claims w.communityId w.id else none

/-- `interval_prefilter_should_fire`, with the table it leaves. -/
def intervalPrefilterShouldFire (lastFired : LastFired) (w : WorkflowRecord) (dur : String)
    (last : Option Int) (now : Int) : LastFired × Bool :=
  if intervalShouldFire dur last now then (lastFired, true)
  else if last.isNone then (lastFired.set (w.communityId, w.id) now, false)
  else (lastFired, false)

def resolveFire (cron : CronParser) (lastFired : LastFired) (claims : Claims)
    (anchorReadable : Bool) (now : Int) (w : WorkflowRecord) : LastFired × Option Fire :=
  match w.definition with
  | none => (lastFired, none)
  | some d =>
    if !d.enabled then (lastFired, none)
    else if w.channelId.isNone then (lastFired, none)
    else
      match d.trigger with
      | .schedule (some expr) none =>
        match cronFireInstant cron expr now 60 with
        | some t => (lastFired, some ⟨⟨w.communityId, w.id, t⟩, .cron⟩)
        | none => (lastFired, none)
      | .schedule none (some dur) =>
        let last := resolveAnchor lastFired claims anchorReadable w
        match intervalPrefilterShouldFire lastFired w dur last now with
        | (lastFired, false) => (lastFired, none)
        | (lastFired, true) =>
          match parseDurationSecs dur, intervalFireInstant dur now with
          | .ok secs, some t =>
            (lastFired, some ⟨⟨w.communityId, w.id, t⟩, .interval secs (last.getD now)⟩)
          | _, _ => (lastFired, none)
      | _ => (lastFired, none)

/-- `last_fired.insert(..)`, for interval triggers only. -/
def noteFired (lastFired : LastFired) (fire : Fire) (now : Int) : LastFired :=
  match fire.trigger with
  | .cron => lastFired
  | .interval .. => lastFired.set (fire.key.communityId, fire.key.workflowId) now

/-- `last_fired.retain(..)`. -/
def pruneFired (lastFired : LastFired) (workflows : List WorkflowRecord) : LastFired :=
  lastFired.toList.foldl (fun kept (key, _) =>
    if workflows.any fun w => (w.communityId, w.id) == key then kept else kept.remove key) lastFired

/-! ## Steps -/

inductive CallEnd where
  | answered
  | failedBefore
  | failedAfter

inductive Action where
  | advance (nanos : Nat)
  | wake (pod : PodId) (now : Int) (workflows : List WorkflowRecord)
  | decide (pod : PodId) (anchorReadable authorized : Bool)
  | claim (pod : PodId) (callEnd : CallEnd)
  | claimNothing (pod : PodId)
  | create (pod : PodId) (callEnd : CallEnd) (runId : Uuid)
  | attach (pod : PodId) (callEnd : CallEnd)
  | finish (pod : PodId)
  | crash (pod : PodId)

def World.setPod (s : World) (pod : PodId) (p : Pod) : World :=
  { s with pods := Function.update s.pods pod p }

def World.continue (s : World) (pod : PodId) (lastFired : LastFired) (pass : Pass) : World :=
  s.setPod pod ⟨lastFired, .scanning pass⟩

def step (cron : CronParser) (s : World) : Action → Option World
  | .advance nanos => some { s with clock := s.clock + nanos }
  | .wake pod now workflows =>
    match (s.pods pod).phase with
    | .sleeping =>
      some (s.setPod pod ⟨(s.pods pod).lastFired, .scanning ⟨now, workflows, workflows⟩⟩)
    | _ => none
  | .decide pod anchorReadable authorized =>
    match (s.pods pod).phase with
    | .scanning ⟨now, workflows, w :: rest⟩ =>
      let pass : Pass := ⟨now, workflows, rest⟩
      match resolveFire cron (s.pods pod).lastFired s.claims anchorReadable now w with
      | (lastFired, none) => some (s.continue pod lastFired pass)
      | (lastFired, some fire) =>
        if authorized then some (s.setPod pod ⟨lastFired, .claiming pass fire⟩)
        else some (s.continue pod lastFired pass)
    | _ => none
  | .claim pod callEnd =>
    match (s.pods pod).phase with
    | .claiming pass fire =>
      let lastFired := (s.pods pod).lastFired
      let (claims, won) := claimScheduledWorkflowFire s.claims pod fire.key
      match callEnd with
      | .answered =>
        if won then some ({ s with claims := claims }.setPod pod ⟨lastFired, .creating pass fire⟩)
        else some (s.continue pod (noteFired lastFired fire pass.now) pass)
      | .failedBefore => some (s.continue pod lastFired pass)
      | .failedAfter => some ({ s with claims := claims }.continue pod lastFired pass)
    | _ => none
  | .claimNothing pod =>
    match (s.pods pod).phase with
    | .claiming pass fire =>
      some (s.continue pod (noteFired (s.pods pod).lastFired fire pass.now) pass)
    | _ => none
  | .create pod callEnd runId =>
    match (s.pods pod).phase with
    | .creating pass fire =>
      let lastFired := (s.pods pod).lastFired
      let runs := s.runs ++ [⟨runId, fire, pod, s.clock⟩]
      match callEnd with
      | .answered =>
        some ({ s with runs := runs }.setPod pod ⟨lastFired, .attaching pass fire runId⟩)
      | .failedBefore => some (s.continue pod lastFired pass)
      | .failedAfter => some ({ s with runs := runs }.continue pod lastFired pass)
    | _ => none
  | .attach pod callEnd =>
    match (s.pods pod).phase with
    | .attaching pass fire runId =>
      let claims := match callEnd with
        | .failedBefore => s.claims
        | _ => attachScheduledWorkflowRun s.claims fire.key runId
      some ({ s with claims := claims }.continue pod
        (noteFired (s.pods pod).lastFired fire pass.now) pass)
    | _ => none
  | .finish pod =>
    match (s.pods pod).phase with
    | .scanning ⟨_, workflows, []⟩ =>
      some (s.setPod pod ⟨pruneFired (s.pods pod).lastFired workflows, .sleeping⟩)
    | _ => none
  | .crash pod => some (s.setPod pod ⟨∅, .sleeping⟩)

@[simp]
theorem setPod_self (s : World) (pod : PodId) (p : Pod) : (s.setPod pod p).pods pod = p :=
  Function.update_self ..

@[simp]
theorem setPod_of_ne (s : World) {pod pod' : PodId} (p : Pod) (h : pod' ≠ pod) :
    (s.setPod pod p).pods pod' = s.pods pod' := Function.update_of_ne h ..

end Vingilot.Workflow
