import Vingilot.Lib.Machine
import Vingilot.ReadState.Snapshot

/-!
# The read-state manager

`ReadStateManager` of `readStateManager.ts`. What runs between two `await`s is one
step, so calls of `mergeEvents`, incoming events and local marks interleave at every
event. Timers, listeners, local writes and publishing are left out: none of them
writes `effectiveState`.
-/

namespace Vingilot.ReadState

open Js

/-! ## State -/

/-- A call of `mergeEvents` that has not returned. -/
structure MergeCall where
  /-- Events the first loop has not reached. -/
  toMerge : List RelayEvent
  /-- Events the second loop has not reached. -/
  toCheck : List RelayEvent
  ownBlobsBySlot : Table Str (ReadStateBlob × Int)

def MergeCall.recordOwn (call : MergeCall) (clientId : Str) (parsed : ParsedReadStateEvent) :
    Table Str (ReadStateBlob × Int) :=
  if parsed.blob.clientId = clientId then
    match call.ownBlobsBySlot.get? parsed.dTag with
    | some existing =>
      if existing.2 < parsed.createdAt then
        call.ownBlobsBySlot.set parsed.dTag (parsed.blob, parsed.createdAt)
      else call.ownBlobsBySlot
    | none => call.ownBlobsBySlot.set parsed.dTag (parsed.blob, parsed.createdAt)
  else call.ownBlobsBySlot

structure Manager where
  pubkey : Str
  clientId : Str
  slotId : Str
  effectiveState : Table ContextId Number
  publishableContextIds : List ContextId
  lastPublishedContexts : Table ContextId Number
  maxFetchedCreatedAt : Int
  contextSourceCreatedAt : Table ContextId Int
  pendingSyncedAdvances : List ContextId
  destroyed : Bool
  merges : Table Nat MergeCall

/-! ## Start -/

/-- `mergeLocalStorageKey`: each stored value with what `localIsoToUnixSeconds` makes
of it. -/
def mergeLocalStorageKey (contexts : Table ContextId Number)
    (stored : List (ContextId × Option Int)) : Table ContextId Number :=
  stored.foldl
    (fun contexts entry =>
      match entry.2 with
      | none => contexts
      | some seconds =>
        let current := (contexts.get? entry.1).getD 0
        if current.lt (.num ((seconds : ℚ) : WithTop ℚ)) then
          contexts.set entry.1 (.num ((seconds : ℚ) : WithTop ℚ))
        else contexts) contexts

structure Stored where
  contexts : List (ContextId × Option Int)
  publishableContextIds : List ContextId
  contextSourceCreatedAt : Table ContextId Int

/-- A new manager once `initialize` has read the local storage, which it does before
its first `await`. -/
def Manager.hydrated (pubkey clientId slotId : Str) (stored : Stored) : Manager where
  pubkey := pubkey
  clientId := clientId
  slotId := slotId
  effectiveState := mergeLocalStorageKey ∅ stored.contexts
  publishableContextIds := stored.publishableContextIds.foldl pushNew []
  lastPublishedContexts := ∅
  maxFetchedCreatedAt := 0
  contextSourceCreatedAt := stored.contextSourceCreatedAt
  pendingSyncedAdvances := []
  destroyed := false
  merges := ∅

/-! ## Marks -/

namespace Manager

def advanceContext (m : Manager) (contextId : ContextId) (unixTimestamp : Number)
    (publishable : Bool) : Manager :=
  if m.destroyed then m
  else
    let current := (m.effectiveState.get? contextId).getD 0
    if unixTimestamp.le current then
      if publishable then
        { m with publishableContextIds := pushNew m.publishableContextIds contextId }
      else m
    else
      { m with
        effectiveState := m.effectiveState.set contextId unixTimestamp
        publishableContextIds :=
          if publishable then pushNew m.publishableContextIds contextId
          else m.publishableContextIds }

def markContextRead (m : Manager) (contextId : ContextId) (unixTimestamp : Number) (now : Int) :
    Manager :=
  let m := m.advanceContext contextId unixTimestamp true
  { m with
    contextSourceCreatedAt :=
      m.contextSourceCreatedAt.set contextId (max now (m.maxFetchedCreatedAt + 1)) }

def seedContextRead (m : Manager) (contextId : ContextId) (unixTimestamp : Number) : Manager :=
  m.advanceContext contextId unixTimestamp false

/-! ## Remote contexts -/

inductive ApplyRemoteContextResult where
  | unchanged
  | advanced
  deriving DecidableEq

def resolveRemoteContextTimestamp (current timestamp : Number) :
    Number × ApplyRemoteContextResult :=
  let next := current.max timestamp
  (next, if next.same current then .unchanged else .advanced)

def applyRemoteContextTimestamp (m : Manager) (contextId : ContextId) (timestamp : Number)
    (eventCreatedAt : Int) : Manager × ApplyRemoteContextResult :=
  let sourceCreatedAt := (m.contextSourceCreatedAt.get? contextId).getD 0
  let current := (m.effectiveState.get? contextId).getD 0
  let (next, result) := resolveRemoteContextTimestamp current timestamp
  ({ m with
      effectiveState :=
        if result = .advanced then m.effectiveState.set contextId next else m.effectiveState
      contextSourceCreatedAt :=
        if sourceCreatedAt < eventCreatedAt then
          m.contextSourceCreatedAt.set contextId eventCreatedAt
        else m.contextSourceCreatedAt },
    result)

/-- The loop body of `mergeEvents` for one context. -/
def mergeContext (createdAt : Int) (m : Manager) (entry : ContextId × Number) : Manager :=
  let (m, result) := m.applyRemoteContextTimestamp entry.1 entry.2 createdAt
  if result = .advanced then
    { m with
      pendingSyncedAdvances := pushNew m.pendingSyncedAdvances entry.1
      publishableContextIds := pushNew m.publishableContextIds entry.1 }
  else m

/-- The loop body of `handleIncomingEvent` for one context. -/
def receiveContext (createdAt : Int) (m : Manager) (entry : ContextId × Number) : Manager :=
  let (m, result) := m.applyRemoteContextTimestamp entry.1 entry.2 createdAt
  { m with
    pendingSyncedAdvances :=
      if result = .advanced then pushNew m.pendingSyncedAdvances entry.1
      else m.pendingSyncedAdvances
    publishableContextIds := pushNew m.publishableContextIds entry.1 }

def fetchedUpTo (m : Manager) (createdAt : Int) : Manager :=
  { m with maxFetchedCreatedAt := max m.maxFetchedCreatedAt createdAt }

/-! ## Events -/

def reads (m : Manager) (event : RelayEvent) (opened : Option Value) :
    Option ParsedReadStateEvent :=
  if m.destroyed then none else parseReadStateEvent event m.pubkey opened

/-- One round of the first loop of `mergeEvents`, from the parsed event on. -/
def mergeEvent (m : Manager) (id : Nat) (opened : Option Value) : Option Manager :=
  match m.merges.get? id with
  | some call =>
    match call.toMerge with
    | event :: rest =>
      if m.destroyed then some { m with merges := m.merges.remove id }
      else
        match m.reads event opened with
        | none => some { m with merges := m.merges.set id { call with toMerge := rest } }
        | some parsed =>
          let m := parsed.blob.contexts.toList.foldl (mergeContext parsed.createdAt)
            (m.fetchedUpTo parsed.createdAt)
          some { m with
            merges := m.merges.set id
              { call with
                toMerge := rest
                ownBlobsBySlot := call.recordOwn m.clientId parsed } }
    | [] => none
  | none => none

def checkEvent (m : Manager) (id : Nat) (opened : Option Value) (freshSlotId : Str) :
    Option Manager :=
  match m.merges.get? id with
  | some call =>
    match call.toMerge, call.toCheck with
    | [], event :: rest =>
      if m.destroyed then some { m with merges := m.merges.remove id }
      else
        let goOn := { m with merges := m.merges.set id { call with toCheck := rest } }
        match m.reads event opened with
        | none => some goOn
        | some parsed =>
          if parsed.dTag ≠ readStateDTagPrefix ++ m.slotId then some goOn
          else if parsed.blob.clientId ≠ m.clientId then
            some { m with
              slotId := freshSlotId
              merges := m.merges.set id { call with toCheck := [] } }
          else some goOn
    | _, _ => none
  | none => none

def unionContexts (blobs : List ReadStateBlob) : Table ContextId Number :=
  blobs.foldl
    (fun union blob =>
      blob.contexts.toList.foldl
        (fun union entry =>
          match union.get? entry.1 with
          | none => union.set entry.1 entry.2
          | some existing => if existing.lt entry.2 then union.set entry.1 entry.2 else union)
        union) ∅

/-- The end of `mergeEvents`. -/
def finishMerge (m : Manager) (id : Nat) : Option Manager :=
  match m.merges.get? id with
  | some ⟨[], [], own⟩ =>
    let m := { m with merges := m.merges.remove id }
    let blobs := own.toList.map fun slot => slot.2.1
    if blobs = [] then some m
    else
      some { m with
        lastPublishedContexts := unionContexts blobs
        publishableContextIds :=
          (blobs.flatMap fun blob => blob.contexts.toList.map Prod.fst).foldl pushNew
            m.publishableContextIds }
  | _ => none

def handleIncomingEvent (m : Manager) (event : RelayEvent) (opened : Option Value) : Manager :=
  if m.destroyed = true ∨ event.pubkey ≠ m.pubkey then m
  else
    match m.reads event opened with
    | none => m
    | some parsed =>
      parsed.blob.contexts.toList.foldl (receiveContext parsed.createdAt)
        (m.fetchedUpTo parsed.createdAt)

end Manager

/-! ## Steps -/

inductive Action where
  | markContextRead (contextId : ContextId) (unixTimestamp : Number) (now : Int)
  | seedContextRead (contextId : ContextId) (unixTimestamp : Number)
  /-- A fetch of `fetchAndMerge` or `fetchOwnBlobBeforePublish` returned. -/
  | fetched (id : Nat) (events : List RelayEvent)
  | mergeEvent (id : Nat) (opened : Option Value)
  | checkEvent (id : Nat) (opened : Option Value) (freshSlotId : Str)
  | finishMerge (id : Nat)
  | handleIncomingEvent (event : RelayEvent) (opened : Option Value)
  | drainSyncedAdvances
  | destroy

def step (m : Manager) : Action → Option Manager
  | .markContextRead contextId unixTimestamp now =>
    some (m.markContextRead contextId unixTimestamp now)
  | .seedContextRead contextId unixTimestamp => some (m.seedContextRead contextId unixTimestamp)
  | .fetched id events =>
    if m.destroyed = true then some m
    else if (m.merges.get? id).isSome then none
    else some { m with merges := m.merges.set id ⟨events, events, ∅⟩ }
  | .mergeEvent id opened => m.mergeEvent id opened
  | .checkEvent id opened freshSlotId => m.checkEvent id opened freshSlotId
  | .finishMerge id => m.finishMerge id
  | .handleIncomingEvent event opened => some (m.handleIncomingEvent event opened)
  | .drainSyncedAdvances => some { m with pendingSyncedAdvances := [] }
  | .destroy => some { m with destroyed := true }

end Vingilot.ReadState
