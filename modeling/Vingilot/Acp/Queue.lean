import Mathlib.Data.List.Sort
import Vingilot.Core
import Vingilot.Lib.Collections

/-!
# The event queue of the agent harness (`buzz-acp/src/queue.rs`)

One queue for each channel, and beside it the events that wait for something else: withheld for a
steer, or left by a cancelled turn. An `Instant` is a number of nanoseconds. Where the code takes the
first entry of a hash map, the entry is an argument.
-/

namespace Vingilot.Acp

def maxPendingPerChannel : Nat := 500

def maxBatchEvents : Nat := 50

def maxRetries : Nat := 10

def inFlightDeadlineBufferSecs : Nat := 100

def defaultInFlightDeadlineSecs : Nat := 7300

def secs (n : Nat) : Nat := n * 1000000000

inductive DedupMode where
  | drop
  | queue
deriving DecidableEq

structure BatchEvent where
  event : Event
  promptTag : String
  receivedAt : Nat
deriving DecidableEq

structure QueuedEvent where
  channelId : Uuid
  event : Event
  receivedAt : Nat
  promptTag : String

def QueuedEvent.toBatch (e : QueuedEvent) : BatchEvent := ⟨e.event, e.promptTag, e.receivedAt⟩

def BatchEvent.toQueued (e : BatchEvent) (channelId : Uuid) : QueuedEvent :=
  ⟨channelId, e.event, e.receivedAt, e.promptTag⟩

inductive CancelReason where
  | interrupt
  | steer

structure FlushBatch where
  channelId : Uuid
  events : List BatchEvent
  cancelledEvents : List BatchEvent
  cancelReason : Option CancelReason

def FlushBatch.queued (batch : FlushBatch) : List QueuedEvent :=
  batch.events.map fun e => e.toQueued batch.channelId

structure EventQueue where
  queues : Table Uuid (List QueuedEvent)
  inFlightChannels : Table Uuid Unit
  inFlightDeadlines : Table Uuid Nat
  retryAfter : Table Uuid Nat
  retryCounts : Table Uuid Nat
  dedupMode : DedupMode
  cancelledBatches : Table Uuid (List BatchEvent)
  cancelReasons : Table Uuid CancelReason
  withheldNativeSteer : Table Uuid (List QueuedEvent)
  inFlightDeadline : Nat

namespace EventQueue

def new (dedupMode : DedupMode) : EventQueue :=
  ⟨∅, ∅, ∅, ∅, ∅, dedupMode, ∅, ∅, ∅, secs defaultInFlightDeadlineSecs⟩

def withInFlightDeadline (q : EventQueue) (maxTurnDurationSecs : Nat) : EventQueue :=
  { q with inFlightDeadline := secs (maxTurnDurationSecs + inFlightDeadlineBufferSecs) }

/-- `queues.entry(channel_id).or_default()`. -/
def queueOf (q : EventQueue) (channelId : Uuid) : List QueuedEvent :=
  (q.queues.get? channelId).getD []

def withheldOf (q : EventQueue) (channelId : Uuid) : List QueuedEvent :=
  (q.withheldNativeSteer.get? channelId).getD []

def cancelledOf (q : EventQueue) (channelId : Uuid) : List BatchEvent :=
  (q.cancelledBatches.get? channelId).getD []

def isInFlight (q : EventQueue) (channelId : Uuid) : Bool :=
  (q.inFlightChannels.get? channelId).isSome

def putQueue (q : EventQueue) (channelId : Uuid) (queue : List QueuedEvent) : EventQueue :=
  { q with queues := q.queues.set channelId queue }

def setQueue (q : EventQueue) (channelId : Uuid) (queue : List QueuedEvent) : EventQueue :=
  if queue.isEmpty then { q with queues := q.queues.remove channelId }
  else q.putQueue channelId queue

def setWithheld (q : EventQueue) (channelId : Uuid) (entries : List QueuedEvent) : EventQueue :=
  if entries.isEmpty then
    { q with withheldNativeSteer := q.withheldNativeSteer.remove channelId }
  else { q with withheldNativeSteer := q.withheldNativeSteer.set channelId entries }

def pushFront (q : EventQueue) (channelId : Uuid) (events : List QueuedEvent) : EventQueue :=
  q.putQueue channelId ((events ++ q.queueOf channelId).take maxPendingPerChannel)

section Setters

variable (q : EventQueue) (c c' : Uuid)

@[simp]
theorem queueOf_putQueue (l : List QueuedEvent) :
    (q.putQueue c l).queueOf c' = if c' = c then l else q.queueOf c' := by
  unfold putQueue queueOf
  split_ifs with hc <;> simp [hc]

@[simp]
theorem withheldOf_putQueue (l : List QueuedEvent) :
    (q.putQueue c l).withheldOf c' = q.withheldOf c' := rfl

@[simp]
theorem cancelledOf_putQueue (l : List QueuedEvent) :
    (q.putQueue c l).cancelledOf c' = q.cancelledOf c' := rfl

@[simp]
theorem queueOf_setQueue (l : List QueuedEvent) :
    (q.setQueue c l).queueOf c' = if c' = c then l else q.queueOf c' := by
  unfold setQueue
  split_ifs with hempty hc hc
  · simp [queueOf, hc, List.isEmpty_iff.mp hempty]
  · simp [queueOf, hc]
  · simp [hc]
  · simp [hc]

@[simp]
theorem withheldOf_setQueue (l : List QueuedEvent) :
    (q.setQueue c l).withheldOf c' = q.withheldOf c' := by
  unfold setQueue
  split_ifs <;> rfl

@[simp]
theorem cancelledOf_setQueue (l : List QueuedEvent) :
    (q.setQueue c l).cancelledOf c' = q.cancelledOf c' := by
  unfold setQueue
  split_ifs <;> rfl

@[simp]
theorem withheldOf_setWithheld (l : List QueuedEvent) :
    (q.setWithheld c l).withheldOf c' = if c' = c then l else q.withheldOf c' := by
  unfold setWithheld withheldOf
  split_ifs with hempty hc hc
  · simp [hc, List.isEmpty_iff.mp hempty]
  · simp [hc]
  · simp [hc]
  · simp [hc]

theorem queues_setWithheld (l : List QueuedEvent) : (q.setWithheld c l).queues = q.queues := by
  unfold setWithheld
  split_ifs <;> rfl

@[simp]
theorem queueOf_setWithheld (l : List QueuedEvent) :
    (q.setWithheld c l).queueOf c' = q.queueOf c' := by
  unfold setWithheld
  split_ifs <;> rfl

@[simp]
theorem cancelledOf_setWithheld (l : List QueuedEvent) :
    (q.setWithheld c l).cancelledOf c' = q.cancelledOf c' := by
  unfold setWithheld
  split_ifs <;> rfl

@[simp]
theorem queueOf_pushFront (l : List QueuedEvent) :
    (q.pushFront c l).queueOf c' =
      if c' = c then (l ++ q.queueOf c).take maxPendingPerChannel else q.queueOf c' := by
  rw [pushFront, queueOf_putQueue]

@[simp]
theorem withheldOf_pushFront (l : List QueuedEvent) :
    (q.pushFront c l).withheldOf c' = q.withheldOf c' := rfl

@[simp]
theorem cancelledOf_pushFront (l : List QueuedEvent) :
    (q.pushFront c l).cancelledOf c' = q.cancelledOf c' := rfl

end Setters

def extendInFlightDeadline (q : EventQueue) (channelId : Uuid) (maxTurnSecs now : Nat) :
    EventQueue :=
  match q.inFlightDeadlines.get? channelId with
  | some current =>
    let extended := now + secs (maxTurnSecs + inFlightDeadlineBufferSecs)
    if current < extended then
      { q with inFlightDeadlines := q.inFlightDeadlines.set channelId extended }
    else q
  | none => q

theorem extendInFlightDeadline_cases (q : EventQueue) (c : Uuid) (maxTurnSecs now : Nat) :
    q.extendInFlightDeadline c maxTurnSecs now = q ∨
      ∃ current extended, q.inFlightDeadlines.get? c = some current ∧ current < extended ∧
        q.extendInFlightDeadline c maxTurnSecs now =
          { q with inFlightDeadlines := q.inFlightDeadlines.set c extended } := by
  unfold extendInFlightDeadline
  cases q.inFlightDeadlines.get? c with
  | none => exact .inl rfl
  | some current =>
    dsimp only
    split_ifs with hlater
    · exact .inr ⟨current, _, rfl, hlater, rfl⟩
    · exact .inl rfl

def push (q : EventQueue) (e : QueuedEvent) : EventQueue × Bool :=
  if q.dedupMode = .drop ∧ q.isInFlight e.channelId then (q, false)
  else
    let queue := q.queueOf e.channelId
    let room := if maxPendingPerChannel ≤ queue.length then queue.drop 1 else queue
    (q.putQueue e.channelId (room ++ [e]), true)

/-! ## In-flight channels that expire -/

def recoverWithheldForExpiredChannel (q : EventQueue) (channelId : Uuid) : EventQueue :=
  match q.withheldNativeSteer.get? channelId with
  | none => q
  | some entries =>
    { q with withheldNativeSteer := q.withheldNativeSteer.remove channelId }.pushFront channelId
      entries

def land (q : EventQueue) (channelId : Uuid) : EventQueue :=
  { q with
    inFlightChannels := q.inFlightChannels.remove channelId
    inFlightDeadlines := q.inFlightDeadlines.remove channelId }

def expireChannel (q : EventQueue) (channelId : Uuid) : EventQueue :=
  (q.land channelId).recoverWithheldForExpiredChannel channelId

theorem expireChannel_cases (q : EventQueue) (c : Uuid) :
    (q.withheldNativeSteer.get? c = none ∧ q.expireChannel c = q.land c) ∨
      ∃ entries, q.withheldNativeSteer.get? c = some entries ∧
        q.expireChannel c = { q.land c with
          withheldNativeSteer := q.withheldNativeSteer.remove c }.pushFront c entries := by
  unfold expireChannel recoverWithheldForExpiredChannel
  have hland : (q.land c).withheldNativeSteer = q.withheldNativeSteer := rfl
  rw [hland]
  cases q.withheldNativeSteer.get? c with
  | none => exact .inl ⟨rfl, rfl⟩
  | some entries => exact .inr ⟨entries, rfl, rfl⟩

def expired (q : EventQueue) (now : Nat) : List Uuid :=
  (q.inFlightDeadlines.toList.filter fun x => x.2 ≤ now).map Prod.fst

/-- The block at the start of `flush_next` and of `has_flushable_work`. -/
def expire (q : EventQueue) (now : Nat) : EventQueue := (q.expired now).foldl expireChannel q

/-! ## Flushing -/

def ready (q : EventQueue) (now : Nat) (channelId : Uuid) : Bool :=
  !(q.queueOf channelId).isEmpty && !q.isInFlight channelId &&
    (q.retryAfter.get? channelId).all (· ≤ now)

def headReceivedAt (q : EventQueue) (channelId : Uuid) : Nat :=
  ((q.queueOf channelId).head?.map (·.receivedAt)).getD 0

def readyChannels (q : EventQueue) (now : Nat) : List Uuid :=
  (q.queues.toList.map Prod.fst).filter (q.ready now)

def cancelledChannels (q : EventQueue) : List Uuid :=
  (q.cancelledBatches.toList.map Prod.fst).filter fun c => !q.isInFlight c

def takeOff (q : EventQueue) (channelId : Uuid) (now : Nat) : EventQueue :=
  { q with
    inFlightChannels := q.inFlightChannels.set channelId ()
    inFlightDeadlines := q.inFlightDeadlines.set channelId (now + q.inFlightDeadline) }

def clearCancelled (q : EventQueue) (channelId : Uuid) : EventQueue :=
  { q with
    cancelledBatches := q.cancelledBatches.remove channelId
    cancelReasons := q.cancelReasons.remove channelId }

def drainReady (q : EventQueue) (channelId : Uuid) (now : Nat) : EventQueue × FlushBatch :=
  let queue := q.queueOf channelId
  let events := ((queue.take maxBatchEvents).map (·.toBatch)).insertionSort fun a b =>
    a.event.createdAt ≤ b.event.createdAt
  let cancelledEvents := q.cancelledOf channelId
  let cancelReason :=
    if cancelledEvents.isEmpty then none else q.cancelReasons.get? channelId
  (((q.setQueue channelId (queue.drop maxBatchEvents)).takeOff channelId now).clearCancelled
    channelId, ⟨channelId, events, cancelledEvents, cancelReason⟩)

def redispatch (q : EventQueue) (channelId : Uuid) (now : Nat) : EventQueue × FlushBatch :=
  let batch : FlushBatch :=
    ⟨channelId, q.cancelledOf channelId, [], q.cancelReasons.get? channelId⟩
  ((q.clearCancelled channelId).takeOff channelId now, batch)

section TakeOff

variable (q : EventQueue) (c c' : Uuid) (now : Nat)

@[simp]
theorem queueOf_takeOff : (q.takeOff c now).queueOf c' = q.queueOf c' := rfl

@[simp]
theorem withheldOf_takeOff : (q.takeOff c now).withheldOf c' = q.withheldOf c' := rfl

@[simp]
theorem cancelledOf_takeOff : (q.takeOff c now).cancelledOf c' = q.cancelledOf c' := rfl

@[simp]
theorem queueOf_clearCancelled : (q.clearCancelled c).queueOf c' = q.queueOf c' := rfl

@[simp]
theorem withheldOf_clearCancelled : (q.clearCancelled c).withheldOf c' = q.withheldOf c' := rfl

@[simp]
theorem cancelledOf_clearCancelled :
    (q.clearCancelled c).cancelledOf c' = if c' = c then [] else q.cancelledOf c' := by
  unfold clearCancelled cancelledOf
  split_ifs with hc <;> simp [hc]

end TakeOff

/-- `flush_next`. The argument `pick` is the channel that the iteration over the map gives: of the
ready channels one with the oldest head, else any one with cancelled events. -/
def flushNext (q : EventQueue) (now : Nat) (pick : Uuid) : Option (EventQueue × Option FlushBatch) :=
  let q := q.expire now
  if q.readyChannels now ≠ [] then
    if pick ∈ q.readyChannels now ∧
        (q.readyChannels now).all fun c => q.headReceivedAt pick ≤ q.headReceivedAt c then
      some ((q.drainReady pick now).map id some)
    else none
  else if q.cancelledChannels ≠ [] then
    if pick ∈ q.cancelledChannels then some ((q.redispatch pick now).map id some) else none
  else some (q, none)

def hasFlushableWork (q : EventQueue) (now : Nat) : EventQueue × Bool :=
  let q := q.expire now
  (q, q.readyChannels now ≠ [] || q.cancelledChannels ≠ [])

/-! ## Returned batches -/

def markComplete (q : EventQueue) (channelId : Uuid) (now : Nat) : EventQueue :=
  let q := q.land channelId
  match q.retryAfter.get? channelId with
  | some deadline =>
    if now < deadline then q
    else { q with
      retryAfter := q.retryAfter.remove channelId
      retryCounts := q.retryCounts.remove channelId }
  | none => { q with retryCounts := q.retryCounts.remove channelId }

theorem markComplete_cases (q : EventQueue) (c : Uuid) (now : Nat) :
    ∃ retryAfter retryCounts,
      q.markComplete c now = { q.land c with retryAfter, retryCounts } := by
  unfold markComplete
  dsimp only
  cases (q.land c).retryAfter.get? c with
  | none => exact ⟨_, _, rfl⟩
  | some deadline =>
    dsimp only
    split_ifs
    · exact ⟨_, _, rfl⟩
    · exact ⟨_, _, rfl⟩

def attempt (q : EventQueue) (channelId : Uuid) : Nat := (q.retryCounts.get? channelId).getD 0 + 1

/-- `requeue`, with the delay that the backoff and its jitter give. A batch that has used up its
retries comes back. The cancelled events of the batch are not read. -/
def requeue (q : EventQueue) (batch : FlushBatch) (now delay : Nat) :
    EventQueue × Option FlushBatch :=
  let channelId := batch.channelId
  let attempt := q.attempt channelId
  if maxRetries < attempt then
    ({ q with
      retryCounts := q.retryCounts.remove channelId
      retryAfter := q.retryAfter.remove channelId }, some batch)
  else
    let q := { q with retryCounts := q.retryCounts.set channelId attempt }.pushFront channelId
      batch.queued
    ({ q with retryAfter := q.retryAfter.set channelId (now + delay) }, none)

def requeuePreserveTimestamps (q : EventQueue) (batch : FlushBatch) : EventQueue :=
  q.pushFront batch.channelId batch.queued

def requeueAsCancelled (q : EventQueue) (batch : FlushBatch) (reason : CancelReason) : EventQueue :=
  { q with
    cancelledBatches := q.cancelledBatches.set batch.channelId
      (q.cancelledOf batch.channelId ++ batch.cancelledEvents ++ batch.events)
    cancelReasons := q.cancelReasons.set batch.channelId reason }

/-- `drain_channel`, with the ids of the queued events. -/
def drainChannel (q : EventQueue) (channelId : Uuid) : EventQueue × List String :=
  ({ q with
    queues := q.queues.remove channelId
    retryAfter := q.retryAfter.remove channelId
    retryCounts := q.retryCounts.remove channelId
    cancelledBatches := q.cancelledBatches.remove channelId
    cancelReasons := q.cancelReasons.remove channelId
    withheldNativeSteer := q.withheldNativeSteer.remove channelId },
    (q.queueOf channelId).map (·.event.id))

/-! ## Steers -/

def hasId (eventId : String) (e : QueuedEvent) : Bool := e.event.id = eventId

def markNativeSteerPending (q : EventQueue) (channelId : Uuid) (eventId : String) :
    EventQueue × Bool :=
  match (q.queueOf channelId).find? (hasId eventId) with
  | none => (q, false)
  | some e =>
    ((q.setQueue channelId ((q.queueOf channelId).eraseP (hasId eventId))).setWithheld channelId
      (q.withheldOf channelId ++ [e]), true)

def releaseNativeSteer (q : EventQueue) (channelId : Uuid) (eventId : String) : EventQueue :=
  match (q.withheldOf channelId).find? (hasId eventId) with
  | none => q
  | some e =>
    (q.setWithheld channelId ((q.withheldOf channelId).eraseP (hasId eventId))).pushFront channelId
      [e]

def removeEvent (q : EventQueue) (channelId : Uuid) (eventId : String) : EventQueue :=
  let q := if (q.withheldNativeSteer.get? channelId).isSome then
      q.setWithheld channelId ((q.withheldOf channelId).filter fun e => !hasId eventId e)
    else q
  if (q.queues.get? channelId).isSome then
    q.setQueue channelId ((q.queueOf channelId).filter fun e => !hasId eventId e)
  else q

def compactExpiredState (q : EventQueue) (now : Nat) : EventQueue :=
  let q := { q with retryAfter := q.retryAfter.removeWhere fun x => x.2 ≤ now }
  { q with
    retryCounts := q.retryCounts.removeWhere fun x =>
      !((q.retryAfter.get? x.1).isSome || !(q.queueOf x.1).isEmpty || q.isInFlight x.1) }

end EventQueue

/-! ## Runs -/

structure Handed where
  batch : FlushBatch
  deadline : Nat
  completed : Bool

def Handed.complete (channelId : Uuid) (h : Handed) : Handed :=
  if h.batch.channelId = channelId then { h with completed := true } else h

def Handed.extend (channelId : Uuid) (before after : Option Nat) (h : Handed) : Handed :=
  if h.batch.channelId = channelId ∧ before = some h.deadline ∧ h.completed = false then
    { h with deadline := after.getD h.deadline }
  else h

inductive Fate where
  | delivered
  | deadLettered
  | drained
  | removed
  | capped

structure Item where
  channelId : Uuid
  event : BatchEvent
deriving DecidableEq

def items (channelId : Uuid) (events : List BatchEvent) : List Item := events.map (⟨channelId, ·⟩)

def queuedItems (channelId : Uuid) (events : List QueuedEvent) : List Item :=
  items channelId (events.map (·.toBatch))

def FlushBatch.items (batch : FlushBatch) : List Item :=
  Acp.items batch.channelId (batch.events ++ batch.cancelledEvents)

/-- All but the queue, the clock and the batches that are held is kept for the statements only. -/
structure World where
  queue : EventQueue
  clock : Nat
  handed : List Handed
  accepted : List Item
  gone : List (Fate × Item)
  lost : List Item
  flushed : List FlushBatch

def World.init (queue : EventQueue) : World := ⟨queue, 0, [], [], [], [], []⟩

inductive Action where
  | tick (nanos : Nat)
  | push (e : QueuedEvent)
  | flushNext (pick : Uuid)
  | hasFlushableWork
  | markComplete (channelId : Uuid)
  | deliver (i : Nat)
  | requeue (i delay : Nat)
  | requeuePreserveTimestamps (i : Nat)
  | requeueAsCancelled (i : Nat) (reason : CancelReason)
  | drainChannel (channelId : Uuid)
  | extendInFlightDeadline (channelId : Uuid) (maxTurnSecs : Nat)
  | markNativeSteerPending (channelId : Uuid) (eventId : String)
  | releaseNativeSteer (channelId : Uuid) (eventId : String)
  | removeEvent (channelId : Uuid) (eventId : String)
  | compactExpiredState

/-- What `push` drops to make room. -/
def EventQueue.evicted (q : EventQueue) (channelId : Uuid) : List QueuedEvent :=
  if maxPendingPerChannel ≤ (q.queueOf channelId).length then (q.queueOf channelId).take 1 else []

/-- What `pushFront` trims. -/
def EventQueue.overflow (q : EventQueue) (channelId : Uuid) (events : List QueuedEvent) :
    List Item :=
  queuedItems channelId ((events ++ q.queueOf channelId).drop maxPendingPerChannel)

def EventQueue.recoveryOverflow (q : EventQueue) : List Uuid → List Item
  | [] => []
  | c :: cs =>
    (if (q.withheldNativeSteer.get? c).isSome then q.overflow c (q.withheldOf c) else []) ++
      (q.expireChannel c).recoveryOverflow cs

def EventQueue.releaseOverflow (q : EventQueue) (c : Uuid) (id : String) : List Item :=
  match (q.withheldOf c).find? (EventQueue.hasId id) with
  | none => []
  | some e => q.overflow c [e]

def World.leave (w : World) (fate : Fate) (items : List Item) : World :=
  { w with gone := w.gone ++ items.map (fate, ·) }

def World.afterExpiry (w : World) (queue : EventQueue) : World :=
  { w with queue }.leave .capped (w.queue.recoveryOverflow (w.queue.expired w.clock))

def World.give (w : World) (i : Nat) : World := { w with handed := w.handed.eraseIdx i }

def World.batch? (w : World) (i : Nat) : Option FlushBatch := (w.handed[i]?).map (·.batch)

def step (w : World) : Action → Option World
  | .tick nanos => some { w with clock := w.clock + nanos }
  | .push e =>
    match w.queue.push e with
    | (q, true) =>
      some ({ w with queue := q, accepted := w.accepted ++ [Item.mk e.channelId e.toBatch] }.leave
        .capped (queuedItems e.channelId (w.queue.evicted e.channelId)))
    | (q, false) => some { w with queue := q }
  | .flushNext pick => do
    match ← w.queue.flushNext w.clock pick with
    | (q, none) => some (w.afterExpiry q)
    | (q, some batch) =>
      some { w.afterExpiry q with
        handed := w.handed ++ [Handed.mk batch (w.clock + w.queue.inFlightDeadline) false]
        flushed := w.flushed ++ [batch] }
  | .hasFlushableWork => some (w.afterExpiry (w.queue.hasFlushableWork w.clock).1)
  | .markComplete c =>
    some { w with
      queue := w.queue.markComplete c w.clock
      handed := w.handed.map (Handed.complete c) }
  | .deliver i => do
    let batch ← w.batch? i
    some ((w.give i).leave .delivered batch.items)
  | .requeue i delay => do
    let batch ← w.batch? i
    let (q, dead) := w.queue.requeue batch w.clock delay
    match dead with
    | some dead => some ({ w.give i with queue := q }.leave .deadLettered dead.items)
    | none =>
      some ({ w.give i with
        queue := q
        lost := w.lost ++ items batch.channelId batch.cancelledEvents
      }.leave .capped (w.queue.overflow batch.channelId batch.queued))
  | .requeuePreserveTimestamps i => do
    let batch ← w.batch? i
    some ({ w.give i with
      queue := w.queue.requeuePreserveTimestamps batch
      lost := w.lost ++ items batch.channelId batch.cancelledEvents
    }.leave .capped (w.queue.overflow batch.channelId batch.queued))
  | .requeueAsCancelled i reason => do
    let batch ← w.batch? i
    some { w.give i with queue := w.queue.requeueAsCancelled batch reason }
  | .drainChannel c =>
    some ({ w with queue := (w.queue.drainChannel c).1 }.leave .drained
      (queuedItems c (w.queue.queueOf c) ++ queuedItems c (w.queue.withheldOf c) ++
        items c (w.queue.cancelledOf c)))
  | .extendInFlightDeadline c maxTurnSecs =>
    let q := w.queue.extendInFlightDeadline c maxTurnSecs w.clock
    some { w with
      queue := q
      handed := w.handed.map
        (Handed.extend c (w.queue.inFlightDeadlines.get? c) (q.inFlightDeadlines.get? c)) }
  | .markNativeSteerPending c id =>
    some { w with queue := (w.queue.markNativeSteerPending c id).1 }
  | .releaseNativeSteer c id =>
    some ({ w with queue := w.queue.releaseNativeSteer c id }.leave .capped
      (w.queue.releaseOverflow c id))
  | .removeEvent c id =>
    some ({ w with queue := w.queue.removeEvent c id }.leave .removed
      (queuedItems c ((w.queue.queueOf c).filter (EventQueue.hasId id)) ++
        queuedItems c ((w.queue.withheldOf c).filter (EventQueue.hasId id))))
  | .compactExpiredState => some { w with queue := w.queue.compactExpiredState w.clock }

@[simp]
theorem batch_complete (c : Uuid) (h : Handed) : (h.complete c).batch = h.batch := by
  unfold Handed.complete
  split_ifs <;> rfl

@[simp]
theorem batch_extend (c : Uuid) (before after : Option Nat) (h : Handed) :
    (h.extend c before after).batch = h.batch := by
  unfold Handed.extend
  split_ifs <;> rfl

variable {i : Nat}

section Cases

variable {w w' : World}

theorem step_push_cases {e : QueuedEvent} (h : step w (.push e) = some w') :
    (w.queue.push e = (w.queue, false) ∧ w' = w) ∨
      ((w.queue.push e).2 = true ∧
        w' = { w with
          queue := (w.queue.push e).1
          accepted := w.accepted ++ [Item.mk e.channelId e.toBatch] }.leave .capped
            (queuedItems e.channelId (w.queue.evicted e.channelId))) := by
  simp only [step] at h
  cases hpush : w.queue.push e with
  | mk q taken =>
    cases taken with
    | true =>
      rw [hpush] at h
      cases h
      exact .inr ⟨rfl, rfl⟩
    | false =>
      have hsame : q = w.queue := by
        unfold EventQueue.push at hpush
        dsimp only at hpush
        split_ifs at hpush
        · cases hpush
          rfl
        · cases hpush
        · cases hpush
      subst hsame
      rw [hpush] at h
      cases h
      exact .inl ⟨rfl, rfl⟩

theorem step_flushNext_cases {pick : Uuid} (h : step w (.flushNext pick) = some w') :
    (∃ q, w.queue.flushNext w.clock pick = some (q, none) ∧ w' = w.afterExpiry q) ∨
      ∃ q batch, w.queue.flushNext w.clock pick = some (q, some batch) ∧
        w' = { w.afterExpiry q with
          handed := w.handed ++ [Handed.mk batch (w.clock + w.queue.inFlightDeadline) false]
          flushed := w.flushed ++ [batch] } := by
  simp only [step, Option.bind_eq_bind, Option.bind_eq_some_iff] at h
  obtain ⟨⟨q, batch⟩, hflush, h⟩ := h
  cases batch with
  | none => exact .inl ⟨q, hflush, (Option.some.inj h).symm⟩
  | some batch => exact .inr ⟨q, batch, hflush, (Option.some.inj h).symm⟩

theorem step_deliver_cases (h : step w (.deliver i) = some w') :
    ∃ batch, w.batch? i = some batch ∧ w' = (w.give i).leave .delivered batch.items := by
  simp only [step, Option.bind_eq_bind, Option.bind_eq_some_iff] at h
  obtain ⟨batch, hbatch, h⟩ := h
  exact ⟨batch, hbatch, (Option.some.inj h).symm⟩

theorem step_requeue_cases {delay : Nat} (h : step w (.requeue i delay) = some w') :
    ∃ batch, w.batch? i = some batch ∧
      ((maxRetries < w.queue.attempt batch.channelId ∧
        w' = { w.give i with queue := (w.queue.requeue batch w.clock delay).1 }.leave
          .deadLettered batch.items) ∨
      (¬ maxRetries < w.queue.attempt batch.channelId ∧
        w' = { w.give i with
          queue := (w.queue.requeue batch w.clock delay).1
          lost := w.lost ++ items batch.channelId batch.cancelledEvents }.leave .capped
            (w.queue.overflow batch.channelId batch.queued))) := by
  simp only [step, Option.bind_eq_bind, Option.bind_eq_some_iff] at h
  obtain ⟨batch, hbatch, h⟩ := h
  refine ⟨batch, hbatch, ?_⟩
  by_cases hdead : maxRetries < w.queue.attempt batch.channelId
  · simp only [EventQueue.requeue, if_pos hdead] at h ⊢
    exact .inl ⟨hdead, (Option.some.inj h).symm⟩
  · simp only [EventQueue.requeue, if_neg hdead] at h ⊢
    exact .inr ⟨hdead, (Option.some.inj h).symm⟩

theorem step_requeuePreserveTimestamps_cases (h : step w (.requeuePreserveTimestamps i) = some w') :
    ∃ batch, w.batch? i = some batch ∧
      w' = { w.give i with
        queue := w.queue.requeuePreserveTimestamps batch
        lost := w.lost ++ items batch.channelId batch.cancelledEvents }.leave .capped
          (w.queue.overflow batch.channelId batch.queued) := by
  simp only [step, Option.bind_eq_bind, Option.bind_eq_some_iff] at h
  obtain ⟨batch, hbatch, h⟩ := h
  exact ⟨batch, hbatch, (Option.some.inj h).symm⟩

theorem step_requeueAsCancelled_cases {reason : CancelReason}
    (h : step w (.requeueAsCancelled i reason) = some w') : ∃ batch, w.batch? i = some batch ∧
      w' = { w.give i with queue := w.queue.requeueAsCancelled batch reason } := by
  simp only [step, Option.bind_eq_bind, Option.bind_eq_some_iff] at h
  obtain ⟨batch, hbatch, h⟩ := h
  exact ⟨batch, hbatch, (Option.some.inj h).symm⟩

end Cases

end Vingilot.Acp
