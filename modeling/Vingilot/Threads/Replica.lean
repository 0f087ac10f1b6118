import Vingilot.Threads.Coverage

/-!
# What a page of the replica has of the writer's

Windows run from new to old behind a cursor at or below the wall, so the snapshot has every row
that they can reach. Threads run from old to new, and the wall is compared with the last reply.
-/

namespace Vingilot.Threads

open Machine
open Events (EventId PubKey Stamp)
open Fence (secs)

variable {parse : EventRow → Option Events.Event} {db s w : Db} {wall : Int}

/-! ## Windows -/

variable {k : Stamp} {row : EventRow}

section Window

variable {channelId : Uuid} {kinds : Option (List Kind)} {limit : BitVec 32}
  {cursor : Option WindowCursor} {page : ChannelWindow}

def Db.windowEvents (db : Db) (channelId : Uuid) (kinds : Option (List Kind))
    (cursor : Option WindowCursor) : List (Stamp × EventRow) :=
  (db.windowRows channelId kinds cursor).map fun x => (x.1, x.2.1)

theorem mem_windowEvents : (k, row) ∈ db.windowEvents channelId kinds cursor ↔
      ShownInWindow channelId kinds db k row ∧ afterWindowCursor cursor k = true := by
  unfold Db.windowEvents
  rw [List.mem_map]
  constructor
  · rintro ⟨⟨k', row', m⟩, hmem, heq⟩
    cases heq
    obtain ⟨hrow, hafter⟩ := mem_windowRows.mp hmem
    exact ⟨⟨m, hrow⟩, hafter⟩
  · rintro ⟨⟨m, hrow⟩, hafter⟩
    exact ⟨(k, row, m), mem_windowRows.mpr ⟨hrow, hafter⟩, rfl⟩

theorem sorted_windowEvents :
    (db.windowEvents channelId kinds cursor).Pairwise fun x y =>
      windowRank x.1 < windowRank y.1 := by
  unfold Db.windowEvents
  rw [List.pairwise_map]
  exact Keyset.sorted_query windowRank_injective

structure WindowOf (parse : EventRow → Option Events.Event) (limit : Nat)
    (xs : List (Stamp × EventRow)) (page : ChannelWindow) : Prop where
  kinds : ∀ x ∈ xs.take limit, x.2.event.kind ≤ 65535
  rows : page.rows.map (·.storedEvent) = (xs.take limit).filterMap fun x => readable parse x.2
  hasMore : page.hasMore = decide (limit < xs.length)
  nextCursor : page.nextCursor =
    if limit < xs.length then (xs.take limit).getLast?.map fun x => Stamp.cursor x.1 else none

theorem windowOf_ok (h : getChannelWindowOn parse db channelId limit cursor kinds = .ok page) :
    WindowOf parse limit.toNat (db.windowEvents channelId kinds cursor) page := by
  unfold getChannelWindowOn at h
  obtain ⟨rows, hrows, rfl⟩ := except_map_ok h
  rw [List.take_take, Nat.min_eq_left (Nat.le_succ _)] at hrows
  obtain ⟨hkinds, rfl⟩ := readRows_eq_ok.mp hrows
  have htake : (db.windowEvents channelId kinds cursor).take limit.toNat =
      ((db.windowRows channelId kinds cursor).take limit.toNat).map fun x => (x.1, x.2.1) :=
    List.map_take.symm
  have hlength : (db.windowEvents channelId kinds cursor).length =
      (db.windowRows channelId kinds cursor).length := List.length_map _
  have hcut : limit.toNat < ((db.windowRows channelId kinds cursor).take (limit.toNat + 1)).length ↔
      limit.toNat < (db.windowRows channelId kinds cursor).length := by
    rw [List.length_take]
    omega
  constructor
  · rw [htake, List.forall_mem_map]
    exact hkinds
  · rw [htake, List.filterMap_map, List.map_map, List.map_filterMap]
    refine List.filterMap_congr fun x _ => ?_
    simp only [Function.comp, Option.map_map]
    cases readable parse x.2.1 <;> rfl
  · simp only [hcut, hlength]
  · simp only [hcut, hlength, htake, decide_eq_true_eq, List.take_take,
      Nat.min_eq_left (Nat.le_succ _), List.getLast?_map, Option.map_map]
    rfl

theorem exists_window
    (h : ∀ x ∈ (db.windowEvents channelId kinds cursor).take limit.toNat, x.2.event.kind ≤ 65535) :
    ∃ page, getChannelWindowOn parse db channelId limit cursor kinds = .ok page := by
  unfold getChannelWindowOn
  have hkinds : ∀ x ∈ ((db.windowRows channelId kinds cursor).take (limit.toNat + 1)).take
      limit.toNat, x.2.1.event.kind ≤ 65535 := by
    rw [List.take_take, Nat.min_eq_left (Nat.le_succ _)]
    intro x hx
    refine h (x.1, x.2.1) ?_
    rw [Db.windowEvents, ← List.map_take]
    exact List.mem_map_of_mem hx
  have hrows : readRows parse ChannelWindowRow.of _ = .ok _ := readRows_eq_ok.mpr ⟨hkinds, rfl⟩
  simp only [hrows]
  exact ⟨_, rfl⟩

def ChannelWindow.reaches (page : ChannelWindow) (k : Stamp) : Bool :=
  !page.hasMore || page.nextCursor.any fun cursor => !afterWindowCursor (some cursor) k

/-- What a page of the snapshot `s` has of the writer `w`'s. -/
structure FaithfulWindow (parse : EventRow → Option Events.Event) (s w : Db) (channelId : Uuid)
    (limit : BitVec 32) (cursor : Option WindowCursor) (kinds : Option (List Kind))
    (page : ChannelWindow) : Prop where
  complete : (((w.windowEvents channelId kinds cursor).filter fun x => page.reaches x.1).filterMap
    fun x => readable parse x.2).Sublist (page.rows.map (·.storedEvent))
  extra : ∀ row ∈ page.rows, ∃ k ev, s.events.get? k = some ev ∧
    readable parse ev = some row.storedEvent ∧
      (w.events.get? k = some ev → (k, ev) ∈ w.windowEvents channelId kinds cursor)
  agrees : (∀ x ∈ (s.windowEvents channelId kinds cursor).take (limit.toNat + 1),
      w.events.get? x.1 = some x.2) →
    ∃ page', getChannelWindowOn parse w channelId limit cursor kinds = .ok page' ∧
      page'.rows.map (·.storedEvent) = page.rows.map (·.storedEvent) ∧
      page'.hasMore = page.hasMore ∧ page'.nextCursor = page.nextCursor

theorem below_of_afterWindowCursor {cursor : WindowCursor}
    (h : afterWindowCursor (some cursor) k = true) : secs k.createdAt ≤ cursor.ts := by
  unfold afterWindowCursor at h
  rw [Bool.or_eq_true, Bool.and_eq_true, decide_eq_true_iff, beq_iff_eq] at h
  rcases h with hlt | ⟨heq, -⟩
  · exact hlt.le
  · exact heq.le

theorem covers_window {cursor : WindowCursor} (hcursor : cursor.ts ≤ wall)
    (hagree : Agree (ShownInWindow channelId kinds) wall s w) :
    Keyset.Covers (fun x : Stamp × EventRow => windowRank x.1) (fun _ => True)
      (s.windowEvents channelId kinds (some cursor))
      (w.windowEvents channelId kinds (some cursor)) where
  sorted := sorted_windowEvents
  sorted' := sorted_windowEvents
  closed _ _ _ _ := trivial
  mem := by
    rintro ⟨k, row⟩ hx -
    obtain ⟨hshown, hafter⟩ := mem_windowEvents.mp hx
    have hbelow := (below_of_afterWindowCursor hafter).trans hcursor
    exact mem_windowEvents.mpr ⟨hagree.covered k row hbelow hshown, hafter⟩

theorem window_kept {cursor : WindowCursor} (hcursor : cursor.ts ≤ wall)
    (hagree : Agree (ShownInWindow channelId kinds) wall s w)
    (hx : (k, row) ∈ s.windowEvents channelId kinds (some cursor))
    (hget : w.events.get? k = some row) :
    (k, row) ∈ w.windowEvents channelId kinds (some cursor) := by
  obtain ⟨hshown, hafter⟩ := mem_windowEvents.mp hx
  have hbelow := (below_of_afterWindowCursor hafter).trans hcursor
  exact mem_windowEvents.mpr ⟨hagree.kept k row hbelow hshown hget, hafter⟩

theorem faithful_window {cursor : WindowCursor} (hcursor : cursor.ts ≤ wall)
    (hagree : Agree (ShownInWindow channelId kinds) wall s w)
    (h : getChannelWindowOn parse s channelId limit (some cursor) kinds = .ok page) :
    FaithfulWindow parse s w channelId limit (some cursor) kinds page := by
  have hpage := windowOf_ok h
  have hcovers := covers_window hcursor hagree
  refine ⟨?_, ?_, ?_⟩
  · rw [hpage.rows]
    refine (hcovers.sublist ?_).filterMap _
    intro x hx hreach
    by_cases hmore : limit.toNat < (s.windowEvents channelId kinds (some cursor)).length
    · unfold ChannelWindow.reaches at hreach
      rw [hpage.hasMore, hpage.nextCursor, if_pos hmore, decide_eq_true hmore, Bool.not_true,
        Bool.false_or, Option.any_map, Option.any_eq_true] at hreach
      obtain ⟨last, hlast, hnot⟩ := hreach
      have hle : windowRank x.1 ≤ windowRank last.1 := by
        rw [← not_lt, ← afterWindowCursor_cursor]
        simpa using hnot
      exact hcovers.complete hx (List.mem_of_getLast? hlast) trivial hle
    · exact hcovers.complete_all (fun _ _ => trivial) (not_lt.mp hmore) hx
  · intro row hrow
    have hmem : row.storedEvent ∈ page.rows.map (·.storedEvent) := List.mem_map_of_mem hrow
    rw [hpage.rows] at hmem
    obtain ⟨⟨k, ev⟩, hx, hread⟩ := List.mem_filterMap.mp hmem
    have hin := List.mem_of_mem_take hx
    exact ⟨k, ev, ((view_window channelId kinds).live (mem_windowEvents.mp hin).1).1, hread,
      window_kept hcursor hagree hin⟩
  · intro hkept
    have hfetched := hcovers.take_eq (n := limit.toNat + 1)
      (fun x hx => window_kept hcursor hagree (List.mem_of_mem_take hx) (hkept x hx))
      (fun _ _ => trivial) (.inr fun _ _ => trivial)
    have htake : (w.windowEvents channelId kinds (some cursor)).take limit.toNat =
        (s.windowEvents channelId kinds (some cursor)).take limit.toNat := by
      have hcut := congrArg (List.take limit.toNat) hfetched
      rwa [List.take_take, List.take_take, Nat.min_eq_left (Nat.le_succ _)] at hcut
    have hmore : limit.toNat < (w.windowEvents channelId kinds (some cursor)).length ↔
        limit.toNat < (s.windowEvents channelId kinds (some cursor)).length := by
      have hlength := congrArg List.length hfetched
      rw [List.length_take, List.length_take] at hlength
      omega
    have hexists : ∃ page', getChannelWindowOn parse w channelId limit (some cursor) kinds = .ok page' := by
      refine exists_window ?_
      rw [htake]
      exact hpage.kinds
    obtain ⟨page', hpage'⟩ := hexists
    have hwriter := windowOf_ok hpage'
    refine ⟨page', hpage', ?_, ?_, ?_⟩
    · rw [hwriter.rows, hpage.rows, htake]
    · rw [hwriter.hasMore, hpage.hasMore, decide_eq_decide]
      exact hmore
    · rw [hwriter.nextCursor, hpage.nextCursor, htake]
      simp only [hmore]

end Window

/-! ## Threads -/

section Thread

variable {root : EventId} {depthLimit : Option (BitVec 32)} {limit : BitVec 32}
  {cursor : Option (List UInt8)} {replies : List ThreadReply}

def Db.threadEvents (db : Db) (root : EventId) (depthLimit : Option (BitVec 32))
    (cursor : Option (List UInt8)) : List (Stamp × EventRow × ThreadMetadata) :=
  (db.threadRows root depthLimit (cursor.bind decodeCursor)).map fun x => (x.1, x.2.1, x.2.2.bare)

def replyOf (parse : EventRow → Option Events.Event) (x : Stamp × EventRow × ThreadMetadata) :
    Option ThreadReply :=
  (readable parse x.2.1).map (ThreadReply.of x)

theorem mem_threadEvents {bare : ThreadMetadata} :
    (k, row, bare) ∈ db.threadEvents root depthLimit cursor ↔
      ShownInThread root depthLimit bare db k row ∧
        afterThreadCursor (cursor.bind decodeCursor) k = true := by
  unfold Db.threadEvents
  rw [List.mem_map]
  constructor
  · rintro ⟨⟨k', row', m⟩, hmem, heq⟩
    cases heq
    obtain ⟨hrow, hafter⟩ := mem_threadRows.mp hmem
    exact ⟨⟨m, hrow, rfl⟩, hafter⟩
  · rintro ⟨⟨m, hrow, rfl⟩, hafter⟩
    exact ⟨(k, row, m), mem_threadRows.mpr ⟨hrow, hafter⟩, rfl⟩

theorem sorted_threadEvents :
    (db.threadEvents root depthLimit cursor).Pairwise fun x y =>
      threadRank x.1 < threadRank y.1 := by
  unfold Db.threadEvents
  rw [List.pairwise_map]
  exact Keyset.sorted_query threadRank_injective

theorem replyOf_some {x : Stamp × EventRow × ThreadMetadata} {reply : ThreadReply}
    (h : replyOf parse x = some reply) :
    readable parse x.2.1 = some reply.storedEvent ∧ (⟨reply.createdAt, reply.eventId⟩ : Stamp) = x.1 := by
  obtain ⟨stored, hstored, rfl⟩ := Option.map_eq_some_iff.mp h
  exact ⟨hstored, rfl⟩

theorem replies_ok :
    getThreadRepliesOn parse db root depthLimit limit cursor = .ok replies ↔
      0 ≤ limit.toInt ∧
        (∀ x ∈ (db.threadEvents root depthLimit cursor).take limit.toNat,
          x.2.1.event.kind ≤ 65535) ∧
        replies = ((db.threadEvents root depthLimit cursor).take limit.toNat).filterMap
          (replyOf parse) := by
  unfold getThreadRepliesOn Db.threadEvents
  by_cases hneg : limit.toInt < 0
  · rw [if_pos hneg]
    constructor
    · intro h
      cases h
    · rintro ⟨hle, -⟩
      omega
  · rw [if_neg hneg, readRows_eq_ok, ← List.map_take, List.forall_mem_map, List.filterMap_map]
    exact (and_iff_right (not_lt.mp hneg)).symm

/-- What a page of the snapshot `s` has of the writer `w`'s. -/
structure FaithfulReplies (parse : EventRow → Option Events.Event) (s w : Db) (root : EventId)
    (depthLimit : Option (BitVec 32)) (limit : BitVec 32) (cursor : Option (List UInt8))
    (replies : List ThreadReply) : Prop where
  complete : ∃ tail, replies.getLast? = some tail ∧
    (((w.threadEvents root depthLimit cursor).filter fun x =>
      decide (threadRank x.1 ≤ threadRank ⟨tail.createdAt, tail.eventId⟩)).filterMap
        (replyOf parse)).Sublist replies
  extra : ∀ reply ∈ replies, ∃ k ev bare, s.events.get? k = some ev ∧
    replyOf parse (k, ev, bare) = some reply ∧
      (w.events.get? k = some ev → (k, ev, bare) ∈ w.threadEvents root depthLimit cursor)
  agrees : (∀ x ∈ (s.threadEvents root depthLimit cursor).take limit.toNat,
      w.events.get? x.1 = some x.2.1) →
    getThreadRepliesOn parse w root depthLimit limit cursor = .ok replies

theorem covers_thread
    (hagree : ∀ bare, Agree (ShownInThread root depthLimit bare) wall s w) :
    Keyset.Covers (fun x : Stamp × EventRow × ThreadMetadata => threadRank x.1)
      (fun x => secs x.1.createdAt ≤ wall) (s.threadEvents root depthLimit cursor)
      (w.threadEvents root depthLimit cursor) where
  sorted := sorted_threadEvents
  sorted' := sorted_threadEvents
  closed x y hle hy := by
    have htime := threadRank_le hle
    unfold secs at hy ⊢
    omega
  mem := by
    rintro ⟨k, row, bare⟩ hx hbelow
    obtain ⟨hshown, hafter⟩ := mem_threadEvents.mp hx
    exact mem_threadEvents.mpr ⟨(hagree bare).covered k row hbelow hshown, hafter⟩

theorem thread_kept (hagree : ∀ bare, Agree (ShownInThread root depthLimit bare) wall s w)
    {bare : ThreadMetadata} (hbelow : secs k.createdAt ≤ wall)
    (hx : (k, row, bare) ∈ s.threadEvents root depthLimit cursor)
    (hget : w.events.get? k = some row) :
    (k, row, bare) ∈ w.threadEvents root depthLimit cursor := by
  obtain ⟨hshown, hafter⟩ := mem_threadEvents.mp hx
  exact mem_threadEvents.mpr ⟨(hagree bare).kept k row hbelow hshown hget, hafter⟩

theorem tail_of_full {tail : ThreadReply}
    (h : getThreadRepliesOn parse s root depthLimit limit cursor = .ok replies)
    (hfull : limit.toNat ≤ replies.length) (htail : replies.getLast? = some tail) :
    ((s.threadEvents root depthLimit cursor).take limit.toNat).length = limit.toNat ∧
      ∃ x, ((s.threadEvents root depthLimit cursor).take limit.toNat).getLast? = some x ∧
        x.1 = ⟨tail.createdAt, tail.eventId⟩ := by
  obtain ⟨-, -, hreplies⟩ := replies_ok.mp h
  have hfetched : ((s.threadEvents root depthLimit cursor).take limit.toNat).length ≤ limit.toNat :=
    List.length_take_le ..
  have hread : ((s.threadEvents root depthLimit cursor).take limit.toNat).length ≤
      (((s.threadEvents root depthLimit cursor).take limit.toNat).filterMap
        (replyOf parse)).length := by
    rw [← hreplies]
    exact hfetched.trans hfull
  have hskipped := List.length_filterMap_le (replyOf parse)
    ((s.threadEvents root depthLimit cursor).take limit.toNat)
  rw [← hreplies] at hskipped
  refine ⟨le_antisymm hfetched (hfull.trans hskipped), ?_⟩
  rw [hreplies, Keyset.getLast?_filterMap_of_full hread] at htail
  obtain ⟨x, hx, hreply⟩ := Option.bind_eq_some_iff.mp htail
  exact ⟨x, hx, (replyOf_some hreply).2.symm⟩

theorem faithful_replies {tail : ThreadReply}
    (hagree : ∀ bare, Agree (ShownInThread root depthLimit bare) wall s w)
    (h : getThreadRepliesOn parse s root depthLimit limit cursor = .ok replies)
    (hfull : limit.toNat ≤ replies.length) (htail : replies.getLast? = some tail)
    (hbelow : secs tail.createdAt ≤ wall) :
    FaithfulReplies parse s w root depthLimit limit cursor replies := by
  obtain ⟨hlength, last, hlast, hkey⟩ := tail_of_full h hfull htail
  obtain ⟨hlimit, hkinds, hreplies⟩ := replies_ok.mp h
  have hcovers : Keyset.Covers _ _ (s.threadEvents root depthLimit cursor)
      (w.threadEvents root depthLimit cursor) := covers_thread hagree
  have hcovered : ∀ x ∈ (s.threadEvents root depthLimit cursor).take limit.toNat,
      secs x.1.createdAt ≤ wall := by
    intro x hx
    have hle := Keyset.le_getLast (hcovers.sorted.sublist (List.take_sublist ..)) hlast hx
    refine hcovers.closed x last hle ?_
    rw [hkey]
    exact hbelow
  refine ⟨⟨tail, htail, ?_⟩, ?_, ?_⟩
  · rw [hreplies]
    refine (hcovers.sublist ?_).filterMap _
    intro x hx hreach
    rw [← hkey] at hreach
    exact hcovers.complete hx (List.mem_of_getLast? hlast)
      (hcovered last (List.mem_of_getLast? hlast)) (of_decide_eq_true hreach)
  · intro reply hreply
    rw [hreplies] at hreply
    obtain ⟨⟨k, ev, bare⟩, hx, hread⟩ := List.mem_filterMap.mp hreply
    have hin := List.mem_of_mem_take hx
    exact ⟨k, ev, bare, ((view_thread root depthLimit bare).live (mem_threadEvents.mp hin).1).1,
      hread, thread_kept hagree (hcovered _ hx) hin⟩
  · intro hkept
    have hfetched := hcovers.take_eq (n := limit.toNat)
      (fun x hx => thread_kept hagree (hcovered x hx) (List.mem_of_mem_take hx) (hkept x hx))
      hcovered (.inl hlength)
    refine replies_ok.mpr ⟨hlimit, ?_, ?_⟩
    · rw [hfetched]
      exact hkinds
    · rw [hfetched]
      exact hreplies

end Thread

/-! ## Routed pages -/

/-- What is served from the replica is faithful, and what is not is read from the writer. -/
theorem replica_pages_have_no_holes (parse : EventRow → Option Events.Event)
    (writer : Except PageError Db) {before after : List Commit} {w : Db} {r : Route}
    (hsnapshot : ∀ s, r.session = .ok s →
      run commit .empty before = some s.snapshot ∧ run commit s.snapshot after = some w)
    (hpromised : Meets commit Promised .empty (before ++ after))
    (hsound : ∀ s entry, r.session = .ok s → r.fence.resolve s.token s.epoch = .proved entry →
      Meets commit (AboveWall entry.fenceWall) s.snapshot after) :
    (∀ channelId limit cursor kinds,
      (∃ s page, r.session = .ok s ∧
        r.getChannelWindow parse writer channelId limit (some cursor) kinds = .ok (page, .replica) ∧
          FaithfulWindow parse s.snapshot w channelId limit (some cursor) kinds page) ∨
      r.getChannelWindow parse writer channelId limit (some cursor) kinds =
        (writer.bind fun db => getChannelWindowOn parse db channelId limit (some cursor) kinds).map
          fun page => (page, .writer)) ∧
    (∀ root depthLimit limit cursor,
      (∃ s replies, r.session = .ok s ∧
        r.getThreadReplies parse writer root depthLimit limit (some cursor) =
          .ok (replies, .replica) ∧
          FaithfulReplies parse s.snapshot w root depthLimit limit (some cursor) replies) ∨
      r.getThreadReplies parse writer root depthLimit limit (some cursor) =
        (writer.bind fun db => getThreadRepliesOn parse db root depthLimit limit (some cursor)).map
          fun replies => (replies, .writer)) := by
  have hagree : ∀ s entry shown, r.session = .ok s →
      r.fence.resolve s.token s.epoch = .proved entry → View shown →
      Agree shown entry.fenceWall s.snapshot w := by
    intro s entry shown hsession hproved hv
    obtain ⟨hbefore, hafter⟩ := hsnapshot s hsession
    obtain ⟨hpast, hrest⟩ := meets_append.mp hpromised
    have hscoped : Scoped s.snapshot :=
      run_invariant_of_meets Scoped (fun _ _ _ => scoped_commit) scoped_empty hpast hbefore
    exact agree_run hv hscoped hafter (hrest _ hbefore) (hsound s entry hsession hproved)
  refine ⟨?_, ?_⟩
  · intro channelId limit cursor kinds
    unfold Route.getChannelWindow
    cases hroute : r.routeRead (.fromChannelCursor (some cursor)) with
    | writer reason => exact .inr rfl
    | replica snapshot entry reason =>
      obtain ⟨s, hsession, rfl, hproved, hverdict⟩ := Route.routeRead_replica hroute
      have hcursor : cursor.ts ≤ entry.fenceWall := Route.covered_of_verdict hverdict
      cases hpage : r.onReplica
          (getChannelWindowOn parse s.snapshot channelId limit (some cursor) kinds) with
      | error e => exact .inr (by simp only [hpage])
      | ok page =>
        refine .inl ⟨s, page, hsession, by simp only [hpage], ?_⟩
        exact faithful_window hcursor (hagree s entry _ hsession hproved (view_window ..))
          (Route.onReplica_ok hpage)
  · intro root depthLimit limit cursor
    unfold Route.getThreadReplies
    cases hroute : r.routeRead (if (some cursor).isSome then .coveredPostVerified else .bounded) with
    | writer reason => exact .inr rfl
    | replica snapshot entry reason =>
      obtain ⟨s, hsession, rfl, hproved, -⟩ := Route.routeRead_replica hroute
      cases hpage : r.onReplica
          (getThreadRepliesOn parse s.snapshot root depthLimit limit (some cursor)) with
      | error e => exact .inr (by simp only [hpage])
      | ok replies =>
        by_cases hserved : limit.toNat ≤ replies.length ∧
            replies.getLast?.any (fun tail => secs tail.createdAt ≤ entry.fenceWall) = true
        · refine .inl ⟨s, replies, hsession, ?_, ?_⟩
          · simp only [hpage, Option.isNone_some, Bool.false_eq_true, if_false, if_pos hserved]
          · obtain ⟨hfull, hbelow⟩ := hserved
            obtain ⟨tail, htail, hwall⟩ := (Option.any_eq_true _ _).mp hbelow
            exact faithful_replies (fun _ => hagree s entry _ hsession hproved (view_thread ..))
              (Route.onReplica_ok hpage) hfull htail (of_decide_eq_true hwall)
        · refine .inr ?_
          simp only [hpage, Option.isNone_some, Bool.false_eq_true, if_false, if_neg hserved]

/-! ### A deletion that the replica has not seen -/

def post (id : EventId) (createdAt : Nat) (h : createdAt < 2 ^ 63) : Events.Event :=
  ⟨id, 0, createdAt, 9, [], "", h⟩

def firstPost : Events.Event := post 1 20 (by decide)

def secondPost : Events.Event := post 2 10 (by decide)

def latePost : Events.Event := post 3 300 Events.time300_lt

def posts : List Commit := [.insertEvent firstPost (some 7) none, .insertEvent secondPost (some 7) none]

def laterCommits : List Commit := [.softDelete 2 none none, .insertEvent latePost (some 7) none]

def provedFence : Fence.ReplicaFence := ⟨some 0, [⟨5, 0, secs 200⟩]⟩

def provedRoute (snapshot : Db) : Route :=
  ⟨true, none, provedFence, 0, .ok ⟨5, 0, snapshot⟩, provedFence, 0, none⟩

def firstPage (more : Bool) : ChannelWindow :=
  ⟨[⟨⟨firstPost, some 7⟩, none⟩], more, if more then some (Stamp.cursor firstPost.stamp) else none⟩

def topCursor : WindowCursor := ⟨secs 100, []⟩

theorem sound_later (s : Db) : Meets commit (AboveWall (secs 200)) s laterCommits :=
  ⟨trivial, fun _ _ => ⟨fun _ _ => by decide, fun _ _ => trivial⟩⟩

theorem ok_of_toOption {ε α : Type} {x : Except ε α} {y : α} (h : x.toOption = some y) : x = .ok y := by
  cases x with
  | error e => cases h
  | ok z =>
    cases h
    rfl

/-- The page of the replica promises more rows, and the writer has none. -/
theorem unseen_deletion_keeps_has_more :
    ∃ s w, run commit .empty posts = some s ∧ run commit s laterCommits = some w ∧
      Meets commit Promised .empty (posts ++ laterCommits) ∧
      Meets commit (AboveWall (secs 200)) s laterCommits ∧
      provedFence.resolve 5 0 = .proved ⟨5, 0, secs 200⟩ ∧
      (provedRoute s).getChannelWindow (fun row => some row.event) (.ok w) 7 1 (some topCursor) none =
        .ok (firstPage true, .replica) ∧
      getChannelWindowOn (fun row => some row.event) w 7 1 (some topCursor) none =
        .ok (firstPage false) := by
  have hdemo : ((run commit .empty posts).any fun s => (run commit s laterCommits).any fun w =>
      ((provedRoute s).getChannelWindow (fun row => some row.event) (.ok w) 7 1 (some topCursor)
        none).toOption == some (firstPage true, .replica) &&
      (getChannelWindowOn (fun row => some row.event) w 7 1 (some topCursor) none).toOption ==
        some (firstPage false)) = true := by
    decide +kernel
  obtain ⟨s, hs, h⟩ := (Option.any_eq_true _ _).mp hdemo
  obtain ⟨w, hw, h⟩ := (Option.any_eq_true _ _).mp h
  rw [Bool.and_eq_true, beq_iff_eq, beq_iff_eq] at h
  exact ⟨s, w, hs, hw, by decide +kernel, sound_later s, by decide, ok_of_toOption h.1,
    ok_of_toOption h.2⟩

def reply : ThreadMetadataParams := ⟨8, some 4, some 30, some 4, some 30, 1, false⟩

def threadPost (id : EventId) (createdAt : Fin 64) : Events.Event := post id createdAt (by omega)

def threadCommits : List Commit :=
  posts ++ [.insertEvent (threadPost 4 30) (some 8) none,
    .insertEvent (threadPost 5 40) (some 8) (some reply),
    .insertEvent (threadPost 6 50) (some 8) (some reply)]

/-- The second reply is deleted as well. -/
def unseenCommits : List Commit := laterCommits ++ [.softDelete 6 (some 4) (some 4)]

def fromStart : List UInt8 := List.replicate 8 0

def closedPool : Except PageError Db := .error (.sqlx "pool closed")

theorem replica_pages_have_no_holes_deleted :
    ∃ s w replies, run commit .empty threadCommits = some s ∧ run commit s unseenCommits = some w ∧
      FaithfulWindow (fun row => some row.event) s w 7 1 (some topCursor) none (firstPage true) ∧
      replies.map ThreadReply.eventId = [5, 6] ∧
      FaithfulReplies (fun row => some row.event) s w 4 none 2 (some fromStart) replies := by
  have hdemo : ((run commit .empty threadCommits).any fun s => (run commit s unseenCommits).isSome &&
      ((provedRoute s).getChannelWindow (fun row => some row.event) closedPool 7 1 (some topCursor)
        none).toOption == some (firstPage true, .replica) &&
      ((provedRoute s).getThreadReplies (fun row => some row.event) closedPool 4 none 2
        (some fromStart)).toOption.any fun served =>
          served.2 == .replica && served.1.map ThreadReply.eventId == [5, 6]) = true := by
    decide +kernel
  obtain ⟨s, hs, h⟩ := (Option.any_eq_true _ _).mp hdemo
  rw [Bool.and_eq_true, Bool.and_eq_true, beq_iff_eq] at h
  obtain ⟨⟨hlater, hwindow⟩, hthread⟩ := h
  obtain ⟨w, hw⟩ := Option.isSome_iff_exists.mp hlater
  obtain ⟨⟨replies, source⟩, hreplies, hids⟩ := (Option.any_eq_true _ _).mp hthread
  rw [Bool.and_eq_true, beq_iff_eq, beq_iff_eq] at hids
  obtain ⟨rfl, hids⟩ := hids
  have hsnapshot : ∀ t, (provedRoute s).session = .ok t →
      run commit .empty threadCommits = some t.snapshot ∧
        run commit t.snapshot unseenCommits = some w := by
    rintro _ ⟨⟩
    exact ⟨hs, hw⟩
  have hpromised : Meets commit Promised .empty (threadCommits ++ unseenCommits) := by decide +kernel
  have hsound : ∀ t entry, (provedRoute s).session = .ok t →
      (provedRoute s).fence.resolve t.token t.epoch = .proved entry →
      Meets commit (AboveWall entry.fenceWall) t.snapshot unseenCommits := by
    rintro _ entry ⟨⟩ hproved
    have hentry : provedFence.resolve 5 0 = .proved ⟨5, 0, secs 200⟩ := by decide
    cases hproved.symm.trans hentry
    exact meets_append.mpr ⟨sound_later s, fun _ _ => ⟨trivial, fun _ _ => trivial⟩⟩
  have hpages := replica_pages_have_no_holes (fun row => some row.event) closedPool hsnapshot
    hpromised hsound
  refine ⟨s, w, replies, hs, hw, ?_, hids, ?_⟩
  · rcases hpages.1 7 1 topCursor none with ⟨s', page, hsession, hpage, hfaithful⟩ | hwriter
    · cases hsession
      cases (ok_of_toOption hwindow).symm.trans hpage
      exact hfaithful
    · cases (ok_of_toOption hwindow).symm.trans hwriter
  · rcases hpages.2 4 none 2 fromStart with ⟨s', page, hsession, hpage, hfaithful⟩ | hwriter
    · cases hsession
      cases (ok_of_toOption hreplies).symm.trans hpage
      exact hfaithful
    · cases (ok_of_toOption hreplies).symm.trans hwriter

end Vingilot.Threads
