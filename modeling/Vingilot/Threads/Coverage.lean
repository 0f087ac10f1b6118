import Vingilot.Lib.Machine
import Vingilot.Threads.Routing

/-!
# Pages that a replica serves have no holes

The writer is a log of commits and the snapshot of a replica is the state after a prefix of it. A
proved wall says of the rest of the log that it adds no channel row at or below the wall. It says
nothing of deletions, so a page of the replica may have rows that the writer has deleted.
-/

namespace Vingilot.Threads

open Machine
open Events (EventId PubKey Stamp bytesOf)
open Fence (secs)

/-! ## Commits -/

inductive Commit where
  | insertEvent (e : Events.Event) (channelId : Option Uuid) (params : Option ThreadMetadataParams)
  | softDelete (id : EventId) (parent root : Option EventId)
  /-- `UPDATE events SET deleted_at`, without a look at the threads. -/
  | supersede (keys : List Stamp)
  /-- `DELETE FROM events`. -/
  | purge (keys : List Stamp)

def Db.supersede (db : Db) (keys : List Stamp) : Db :=
  { db with
    events := db.events.setAll
      ((db.events.toList.filter fun x => keys.contains x.1).map fun x => (x.1, x.2.delete)) }

def Db.purge (db : Db) (keys : List Stamp) : Db :=
  { db with events := db.events.removeWhere fun x => keys.contains x.1 }

def commit (db : Db) : Commit → Option Db
  | .insertEvent e channelId params =>
    match insertEventWithThreadMetadata db e channelId params with
    | .ok (db', _) => some db'
    | .error _ => none
  | .softDelete id parent root => some (softDeleteEventAndUpdateThread db id parent root).1
  | .supersede keys => some (db.supersede keys)
  | .purge keys => some (db.purge keys)

/-- What the callers see to: a reply is inserted with its channel, and the superseded read states
and mesh reports, which alone are deleted for good, are no replies. -/
def Promised (db : Db) : Commit → Prop
  | .insertEvent _ channelId params => ∀ p ∈ params, channelId = some p.channelId
  | .purge keys => ∀ k ∈ keys, ∀ m ∈ db.metadata.get? k, m.rootEventId = none
  | _ => True

def AboveWall (wall : Int) (db : Db) : Commit → Prop
  | .insertEvent e channelId _ =>
    channelId.isSome = true → db.events.get? e.stamp = none → wall < secs e.stamp.createdAt
  | _ => True

instance (db : Db) : (c : Commit) → Decidable (Promised db c)
  | .insertEvent _ channelId params =>
    inferInstanceAs (Decidable (∀ p ∈ params, channelId = some p.channelId))
  | .softDelete .. => inferInstanceAs (Decidable True)
  | .supersede _ => inferInstanceAs (Decidable True)
  | .purge keys =>
    inferInstanceAs (Decidable (∀ k ∈ keys, ∀ m ∈ db.metadata.get? k, m.rootEventId = none))

instance (wall : Int) (db : Db) : (c : Commit) → Decidable (AboveWall wall db c)
  | .insertEvent e channelId _ =>
    inferInstanceAs (Decidable (channelId.isSome = true → db.events.get? e.stamp = none →
      wall < secs e.stamp.createdAt))
  | .softDelete .. => inferInstanceAs (Decidable True)
  | .supersede _ => inferInstanceAs (Decidable True)
  | .purge _ => inferInstanceAs (Decidable True)

/-! ## What a commit does to a row -/

def ThreadMetadata.bare (m : ThreadMetadata) : ThreadMetadata :=
  { m with replyCount := 0, descendantCount := 0 }

structure Moves (db db' : Db) : Prop where
  event : ∀ k row, db'.events.get? k = some row → row.deleted = false →
    db.events.get? k = some row ∨ db.events.get? k = none
  kept : ∀ k m, db.metadata.get? k = some m → ∃ m', db'.metadata.get? k = some m' ∧ m'.bare = m.bare
  fresh : ∀ k m, db.metadata.get? k = none → db'.metadata.get? k = some m →
    (m.depth = 0 ∧ m.rootEventId = none) ∨ db.events.get? k = none

def Scoped (db : Db) : Prop :=
  ∀ k m, db.metadata.get? k = some m → m.rootEventId.isSome = true →
    ∃ row, db.events.get? k = some row ∧ row.channelId.isSome = true

theorem scoped_empty : Scoped .empty := by
  intro k m h
  cases h

variable {c : Commit}

section Commits

variable {db db' : Db}

theorem moves_refl (db : Db) : Moves db db where
  event _ _ h _ := .inl h
  kept _ m h := ⟨m, h, rfl⟩
  fresh _ _ h h' := by cases h.symm.trans h'

theorem moves_of_events (hevents : ∀ k row, db'.events.get? k = some row → row.deleted = false →
    db.events.get? k = some row) (hmeta : db'.metadata = db.metadata) : Moves db db' where
  event k row h hlive := .inl (hevents k row h hlive)
  kept k m h := ⟨m, by rw [hmeta, h], rfl⟩
  fresh k m h h' := by
    rw [hmeta, h] at h'
    cases h'

theorem events_supersede (keys : List Stamp) (k : Stamp) :
    (db.supersede keys).events.get? k =
      (db.events.get? k).map fun row => if keys.contains k then row.delete else row := by
  unfold Db.supersede
  rw [Table.get?_setAll_update]

theorem events_purge (keys : List Stamp) (k : Stamp) :
    (db.purge keys).events.get? k = (db.events.get? k).filter fun _ => !keys.contains k :=
  Table.get?_removeWhere ..

theorem bare_counted (params : ThreadMetadataParams) (id : EventId) (m : ThreadMetadata) :
    (counted params id m).bare = m.bare := rfl

theorem depth_of_bare {m m' : ThreadMetadata} (h : m.bare = m'.bare) : m.depth = m'.depth :=
  congrArg (·.depth) h

theorem root_of_bare {m m' : ThreadMetadata} (h : m.bare = m'.bare) :
    m.rootEventId = m'.rootEventId := congrArg (·.rootEventId) h

theorem metadata_softDelete_bare (db : Db) (id : EventId) (parent root : Option EventId) (k : Stamp) :
    ((softDeleteEventAndUpdateThread db id parent root).1.metadata.get? k).map ThreadMetadata.bare =
      (db.metadata.get? k).map ThreadMetadata.bare := by
  unfold softDeleteEventAndUpdateThread
  cases hlive : db.liveRows id with
  | nil => rw [softDelete_dead hlive]
  | cons x rows =>
    rw [metadata_softDelete (by simp [hlive]), Option.map_map]
    rfl

theorem moves_withEvent {key : Stamp} {ev : EventRow} (hfree : db.events.get? key = none) :
    Moves db (withEvent db key ev) where
  event k row h _ := by
    rw [events_withEvent] at h
    split_ifs at h with hk
    · exact .inr (hk ▸ hfree)
    · exact .inl h
  kept k m h := ⟨m, h, rfl⟩
  fresh k m h h' := by cases h.symm.trans h'

theorem moves_withThread {key : Stamp} {ev : EventRow} {params : ThreadMetadataParams}
    (hfree : db.events.get? key = none) (hnew : db.metadata.get? key = none) :
    Moves db (withThread db key ev params) where
  event k row h _ := by
    rw [events_withThread] at h
    split_ifs at h with hk
    · exact .inr (hk ▸ hfree)
    · exact .inl h
  kept k m h := ⟨_, kept_withThread hnew h, bare_counted ..⟩
  fresh k m h h' := by
    obtain ⟨base, rfl, ⟨rfl, -⟩ | hold | ⟨-, -, rfl⟩⟩ := row_withThread hnew h'
    · exact .inr hfree
    · cases h.symm.trans hold
    · exact .inl ⟨rfl, rfl⟩

theorem moves_softDelete (id : EventId) (parent root : Option EventId) :
    Moves db (softDeleteEventAndUpdateThread db id parent root).1 where
  event k row h hlive := by
    unfold softDeleteEventAndUpdateThread at h
    rw [events_softDelete] at h
    obtain ⟨old, hold, rfl⟩ := Option.map_eq_some_iff.mp h
    split_ifs at hlive ⊢
    · cases hlive
    · exact .inl hold
  kept k m h := by
    have hbare := metadata_softDelete_bare db id parent root k
    rw [h] at hbare
    exact Option.map_eq_some_iff.mp hbare
  fresh k m h h' := by
    have hbare := metadata_softDelete_bare db id parent root k
    rw [h, h'] at hbare
    cases hbare

theorem commit_insert {e : Events.Event} {channelId : Option Uuid}
    {params : Option ThreadMetadataParams}
    (h : commit db (.insertEvent e channelId params) = some db') :
    db' = db ∨ (db.events.get? e.stamp = none ∧
      (db' = withEvent db e.stamp ⟨e, channelId, false⟩ ∨
        ∃ p ∈ params, db.metadata.get? e.stamp = none ∧
          db' = withThread db e.stamp ⟨e, channelId, false⟩ p)) := by
  unfold commit at h
  cases hinsert : insertEventWithThreadMetadata db e channelId params with
  | error err =>
    simp only [hinsert] at h
    cases h
  | ok p =>
    simp only [hinsert, Option.some.injEq] at h
    subst h
    exact insert_cases hinsert

theorem moves_commit (h : commit db c = some db') : Moves db db' := by
  cases c with
  | insertEvent e channelId params =>
    rcases commit_insert h with rfl | ⟨hfree, rfl | ⟨p, -, hnew, rfl⟩⟩
    · exact moves_refl _
    · exact moves_withEvent hfree
    · exact moves_withThread hfree hnew
  | softDelete id parent root =>
    cases h
    exact moves_softDelete id parent root
  | supersede keys =>
    cases h
    refine moves_of_events ?_ rfl
    intro k row h hlive
    rw [events_supersede] at h
    obtain ⟨old, hold, rfl⟩ := Option.map_eq_some_iff.mp h
    split_ifs at hlive ⊢
    · cases hlive
    · exact hold
  | purge keys =>
    cases h
    refine moves_of_events ?_ rfl
    intro k row h _
    rw [events_purge] at h
    exact (Option.filter_eq_some_iff.mp h).1

theorem wall_lt_of_new {wall : Int} (h : commit db c = some db') (habove : AboveWall wall db c)
    {k : Stamp} {row : EventRow} (hget : db'.events.get? k = some row)
    (hfree : db.events.get? k = none) (hchannel : row.channelId.isSome = true) :
    wall < secs k.createdAt := by
  cases c with
  | insertEvent e channelId params =>
    have hadded : k = e.stamp ∧ row = ⟨e, channelId, false⟩ := by
      rcases commit_insert h with rfl | ⟨-, rfl | ⟨p, -, -, rfl⟩⟩
      · cases hfree.symm.trans hget
      · rw [events_withEvent, hfree] at hget
        split_ifs at hget with hk
        cases hget
        exact ⟨hk, rfl⟩
      · rw [events_withThread, hfree] at hget
        split_ifs at hget with hk
        cases hget
        exact ⟨hk, rfl⟩
    obtain ⟨rfl, rfl⟩ := hadded
    exact habove hchannel hfree
  | softDelete id parent root =>
    cases h
    unfold softDeleteEventAndUpdateThread at hget
    rw [events_softDelete, hfree] at hget
    cases hget
  | supersede keys =>
    cases h
    rw [events_supersede, hfree] at hget
    cases hget
  | purge keys =>
    cases h
    rw [events_purge, hfree] at hget
    cases hget

theorem scoped_of_events (hs : Scoped db)
    (hmeta : ∀ k, (db'.metadata.get? k).map ThreadMetadata.bare =
      (db.metadata.get? k).map ThreadMetadata.bare)
    (hevents : ∀ k row m, db.events.get? k = some row → db.metadata.get? k = some m →
      m.rootEventId.isSome = true → ∃ row', db'.events.get? k = some row' ∧
        row'.channelId = row.channelId) : Scoped db' := by
  intro k m hm hroot
  have hbare := hmeta k
  rw [hm] at hbare
  obtain ⟨m₀, hm₀, heq⟩ := Option.map_eq_some_iff.mp hbare.symm
  have hroot₀ : m₀.rootEventId.isSome = true := by rwa [root_of_bare heq]
  obtain ⟨row, hrow, hchannel⟩ := hs k m₀ hm₀ hroot₀
  obtain ⟨row', hrow', hsame⟩ := hevents k row m₀ hrow hm₀ hroot₀
  exact ⟨row', hrow', by rwa [hsame]⟩

theorem scoped_commit (hs : Scoped db) (hpromised : Promised db c) (h : commit db c = some db') :
    Scoped db' := by
  cases c with
  | insertEvent e channelId params =>
    rcases commit_insert h with rfl | ⟨hfree, rfl | ⟨p, hp, hnew, rfl⟩⟩
    · exact hs
    · refine scoped_of_events hs (fun _ => rfl) ?_
      intro k row m hrow _ _
      refine ⟨row, ?_, rfl⟩
      rw [events_withEvent, if_neg, hrow]
      rintro rfl
      cases hfree.symm.trans hrow
    · intro k m hm hroot
      have hlive : ∀ row, db.events.get? k = some row →
          (withThread db e.stamp ⟨e, channelId, false⟩ p).events.get? k = some row := by
        intro row hrow
        rw [events_withThread, if_neg, hrow]
        rintro rfl
        cases hfree.symm.trans hrow
      obtain ⟨base, rfl, ⟨rfl, -⟩ | hold | ⟨-, -, rfl⟩⟩ := row_withThread hnew hm
      · refine ⟨⟨e, channelId, false⟩, ?_, ?_⟩
        · rw [events_withThread, if_pos rfl]
        · rw [hpromised p hp]
          rfl
      · obtain ⟨row, hrow, hchannel⟩ := hs k base hold hroot
        exact ⟨row, hlive row hrow, hchannel⟩
      · cases hroot
  | softDelete id parent root =>
    cases h
    refine scoped_of_events hs (metadata_softDelete_bare db id parent root) ?_
    intro k row m hrow _ _
    unfold softDeleteEventAndUpdateThread
    rw [events_softDelete, hrow]
    refine ⟨_, rfl, ?_⟩
    split_ifs <;> rfl
  | supersede keys =>
    cases h
    refine scoped_of_events hs (fun _ => rfl) ?_
    intro k row m hrow _ _
    rw [events_supersede, hrow]
    refine ⟨_, rfl, ?_⟩
    split_ifs <;> rfl
  | purge keys =>
    cases h
    refine scoped_of_events hs (fun _ => rfl) ?_
    intro k row m hrow hm hroot
    refine ⟨row, ?_, rfl⟩
    rw [events_purge, hrow, Option.filter_some, if_pos]
    -- A row with metadata of a reply is not purged.
    by_contra hin
    have hmem : k ∈ keys := by simpa using hin
    rw [hpromised k hmem m hm] at hroot
    cases hroot

end Commits

/-! ## What a query shows before and after -/

structure View (shown : Db → Stamp → EventRow → Prop) : Prop where
  live : ∀ {db k row}, shown db k row → db.events.get? k = some row ∧ row.deleted = false
  channel : ∀ {db k row}, Scoped db → shown db k row → row.channelId.isSome = true
  back : ∀ {db db' k row}, Moves db db' → db.events.get? k = some row → shown db' k row →
    shown db k row
  forth : ∀ {db db' k row}, Moves db db' → db'.events.get? k = some row → shown db k row →
    shown db' k row

section Views

variable {db db' : Db} {k : Stamp} {row : EventRow}

theorem isTopLevel_bare (m : ThreadMetadata) : isTopLevel (some m) = isTopLevel (some m.bare) := rfl

def ShownInWindow (channelId : Uuid) (kinds : Option (List Kind)) (db : Db) (k : Stamp)
    (row : EventRow) : Prop :=
  ∃ m, db.rowAt channelId kinds k = some (row, m)

theorem view_window (channelId : Uuid) (kinds : Option (List Kind)) :
    View (ShownInWindow channelId kinds) where
  live := by
    rintro db k row ⟨m, h⟩
    obtain ⟨hrow, -, -, hlive, -⟩ := rowAt_some.mp h
    exact ⟨hrow, hlive⟩
  channel := by
    rintro db k row - ⟨m, h⟩
    rw [(rowAt_some.mp h).2.2.1]
    rfl
  back := by
    rintro db db' k row hmoves hrow ⟨m, h⟩
    obtain ⟨-, hm, hchannel, hlive, htop, hkind⟩ := rowAt_some.mp h
    refine ⟨db.metadata.get? k, rowAt_some.mpr ⟨hrow, rfl, hchannel, hlive, ?_, hkind⟩⟩
    cases hold : db.metadata.get? k with
    | none => rfl
    | some m₀ =>
      obtain ⟨m', hm', hbare⟩ := hmoves.kept k m₀ hold
      rwa [isTopLevel_bare, ← hbare, ← isTopLevel_bare, ← hm', hm]
  forth := by
    rintro db db' k row hmoves hrow ⟨m, h⟩
    obtain ⟨hold, hm, hchannel, hlive, htop, hkind⟩ := rowAt_some.mp h
    refine ⟨db'.metadata.get? k, rowAt_some.mpr ⟨hrow, rfl, hchannel, hlive, ?_, hkind⟩⟩
    cases m with
    | some m =>
      obtain ⟨m', hm', hbare⟩ := hmoves.kept k m hm
      rwa [hm', isTopLevel_bare, hbare, ← isTopLevel_bare]
    | none =>
      cases hnew : db'.metadata.get? k with
      | none => rfl
      | some m' =>
        rcases hmoves.fresh k m' hm hnew with ⟨hdepth, -⟩ | hfree
        · simp [isTopLevel, hdepth]
        · cases hfree.symm.trans hold

def ShownInThread (root : EventId) (depthLimit : Option (BitVec 32)) (bare : ThreadMetadata)
    (db : Db) (k : Stamp) (row : EventRow) : Prop :=
  ∃ m, db.replyAt root depthLimit k = some (row, m) ∧ m.bare = bare

theorem view_thread (root : EventId) (depthLimit : Option (BitVec 32)) (bare : ThreadMetadata) :
    View (ShownInThread root depthLimit bare) where
  live := by
    rintro db k row ⟨m, h, -⟩
    obtain ⟨-, hrow, -, hlive, -⟩ := replyAt_some.mp h
    exact ⟨hrow, hlive⟩
  channel := by
    rintro db k row hs ⟨m, h, -⟩
    obtain ⟨hm, hrow, hroot, -, -⟩ := replyAt_some.mp h
    obtain ⟨row', hrow', hchannel⟩ := hs k m hm (by rw [hroot]; rfl)
    cases hrow.symm.trans hrow'
    exact hchannel
  back := by
    rintro db db' k row hmoves hrow ⟨m, h, hbare⟩
    obtain ⟨hm, -, hroot, hlive, hdepth⟩ := replyAt_some.mp h
    cases hold : db.metadata.get? k with
    | none =>
      rcases hmoves.fresh k m hold hm with ⟨-, hnone⟩ | hfree
      · cases hnone.symm.trans hroot
      · cases hfree.symm.trans hrow
    | some m₀ =>
      obtain ⟨m', hm', hbare'⟩ := hmoves.kept k m₀ hold
      cases hm.symm.trans hm'
      refine ⟨m₀, replyAt_some.mpr ⟨hold, hrow, ?_, hlive, ?_⟩, hbare'.symm.trans hbare⟩
      · rw [← root_of_bare hbare', hroot]
      · intro d hd
        rw [← depth_of_bare hbare']
        exact hdepth d hd
  forth := by
    rintro db db' k row hmoves hrow ⟨m, h, hbare⟩
    obtain ⟨hm, -, hroot, hlive, hdepth⟩ := replyAt_some.mp h
    obtain ⟨m', hm', hbare'⟩ := hmoves.kept k m hm
    refine ⟨m', replyAt_some.mpr ⟨hm', hrow, ?_, hlive, ?_⟩, hbare'.trans hbare⟩
    · rw [root_of_bare hbare', hroot]
    · intro d hd
      rw [depth_of_bare hbare']
      exact hdepth d hd

structure Agree (shown : Db → Stamp → EventRow → Prop) (wall : Int) (s db : Db) : Prop where
  covered : ∀ k row, secs k.createdAt ≤ wall → shown db k row → shown s k row
  kept : ∀ k row, secs k.createdAt ≤ wall → shown s k row → db.events.get? k = some row →
    shown db k row

variable {shown : Db → Stamp → EventRow → Prop} {wall : Int}

theorem held_of_commit (h : commit db c = some db') (habove : AboveWall wall db c)
    (hbelow : secs k.createdAt ≤ wall) (hget : db'.events.get? k = some row)
    (hlive : row.deleted = false) (hchannel : row.channelId.isSome = true) :
    db.events.get? k = some row := by
  rcases (moves_commit h).event k row hget hlive with hold | hfree
  · exact hold
  · exact absurd hbelow (not_le.mpr (wall_lt_of_new h habove hget hfree hchannel))

theorem agree_commit {s : Db} (hv : View shown) (hs : Scoped s) (hs' : Scoped db')
    (hagree : Agree shown wall s db) (h : commit db c = some db') (habove : AboveWall wall db c) :
    Agree shown wall s db' where
  covered k row hbelow hshown := by
    obtain ⟨hget, hlive⟩ := hv.live hshown
    have hold := held_of_commit h habove hbelow hget hlive (hv.channel hs' hshown)
    exact hagree.covered k row hbelow (hv.back (moves_commit h) hold hshown)
  kept k row hbelow hshown hget := by
    have hold := held_of_commit h habove hbelow hget (hv.live hshown).2 (hv.channel hs hshown)
    exact hv.forth (moves_commit h) hget (hagree.kept k row hbelow hshown hold)

theorem agree_run {s w : Db} {after : List Commit} (hv : View shown) (hs : Scoped s)
    (hrun : run commit s after = some w) (hpromised : Meets commit Promised s after)
    (habove : Meets commit (AboveWall wall) s after) : Agree shown wall s w := by
  refine (run_invariant_of_meets (fun db => Scoped db ∧ Agree shown wall s db) ?_ ⟨hs, ?_⟩
    (meets_and hpromised habove) hrun).2
  · rintro db c db' ⟨hscoped, hagree⟩ ⟨hp, ha⟩ hstep
    have hscoped' := scoped_commit hscoped hp hstep
    exact ⟨hscoped', agree_commit hv hs hscoped' hagree hstep ha⟩
  · exact ⟨fun _ _ _ h => h, fun _ _ _ h _ => h⟩

end Views

end Vingilot.Threads
