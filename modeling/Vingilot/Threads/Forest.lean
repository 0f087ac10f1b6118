import Vingilot.Lib.Machine
import Vingilot.Threads.Nip10

/-!
# The forest of replies

A row with a parent stands one below its parent's row, under the same root. The row that a reply
makes for a parent without one says that the parent is the top of its thread, so the parent's own
tags must say the same.
-/

namespace Vingilot.Threads.Forest

open Machine
open Events (EventId Stamp DbError Signed)

def IsForest (db : Db) : Prop :=
  ∀ key row pid, db.metadata.get? key = some row → row.parentEventId = some pid →
    (∃ key' row', db.metadata.get? key' = some row' ∧ key'.id = pid) ∧
      ∀ key' row', db.metadata.get? key' = some row' → key'.id = pid →
        row.place = row'.place.child pid

/-! ## Runs -/

inductive Action (signed : Signed) where
  | ingest (e : Events.Event) (channelId : Option Uuid) (pick : Nat) (hsigned : signed.has e)
  | sendMessage (e : Events.Event) (channelId : Uuid) (hsigned : signed.has e) (hkind : e.kind = 9)
  | softDelete (id : EventId) (parent root : Option EventId)
  | purge (key : Stamp)

variable {signed : Signed}

def step (db : Db) : Action signed → Option Db
  | .ingest e channelId pick _ =>
    match Threads.ingest db e channelId pick with
    | .ok (db', _) => some db'
    | .error _ => some db
  | .sendMessage e channelId _ _ =>
    match insertEventWithThreadMetadata db e (some channelId) (some (topLevel channelId)) with
    | .ok (db', _) => some db'
    | .error _ => some db
  | .softDelete id parent root => some (softDeleteEventAndUpdateThread db id parent root).1
  | .purge key => do
    let row ← db.events.get? key
    if requiresHChannelScope row.event.kind then none
    else some { db with events := db.events.remove key }

def Action.isIngest : Action signed → Bool
  | .ingest _ _ _ _ => true
  | _ => false

/-- A new reply to a parent without a row, under the root that the parent's tags name, is a reply to
that root. -/
def grounded (db : Db) : Action signed → Prop
  | .ingest e (some channelId) _ _ =>
    requiresHChannelScope e.kind = true → db.events.get? e.stamp = none →
      ∀ named ∈ replyTo e, ∀ parent ∈ db.getEventById named.2,
        parent.channelId = some channelId → db.rowsOf named.2 = [] →
          ownRoot parent.event named.2 = named.1 → named.1 = named.2
  | _ => True

/-! ## What every state keeps -/

structure Inv (signed : Signed) (db : Db) : Prop where
  origin : Original signed db
  known : ∀ k row, db.metadata.get? k = some row → ∃ e, signed.has e ∧ e.id = k.id ∧
    (requiresHChannelScope e.kind = true → (db.events.get? e.stamp).isSome = true)
  forest : IsForest db
  agree : ∀ k k' row row', db.metadata.get? k = some row → db.metadata.get? k' = some row' →
    k.id = k'.id → row.parentEventId = row'.parentEventId ∧ row.place = row'.place
  top : ∀ k row, db.metadata.get? k = some row → row.parentEventId = none → row.place = .top
  rooted : ∀ k row root, db.metadata.get? k = some row → row.rootEventId = some root →
    ∃ k' row', db.metadata.get? k' = some row' ∧ k'.id = root ∧ row'.parentEventId = none
  home : ∀ k row, db.metadata.get? k = some row → row.parentEventId.isSome = true →
    ∃ e, signed.has e ∧ e.stamp = k

variable {k : Stamp} {row : ThreadMetadata}

section Facts

variable {db : Db} (hinv : Inv signed db)

include hinv

theorem top_of_rootless (hget : db.metadata.get? k = some row) (hroot : row.rootEventId = none) :
    row.parentEventId = none := by
  cases hparent : row.parentEventId with
  | none => rfl
  | some pid =>
    obtain ⟨⟨k', row', hget', hid⟩, hplace⟩ := hinv.forest k row pid hget hparent
    have hchild := congrArg Place.root (hplace k' row' hget' hid)
    cases hroot.symm.trans hchild

theorem placeOf_row (hget : db.metadata.get? k = some row) (parent : Events.Event) (pick : Nat) :
    db.placeOf parent k.id pick = row.place := by
  unfold Db.placeOf
  cases hrow : db.getThreadMetadataByEvent k.id pick with
  | none =>
    have hmem := mem_rowsOf.mpr ⟨hget, rfl⟩
    rw [metadata_none hrow] at hmem
    cases hmem
  | some row' =>
    obtain ⟨k', hget', hid⟩ := metadata_some hrow
    exact (hinv.agree k' k row' row hget' hget hid).2

end Facts

theorem placeOf_none {db : Db} {pid : EventId} (h : db.rowsOf pid = []) (parent : Events.Event)
    (pick : Nat) : db.placeOf parent pid pick = ownPlace parent pid := by
  unfold Db.placeOf
  cases hrow : db.getThreadMetadataByEvent pid pick with
  | none => rfl
  | some row =>
    obtain ⟨k, hget, hid⟩ := metadata_some hrow
    have hmem := mem_rowsOf.mpr ⟨hget, hid⟩
    rw [h] at hmem
    cases hmem

/-! ## Insertion -/

variable {root : EventId}

section Insert

variable {db : Db} {key : Stamp} {params : ThreadMetadataParams} {ev : EventRow}

structure Fits (signed : Signed) (db : Db) (key : Stamp) (params : ThreadMetadataParams) : Prop where
  fresh : ∀ k row, db.metadata.get? k = some row → k.id ≠ key.id
  top : params.parentEventId = none → params.place = .top
  other : ∀ pid, params.parentEventId = some pid → pid ≠ key.id
  child : ∀ pid, params.parentEventId = some pid → ∀ k row, db.metadata.get? k = some row →
    k.id = pid → params.place = row.place.child pid
  first : ∀ pid, params.parentEventId = some pid → ∀ k ∈ stubKeys key params,
    db.metadata.get? k = none → k.id = pid → params.place = Place.top.child pid
  rooted : ∀ root, params.rootEventId = some root → root ≠ key.id ∧
    (∀ k row, db.metadata.get? k = some row → k.id = root → row.parentEventId = none) ∧
      ((∃ k row, db.metadata.get? k = some row ∧ k.id = root) ∨
        ∃ k ∈ stubKeys key params, k.id = root)
  stub : ∀ k ∈ stubKeys key params, db.metadata.get? k = none → k.id ≠ key.id ∧
    (∀ k' row, db.metadata.get? k' = some row → k'.id = k.id → row.parentEventId = none) ∧
      ∃ e, signed.has e ∧ e.id = k.id ∧
        (requiresHChannelScope e.kind = true → (db.events.get? e.stamp).isSome = true)

@[simp]
theorem place_counted (id : EventId) (row : ThreadMetadata) :
    (counted params id row).place = row.place := rfl

theorem parent_mem_stubKeys {pid : EventId} (h : params.parentEventId = some pid) :
    ∃ k ∈ stubKeys key params, k.id = pid := by
  unfold stubKeys
  rw [h]
  exact ⟨_, List.mem_cons_self, rfl⟩

theorem Fits.free (hfits : Fits signed db key params) : db.metadata.get? key = none := by
  cases hget : db.metadata.get? key with
  | none => rfl
  | some row => exact absurd rfl (hfits.fresh key row hget)

theorem stub_exists (ev : EventRow) (hfits : Fits signed db key params)
    (h : k ∈ stubKeys key params) :
    ∃ row, (withThread db key ev params).metadata.get? k = some row :=
  Option.isSome_iff_exists.mp (named_withThread hfits.free (List.mem_cons_of_mem _ h))

theorem forest_withThread (hinv : Inv signed db) (hfits : Fits signed db key params) :
    IsForest (withThread db key ev params) := by
  intro k row pid hget hparent
  obtain ⟨base, rfl, ⟨rfl, rfl⟩ | hold | ⟨hstub, hnone, rfl⟩⟩ := row_withThread hfits.free hget
  · -- the new row
    obtain ⟨kp, hkp, hid⟩ : ∃ kp ∈ stubKeys k params, kp.id = pid := parent_mem_stubKeys hparent
    obtain ⟨row', hrow'⟩ := stub_exists ev hfits hkp
    refine ⟨⟨kp, row', hrow', hid⟩, ?_⟩
    intro k' row' hget' hid'
    obtain ⟨base, rfl, ⟨rfl, rfl⟩ | hold | ⟨hstub, hnone, rfl⟩⟩ := row_withThread hfits.free hget'
    · exact absurd hid'.symm (hfits.other pid hparent)
    · exact hfits.child pid hparent k' base hold hid'
    · exact hfits.first pid hparent k' hstub hnone hid'
  · -- a row that was there, and so was its parent's
    obtain ⟨⟨kp, rowp, hgetp, hidp⟩, hplace⟩ := hinv.forest k base pid hold hparent
    refine ⟨⟨kp, _, kept_withThread hfits.free hgetp, hidp⟩, ?_⟩
    intro k' row' hget' hid'
    obtain ⟨base', rfl, ⟨rfl, rfl⟩ | hold' | ⟨hstub, hnone, rfl⟩⟩ :=
      row_withThread hfits.free hget'
    · exact absurd (hidp.trans hid'.symm) (hfits.fresh kp rowp hgetp)
    · exact hplace k' base' hold' hid'
    · have hnoparent := (hfits.stub k' hstub hnone).2.1 kp rowp hgetp (hidp.trans hid'.symm)
      rw [place_counted, hplace kp rowp hgetp hidp, hinv.top kp rowp hgetp hnoparent]
      rfl
  · cases hparent

theorem agree_withThread (hinv : Inv signed db) (hfits : Fits signed db key params) {k' : Stamp}
    {row' : ThreadMetadata} (hget : (withThread db key ev params).metadata.get? k = some row)
    (hget' : (withThread db key ev params).metadata.get? k' = some row') (hid : k.id = k'.id) :
    row.parentEventId = row'.parentEventId ∧ row.place = row'.place := by
  have hmixed : ∀ {k k' base}, db.metadata.get? k = some base → k' ∈ stubKeys key params →
      db.metadata.get? k' = none → k.id = k'.id → base.parentEventId = none ∧ base.place = .top := by
    intro k k' base hold hstub hnone hid
    have hnoparent := (hfits.stub k' hstub hnone).2.1 k base hold hid
    exact ⟨hnoparent, hinv.top k base hold hnoparent⟩
  obtain ⟨base, rfl, ⟨rfl, rfl⟩ | hold | ⟨hstub, hnone, rfl⟩⟩ := row_withThread hfits.free hget <;>
    obtain ⟨base', rfl, ⟨rfl, rfl⟩ | hold' | ⟨hstub', hnone', rfl⟩⟩ :=
      row_withThread hfits.free hget'
  · exact ⟨rfl, rfl⟩
  · exact absurd hid.symm (hfits.fresh k' base' hold')
  · exact absurd hid.symm (hfits.stub k' hstub' hnone').1
  · exact absurd hid (hfits.fresh k base hold)
  · exact hinv.agree k k' base base' hold hold' hid
  · have htop := hmixed hold hstub' hnone' hid
    exact htop
  · exact absurd hid (hfits.stub k hstub hnone).1
  · obtain ⟨hparent, hplace⟩ := hmixed hold' hstub hnone hid.symm
    exact ⟨hparent.symm, hplace.symm⟩
  · exact ⟨rfl, rfl⟩

theorem rooted_withThread (hinv : Inv signed db) (hfits : Fits signed db key params)
    (hget : (withThread db key ev params).metadata.get? k = some row)
    (hroot : row.rootEventId = some root) :
    ∃ k' row', (withThread db key ev params).metadata.get? k' = some row' ∧ k'.id = root ∧
      row'.parentEventId = none := by
  obtain ⟨base, rfl, ⟨rfl, rfl⟩ | hold | ⟨-, -, rfl⟩⟩ := row_withThread hfits.free hget
  · obtain ⟨hne, htops, ⟨k', row', hold, hid⟩ | ⟨k', hstub, hid⟩⟩ := hfits.rooted root hroot
    · exact ⟨k', _, kept_withThread hfits.free hold, hid, htops k' row' hold hid⟩
    · obtain ⟨row', hget'⟩ := stub_exists ev hfits hstub
      refine ⟨k', row', hget', hid, ?_⟩
      obtain ⟨base, rfl, ⟨rfl, rfl⟩ | hold | ⟨-, -, rfl⟩⟩ := row_withThread hfits.free hget'
      · exact absurd hid.symm hne
      · exact htops k' base hold hid
      · rfl
  · obtain ⟨k', row', hold', hid, hnoparent⟩ := hinv.rooted k base root hold hroot
    exact ⟨k', _, kept_withThread hfits.free hold', hid, hnoparent⟩
  · cases hroot

theorem inv_withThread (hinv : Inv signed db) (hfits : Fits signed db key params)
    (horigin : ev.event.stamp = key ∧ signed.has ev.event) :
    Inv signed (withThread db key ev params) where
  origin := hinv.origin.set horigin events_withThread
  known k row h := by
    have hmono : ∀ e : Events.Event, (db.events.get? e.stamp).isSome = true →
        ((withThread db key ev params).events.get? e.stamp).isSome = true := by
      intro e hsome
      rw [events_withThread]
      split_ifs
      · rfl
      · exact hsome
    obtain ⟨base, rfl, ⟨rfl, rfl⟩ | hold | ⟨hstub, hnone, rfl⟩⟩ := row_withThread hfits.free h
    · refine ⟨ev.event, horigin.2, ?_, ?_⟩
      · rw [← horigin.1]
        rfl
      · intro _
        rw [horigin.1, events_withThread, if_pos rfl]
        rfl
    · obtain ⟨e, hsigned, hid, hstored⟩ := hinv.known k base hold
      exact ⟨e, hsigned, hid, fun hkind => hmono e (hstored hkind)⟩
    · obtain ⟨e, hsigned, hid, hstored⟩ := (hfits.stub k hstub hnone).2.2
      exact ⟨e, hsigned, hid, fun hkind => hmono e (hstored hkind)⟩
  forest := forest_withThread hinv hfits
  agree k k' row row' h h' hid := agree_withThread hinv hfits h h' hid
  top k row h hparent := by
    obtain ⟨base, rfl, ⟨rfl, rfl⟩ | hold | ⟨-, -, rfl⟩⟩ := row_withThread hfits.free h
    · exact hfits.top hparent
    · exact hinv.top k base hold hparent
    · rfl
  rooted k row root h hroot := rooted_withThread hinv hfits h hroot
  home k row h hsome := by
    obtain ⟨base, rfl, ⟨rfl, rfl⟩ | hold | ⟨-, -, rfl⟩⟩ := row_withThread hfits.free h
    · exact ⟨ev.event, horigin.2, horigin.1⟩
    · exact hinv.home k base hold hsome
    · cases hsome

theorem fresh_of_free (hinv : Inv signed db) {e : Events.Event} (hsigned : signed.has e)
    (hkind : requiresHChannelScope e.kind = true) (hfree : db.events.get? e.stamp = none)
    (k : Stamp) (row : ThreadMetadata) (hget : db.metadata.get? k = some row) :
    k.id ≠ e.stamp.id := by
  intro hid
  obtain ⟨e', hsigned', hid', hstored⟩ := hinv.known k row hget
  have hsame : e' = e := signed.id_injective e' e hsigned' hsigned (hid'.trans hid)
  rw [hsame, hfree] at hstored
  cases hstored hkind

theorem fits_topLevel (channelId : Uuid)
    (hfresh : ∀ k row, db.metadata.get? k = some row → k.id ≠ key.id) :
    Fits signed db key (topLevel channelId) where
  fresh := hfresh
  top _ := rfl
  other pid h := by cases h
  child pid h := by cases h
  first pid h := by cases h
  rooted root h := by cases h
  stub k h := by cases h

/-! ### A reply -/

section Reply

variable {e : Events.Event} {channelId : Uuid} {pick : Nat} {parent : EventRow} {pid : EventId}

theorem stub_cases (h : Replies db e channelId pick params parent pid)
    (hstub : k ∈ stubKeys key params) :
    k = ⟨parent.event.time, pid⟩ ∨ (db.placeOf parent.event pid pick).root = some k.id := by
  have hroot : params.rootEventId = some ((db.placeOf parent.event pid pick).root.getD pid) :=
    congrArg Place.root h.place
  unfold stubKeys at hstub
  rw [h.parentEventId, h.parentEventCreatedAt, hroot, Option.getD_some] at hstub
  rcases List.mem_cons.mp hstub with hk | hstub
  · exact .inl hk
  · right
    simp only at hstub
    split_ifs at hstub with hne
    · rw [List.mem_singleton.mp hstub]
      cases hplace : (db.placeOf parent.event pid pick).root with
      | none =>
        rw [hplace, Option.getD_none] at hne
        exact absurd rfl hne
      | some root => rfl
    · cases hstub

theorem tops_of_root (hinv : Inv signed db)
    (hown : db.rowsOf pid = [] → ownRoot parent.event pid = pid)
    (hroot : (db.placeOf parent.event pid pick).root = some root) :
    (∃ k row, db.metadata.get? k = some row ∧ k.id = root) ∧
      ∀ k row, db.metadata.get? k = some row → k.id = root → row.parentEventId = none := by
  rcases rowsOf_cases db pid with hrows | ⟨k, row, hget, rfl⟩
  · rw [placeOf_none hrows, ownPlace, if_pos (hown hrows)] at hroot
    cases hroot
  · rw [placeOf_row hinv hget] at hroot
    obtain ⟨k', row', hget', hid', hnoparent⟩ := hinv.rooted k row root hget hroot
    refine ⟨⟨k', row', hget', hid'⟩, ?_⟩
    intro k row hget'' hid''
    rw [(hinv.agree k k' row row' hget'' hget' (hid''.trans hid'.symm)).1]
    exact hnoparent

theorem parent_tops (hinv : Inv signed db) (hparent : db.getEventById pid = some parent)
    (hnone : db.metadata.get? ⟨parent.event.time, pid⟩ = none) (k : Stamp) (row : ThreadMetadata)
    (hget : db.metadata.get? k = some row) (hid : k.id = pid) : row.parentEventId = none := by
  cases hrow : row.parentEventId with
  | none => rfl
  | some above =>
    obtain ⟨-, hsigned, hstamp⟩ := hinv.origin.live_stamp hparent
    obtain ⟨e', hsigned', rfl⟩ := hinv.home k row hget (by rw [hrow]; rfl)
    have hsame : e' = parent.event :=
      signed.id_injective e' parent.event hsigned' hsigned (hid.trans (congrArg Stamp.id hstamp).symm)
    rw [hsame, hstamp, hnone] at hget
    cases hget

theorem placeOf_top (hinv : Inv signed db)
    (hown : db.rowsOf pid = [] → ownRoot parent.event pid = pid)
    (htops : ∀ k row, db.metadata.get? k = some row → k.id = pid → row.parentEventId = none) :
    db.placeOf parent.event pid pick = .top := by
  rcases rowsOf_cases db pid with hrows | ⟨k, row, hget, rfl⟩
  · rw [placeOf_none hrows, ownPlace, if_pos (hown hrows)]
  · rw [placeOf_row hinv hget, hinv.top k row hget (htops k row hget rfl)]

theorem fits_reply (hinv : Inv signed db) (hsigned : signed.has e)
    (hkind : requiresHChannelScope e.kind = true) (hfree : db.events.get? e.stamp = none)
    (h : Replies db e channelId pick params parent pid)
    (hown : db.rowsOf pid = [] → ownRoot parent.event pid = pid) :
    Fits signed db e.stamp params := by
  have hfresh := fresh_of_free hinv hsigned hkind hfree
  obtain ⟨hstored, hparent, hstamp⟩ := hinv.origin.live_stamp h.stored
  have hother : pid ≠ e.stamp.id := by
    intro hid
    have hsame : parent.event = e :=
      signed.id_injective _ _ hparent hsigned ((congrArg Stamp.id hstamp).trans hid)
    rw [hsame] at hstamp hstored
    rw [hstamp, hstored] at hfree
    cases hfree
  have hplace : ∀ k row, db.metadata.get? k = some row → k.id = pid →
      db.placeOf parent.event pid pick = row.place := by
    rintro k row hget rfl
    exact placeOf_row hinv hget parent.event pick
  have hroot : params.rootEventId = some ((db.placeOf parent.event pid pick).root.getD pid) :=
    congrArg Place.root h.place
  refine ⟨hfresh, ?_, ?_, ?_, ?_, ?_, ?_⟩
  · intro hnone
    cases h.parentEventId.symm.trans hnone
  · intro pid' hpid
    cases h.parentEventId.symm.trans hpid
    exact hother
  · intro pid' hpid k row hget hid
    cases h.parentEventId.symm.trans hpid
    rw [h.place, hplace k row hget hid]
  · intro pid' hpid k hstub hnone hid
    cases h.parentEventId.symm.trans hpid
    rw [h.place]
    congr 1
    rcases stub_cases h hstub with rfl | hr
    · exact placeOf_top hinv hown (parent_tops hinv h.stored hnone)
    · rw [hid] at hr
      exact placeOf_top hinv hown (tops_of_root hinv hown hr).2
  · intro root hr
    cases hroot.symm.trans hr
    cases habove : (db.placeOf parent.event pid pick).root with
    | none =>
      refine ⟨hother, ?_, .inr (parent_mem_stubKeys h.parentEventId)⟩
      intro k row hget hid
      refine top_of_rootless hinv hget ?_
      rw [hplace k row hget hid] at habove
      exact habove
    | some root =>
      obtain ⟨⟨k, row, hget, hid⟩, htops⟩ := tops_of_root hinv hown habove
      refine ⟨?_, htops, .inl ⟨k, row, hget, hid⟩⟩
      rw [Option.getD_some, ← hid]
      exact hfresh k row hget
  · intro k hstub hnone
    rcases stub_cases h hstub with rfl | hr
    · exact ⟨hother, parent_tops hinv h.stored hnone, parent.event, hparent,
        congrArg Stamp.id hstamp, fun _ => by rw [hstamp, hstored]; rfl⟩
    · obtain ⟨⟨k', row, hget, hid⟩, htops⟩ := tops_of_root hinv hown hr
      obtain ⟨e', hsigned', hid', hstored'⟩ := hinv.known k' row hget
      refine ⟨?_, htops, e', hsigned', hid'.trans hid, hstored'⟩
      rw [← hid]
      exact hfresh k' row hget

end Reply

end Insert

/-! ## Steps that leave the links of the rows alone -/

def links (row : ThreadMetadata) : Option EventId × Place := (row.parentEventId, row.place)

section Same

variable {db db' : Db}

theorem linked (hsame : ∀ k, (db'.metadata.get? k).map links = (db.metadata.get? k).map links)
    (hget : db'.metadata.get? k = some row) :
    ∃ old, db.metadata.get? k = some old ∧ row.parentEventId = old.parentEventId ∧
      row.place = old.place := by
  have hlinks := hsame k
  rw [hget, Option.map_some, eq_comm, Option.map_eq_some_iff] at hlinks
  obtain ⟨old, hold, heq⟩ := hlinks
  exact ⟨old, hold, (congrArg Prod.fst heq).symm, (congrArg Prod.snd heq).symm⟩

theorem inv_of_links (hinv : Inv signed db)
    (horigin : Original signed db')
    (hstored : ∀ e, signed.has e → requiresHChannelScope e.kind = true →
      (db.events.get? e.stamp).isSome = true → (db'.events.get? e.stamp).isSome = true)
    (hsame : ∀ k, (db'.metadata.get? k).map links = (db.metadata.get? k).map links) :
    Inv signed db' where
  origin := horigin
  known k row h := by
    obtain ⟨old, hold, -⟩ := linked hsame h
    obtain ⟨e, hsigned, hid, hmem⟩ := hinv.known k old hold
    exact ⟨e, hsigned, hid, fun hkind => hstored e hsigned hkind (hmem hkind)⟩
  forest k row pid h hparent := by
    obtain ⟨old, hold, hparent', hplace⟩ := linked hsame h
    obtain ⟨⟨k', row', hget', hid⟩, hall⟩ := hinv.forest k old pid hold (hparent'.symm.trans hparent)
    obtain ⟨new, hnew, -⟩ := linked (fun k => (hsame k).symm) hget'
    refine ⟨⟨k', new, hnew, hid⟩, ?_⟩
    intro k'' row'' hget'' hid''
    obtain ⟨old'', hold'', -, hplace''⟩ := linked hsame hget''
    rw [hplace, hplace'', hall k'' old'' hold'' hid'']
  agree k k' row row' h h' hid := by
    obtain ⟨old, hold, hparent, hplace⟩ := linked hsame h
    obtain ⟨old', hold', hparent', hplace'⟩ := linked hsame h'
    rw [hparent, hparent', hplace, hplace']
    exact hinv.agree k k' old old' hold hold' hid
  top k row h hnone := by
    obtain ⟨old, hold, hparent, hplace⟩ := linked hsame h
    rw [hplace]
    exact hinv.top k old hold (hparent.symm.trans hnone)
  rooted k row root h hroot := by
    obtain ⟨old, hold, -, hplace⟩ := linked hsame h
    obtain ⟨k', row', hget', hid, hnone⟩ :=
      hinv.rooted k old root hold ((congrArg Place.root hplace).symm.trans hroot)
    obtain ⟨new, hnew, hparent, -⟩ := linked (fun k => (hsame k).symm) hget'
    exact ⟨k', new, hnew, hid, hparent.symm.trans hnone⟩
  home k row h hsome := by
    obtain ⟨old, hold, hparent, -⟩ := linked hsame h
    exact hinv.home k old hold (by rw [← hparent]; exact hsome)

theorem inv_withEvent {key : Stamp} {ev : EventRow} (hinv : Inv signed db)
    (horigin : ev.event.stamp = key ∧ signed.has ev.event) : Inv signed (withEvent db key ev) := by
  refine inv_of_links hinv (hinv.origin.set horigin events_withEvent) ?_ fun k => rfl
  intro e _ _ hsome
  rw [events_withEvent]
  split_ifs
  · rfl
  · exact hsome

theorem inv_softDelete (hinv : Inv signed db) (id : EventId) (parent root : Option EventId) :
    Inv signed (softDeleteEventAndUpdateThread db id parent root).1 := by
  unfold softDeleteEventAndUpdateThread
  refine inv_of_links hinv (hinv.origin.softDelete _ id parent root) ?_ ?_
  · intro e _ _ hsome
    rw [events_softDelete, Option.isSome_map]
    exact hsome
  · intro k
    by_cases hlive : db.liveRows id = []
    · rw [softDelete_dead hlive]
    · rw [metadata_softDelete hlive, Option.map_map]
      rfl

theorem inv_purge {key : Stamp} {row : EventRow} (hinv : Inv signed db)
    (hget : db.events.get? key = some row)
    (hkind : ¬ requiresHChannelScope row.event.kind = true) :
    Inv signed { db with events := db.events.remove key } := by
  refine inv_of_links hinv (hinv.origin.purge key) ?_ fun k => rfl
  intro e hsigned hthreaded hsome
  rw [Table.get?_remove, if_neg]
  · exact hsome
  · rintro rfl
    obtain ⟨hstamp, hsigned'⟩ := hinv.origin e.stamp row hget
    rw [signed.id_injective _ _ hsigned' hsigned (congrArg Stamp.id hstamp)] at hkind
    exact hkind hthreaded

end Same

/-! ## Ingest -/

inductive Ingested (signed : Signed) (db : Db) (e : Events.Event) : Db → Prop where
  | unchanged : Ingested signed db e db
  | plain (channelId : Option Uuid) (hfree : db.events.get? e.stamp = none) :
    Ingested signed db e (withEvent db e.stamp ⟨e, channelId, false⟩)
  | reply {channelId : Uuid} {pick : Nat} {params : ThreadMetadataParams} {parent : EventRow}
    {pid : EventId} (hfree : db.events.get? e.stamp = none)
    (hkind : requiresHChannelScope e.kind = true)
    (hreplies : Replies db e channelId pick params parent pid)
    (hown : db.rowsOf pid = [] → ownRoot parent.event pid = pid) :
    Ingested signed db e (withThread db e.stamp ⟨e, some channelId, false⟩ params)

theorem ingest_cases {db db' : Db} {e : Events.Event} {channelId : Option Uuid} {pick : Nat}
    {hsigned : signed.has e} (hgrounded : grounded db (.ingest e channelId pick hsigned))
    (h : step db (.ingest e channelId pick hsigned) = some db') : Ingested signed db e db' := by
  simp only [step, ingest] at h
  cases hmeta : threadMeta db e channelId pick with
  | error message =>
    simp only [hmeta, Option.some.injEq] at h
    rw [← h]
    exact .unchanged
  | ok params =>
    simp only [hmeta] at h
    cases hinsert : insertEventWithThreadMetadata db e channelId params with
    | error error =>
      have hsame : db = db' := by
        cases error <;> simpa [hinsert] using h
      rw [← hsame]
      exact .unchanged
    | ok result =>
      obtain ⟨new, inserted⟩ := result
      simp only [hinsert, Option.some.injEq] at h
      rw [← h]
      rcases insert_cases hinsert with rfl | ⟨hfree, rfl | ⟨p, hp, hnew, rfl⟩⟩
      · exact .unchanged
      · exact .plain channelId hfree
      · -- only a reply in a channel gets metadata
        cases hp
        unfold threadMeta at hmeta
        split_ifs at hmeta with hkind
        · cases channelId with
          | none => cases hmeta
          | some channelId =>
            obtain ⟨parent, pid, hreplies⟩ := resolve_cases hmeta
            refine .reply hfree hkind hreplies ?_
            intro hrows
            have hown := hgrounded hkind hfree _ hreplies.reply parent hreplies.stored
              hreplies.channel hrows
            rw [placeOf_none hrows, root_ownPlace] at hown
            exact hown rfl
        · cases hmeta

theorem inv_ingested {db db' : Db} {e : Events.Event} (hinv : Inv signed db)
    (hsigned : signed.has e) (h : Ingested signed db e db') : Inv signed db' := by
  cases h with
  | unchanged => exact hinv
  | plain channelId hfree => exact inv_withEvent hinv ⟨rfl, hsigned⟩
  | reply hfree hkind hreplies hown =>
    exact inv_withThread hinv (fits_reply hinv hsigned hkind hfree hreplies hown) ⟨rfl, hsigned⟩

theorem inv_sendMessage {db db' : Db} {e : Events.Event} {channelId : Uuid} {inserted : Bool}
    (hinv : Inv signed db) (hsigned : signed.has e) (hkind : e.kind = 9)
    (h : insertEventWithThreadMetadata db e (some channelId) (some (topLevel channelId)) =
      .ok (db', inserted)) : Inv signed db' := by
  have hthreaded : requiresHChannelScope e.kind = true := by
    rw [hkind]
    rfl
  rcases insert_cases h with rfl | ⟨hfree, rfl | ⟨p, hp, -, rfl⟩⟩
  · exact hinv
  · exact inv_withEvent hinv ⟨rfl, hsigned⟩
  · cases hp
    have hfresh := fresh_of_free hinv hsigned hthreaded hfree
    exact inv_withThread hinv (fits_topLevel channelId hfresh) ⟨rfl, hsigned⟩

theorem inv_step {db db' : Db} {action : Action signed} (hinv : Inv signed db)
    (hgrounded : grounded db action) (hstep : step db action = some db') : Inv signed db' := by
  cases action with
  | ingest e channelId pick hsigned =>
    exact inv_ingested hinv hsigned (ingest_cases hgrounded hstep)
  | sendMessage e channelId hsigned hkind =>
    simp only [step] at hstep
    split at hstep
    · rename_i new inserted hinsert
      cases hstep
      exact inv_sendMessage hinv hsigned hkind hinsert
    · cases hstep
      exact hinv
  | softDelete id parent root =>
    simp only [step, Option.some.injEq] at hstep
    rw [← hstep]
    exact inv_softDelete hinv id parent root
  | purge key =>
    simp only [step, Option.bind_eq_bind, Option.bind_eq_some_iff] at hstep
    obtain ⟨row, hget, hstep⟩ := hstep
    split_ifs at hstep with hkind
    cases hstep
    exact inv_purge hinv hget hkind

theorem inv_init (signed : Signed) : Inv signed .empty where
  origin k ev h := by cases h
  known k row h := by cases h
  forest k row pid h := by cases h
  agree k k' row row' h := by cases h
  top k row h := by cases h
  rooted k row root h := by cases h
  home k row h := by cases h

/-! ## Siblings -/

variable {reply : Events.Event}

section Siblings

variable {db db' : Db} {e : Events.Event}

theorem getEventById_insert {key : Stamp} {ev : EventRow} {pid : EventId} (hinv : Inv signed db)
    (hinv' : Inv signed db') (hne : pid ≠ key.id)
    (hevents : ∀ k, db'.events.get? k = if k = key then some ev else db.events.get? k) :
    db'.getEventById pid = db.getEventById pid := by
  refine Option.ext fun found => ?_
  rw [hinv'.origin.getEventById_iff, hinv.origin.getEventById_iff]
  have hkey : ∀ k : Stamp, k.id = pid → db'.events.get? k = db.events.get? k := by
    rintro k rfl
    rw [hevents, if_neg]
    rintro rfl
    exact hne rfl
  constructor
  · rintro ⟨k, hget, hid, hlive⟩
    exact ⟨k, (hkey k hid).symm.trans hget, hid, hlive⟩
  · rintro ⟨k, hget, hid, hlive⟩
    exact ⟨k, (hkey k hid).trans hget, hid, hlive⟩

theorem placeOf_pick (hinv : Inv signed db) (parent : Events.Event) (pid : EventId)
    (pick pick' : Nat) : db.placeOf parent pid pick = db.placeOf parent pid pick' := by
  rcases rowsOf_cases db pid with hrows | ⟨k, row, hget, rfl⟩
  · rw [placeOf_none hrows, placeOf_none hrows]
  · rw [placeOf_row hinv hget, placeOf_row hinv hget]

theorem placeOf_reply (hinv : Inv signed db) {channelId : Uuid} {pick : Nat}
    {params : ThreadMetadataParams} {parent : EventRow} {pid : EventId} {ev : EventRow}
    (hinv' : Inv signed (withThread db e.stamp ev params))
    (hfits : Fits signed db e.stamp params)
    (hreplies : Replies db e channelId pick params parent pid)
    (hown : db.rowsOf pid = [] → ownRoot parent.event pid = pid) {other : EventRow} {id : EventId}
    (hother : db.getEventById id = some other) (hne : id ≠ e.stamp.id) (pick₁ pick₂ : Nat) :
    (withThread db e.stamp ev params).placeOf other.event id pick₁ =
      db.placeOf other.event id pick₂ := by
  rcases rowsOf_cases db id with hrows | ⟨k, row, hget, rfl⟩
  · rcases rowsOf_cases (withThread db e.stamp ev params) id with hrows' | ⟨k, row, hget, rfl⟩
    · rw [placeOf_none hrows, placeOf_none hrows']
    · have hnone : ∀ row, db.metadata.get? k ≠ some row := by
        intro row hold
        have hmem := mem_rowsOf.mpr ⟨hold, rfl⟩
        rw [hrows] at hmem
        cases hmem
      rw [placeOf_row hinv' hget, placeOf_none hrows]
      obtain ⟨base, rfl, ⟨rfl, rfl⟩ | hold | ⟨hstub, -, rfl⟩⟩ := row_withThread hfits.free hget
      · exact absurd rfl hne
      · exact absurd hold (hnone base)
      · rcases stub_cases hreplies hstub with rfl | hroot
        · -- the first row of the parent: its own tags must make it a top
          cases hreplies.stored.symm.trans hother
          rw [ownPlace, if_pos (hown hrows)]
          rfl
        · obtain ⟨⟨k', row', hget', hid⟩, -⟩ := tops_of_root hinv hown hroot
          have hmem := mem_rowsOf.mpr ⟨hget', hid⟩
          rw [hrows] at hmem
          cases hmem
  · rw [placeOf_row hinv hget, placeOf_row hinv' (kept_withThread hfits.free hget)]
    rfl

theorem decision_congr {pid : EventId} {pick pick' : Nat}
    (hreply : replyTo reply = some (root, pid)) (hsame : db'.getEventById pid = db.getEventById pid)
    (hplace : ∀ parent, db.getEventById pid = some parent →
      db'.placeOf parent.event pid pick = db.placeOf parent.event pid pick') (channelId : Uuid) :
    decision db' reply channelId pick = decision db reply channelId pick' := by
  cases hparent : db.getEventById pid with
  | none => rw [decision_orphan hreply hparent, decision_orphan hreply (hsame.trans hparent)]
  | some parent =>
    rw [decision_reply hreply hparent, decision_reply hreply (hsame.trans hparent),
      hplace parent hparent]

theorem decision_ingested (hinv : Inv signed db) (hinv' : Inv signed db') (hsigned : signed.has e)
    (h : Ingested signed db e db') {pid : EventId} (hreply : replyTo reply = some (root, pid))
    {ev : EventRow} (hstored : db.events.get? k = some ev) (hid : k.id = pid) (channelId : Uuid)
    (pick pick' : Nat) : decision db' reply channelId pick = decision db reply channelId pick' := by
  have hne : db.events.get? e.stamp = none → pid ≠ e.stamp.id := by
    intro hfree
    rw [← hid]
    exact hinv.origin.id_ne hsigned hfree hstored
  cases h with
  | unchanged =>
    exact decision_congr hreply rfl (fun parent _ => placeOf_pick hinv parent.event pid pick pick')
      channelId
  | plain _ hfree =>
    have hsame := getEventById_insert hinv hinv' (hne hfree) events_withEvent
    exact decision_congr hreply hsame
      (fun parent _ => placeOf_pick hinv parent.event pid pick pick') channelId
  | reply hfree hkind hreplies hown =>
    have hfits := fits_reply hinv hsigned hkind hfree hreplies hown
    have hsame := getEventById_insert hinv hinv' (hne hfree) events_withThread
    refine decision_congr hreply hsame ?_ channelId
    intro parent hparent
    exact placeOf_reply hinv hinv' hfits hreplies hown hparent (hne hfree) pick pick'

theorem stored_ingested (h : Ingested signed db e db') {ev : EventRow}
    (hstored : db.events.get? k = some ev) : db'.events.get? k = some ev := by
  have hother : db.events.get? e.stamp = none → k ≠ e.stamp := by
    rintro hfree rfl
    cases hfree.symm.trans hstored
  cases h with
  | unchanged => exact hstored
  | plain _ hfree => rw [events_withEvent, if_neg (hother hfree), hstored]
  | reply hfree _ _ _ => rw [events_withThread, if_neg (hother hfree), hstored]

theorem decision_run {actions : List (Action signed)} (hinv : Inv signed db)
    (hingests : ∀ action ∈ actions, action.isIngest = true)
    (hmeets : Meets step grounded db actions) (hrun : run step db actions = some db')
    {pid : EventId} (hreply : replyTo reply = some (root, pid)) {ev : EventRow}
    (hstored : db.events.get? k = some ev) (hid : k.id = pid) (channelId : Uuid) (pick pick' : Nat) :
    decision db' reply channelId pick = decision db reply channelId pick' := by
  induction actions generalizing db with
  | nil =>
    cases hrun
    exact decision_congr hreply rfl (fun parent _ => placeOf_pick hinv parent.event pid pick pick')
      channelId
  | cons action actions ih =>
    obtain ⟨next, hstep, hrest⟩ := run_cons_some.mp hrun
    have hinv' := inv_step hinv hmeets.1 hstep
    have hrest' := ih hinv' (fun a ha => hingests a (List.mem_cons_of_mem _ ha))
      (hmeets.2 next hstep) hrest
    cases action with
    | ingest e channelId' pick'' hsigned =>
      have hingested := ingest_cases hmeets.1 hstep
      rw [hrest' (stored_ingested hingested hstored)]
      exact decision_ingested hinv hinv' hsigned hingested hreply hstored hid channelId pick' pick'
    | sendMessage e channelId hsigned hkind => cases hingests _ List.mem_cons_self
    | softDelete id parent root => cases hingests _ List.mem_cons_self
    | purge key => cases hingests _ List.mem_cons_self

end Siblings

/-- In a run in which every new reply to a parent without a row is grounded, the rows are a forest
in every state, and what comes of a reply to a stored parent does not depend on the events that are
ingested before it. -/
theorem metadata_is_a_forest {before after : List (Action signed)} {db db' : Db}
    (hmeets : Meets step grounded .empty (before ++ after))
    (hrun : run step .empty before = some db) (hrun' : run step db after = some db')
    (hingests : ∀ action ∈ after, action.isIngest = true) :
    IsForest db ∧ ∀ reply root pid k ev channelId pick pick', replyTo reply = some (root, pid) →
      db.events.get? k = some ev → k.id = pid →
        decision db' reply channelId pick = decision db reply channelId pick' := by
  obtain ⟨hbefore, hafter⟩ := meets_append.mp hmeets
  have hinv : Inv signed db := run_invariant_of_meets (Inv signed)
    (fun _ _ _ hinv hgrounded hstep => inv_step hinv hgrounded hstep) (inv_init signed) hbefore hrun
  refine ⟨hinv.forest, ?_⟩
  intro reply root pid k ev channelId pick pick' hreply hstored hid
  exact decision_run hinv hingests (hafter db hrun) hrun' hreply hstored hid channelId pick pick'

/-! ## Two replies to one parent -/

def idText (last : String) : String :=
  "000000000000000000000000000000000000000000000000000000000000000" ++ last

def markerTag (last marker : String) : Tag := ⟨"e", [idText last, "", marker]⟩

/-- A message, two replies to it, and the same with a message that has a `root` marker. -/
def message : Events.Event := ⟨2, 7, 100, 9, [], "", Events.time100_lt⟩

def replyA : Events.Event := ⟨3, 7, 200, 9, [markerTag "2" "reply"], "", Events.time200_lt⟩

def replyB : Events.Event := ⟨4, 7, 300, 9, [markerTag "2" "reply"], "", Events.time300_lt⟩

def rooted : Events.Event := ⟨2, 7, 100, 9, [markerTag "1" "root"], "", Events.time100_lt⟩

def rootedA : Events.Event :=
  ⟨3, 7, 200, 9, [markerTag "1" "root", markerTag "2" "reply"], "", Events.time200_lt⟩

def rootedB : Events.Event :=
  ⟨4, 7, 300, 9, [markerTag "1" "root", markerTag "2" "reply"], "", Events.time300_lt⟩

def signedThree (p a b : Events.Event) (hpa : p.id ≠ a.id) (hpb : p.id ≠ b.id) (hab : a.id ≠ b.id) :
    Signed where
  has e := e = p ∨ e = a ∨ e = b
  id_injective := by
    rintro e e' (rfl | rfl | rfl) (rfl | rfl | rfl) h
    all_goals first | rfl | exact absurd h (by assumption) | exact absurd h.symm (by assumption)

def plainThread : Signed := signedThree message replyA replyB (by decide) (by decide) (by decide)

def rootedThread : Signed := signedThree rooted rootedA rootedB (by decide) (by decide) (by decide)

instance (db : Db) : (action : Action signed) → Decidable (grounded db action)
  | .ingest e (some channelId) _ _ =>
    -- The ids are finitely many, but they are not to be enumerated.
    have : Decidable (∀ named ∈ replyTo e, ∀ parent ∈ db.getEventById named.2,
        parent.channelId = some channelId → db.rowsOf named.2 = [] →
          ownRoot parent.event named.2 = named.1 → named.1 = named.2) :=
      Option.decidableForallMem _
    inferInstanceAs (Decidable (requiresHChannelScope e.kind = true → db.events.get? e.stamp = none →
      ∀ named ∈ replyTo e, ∀ parent ∈ db.getEventById named.2,
        parent.channelId = some channelId → db.rowsOf named.2 = [] →
          ownRoot parent.event named.2 = named.1 → named.1 = named.2))
  | .ingest _ none _ _ | .sendMessage _ _ _ _ | .softDelete _ _ _ | .purge _ => isTrue trivial

def sendMessage : List (Action plainThread) := [.ingest message (some 5) 0 (.inl rfl)]

def sendReply : List (Action plainThread) := [.ingest replyA (some 5) 0 (.inr (.inl rfl))]

theorem metadata_is_a_forest_on_reply :
    ∃ db db', run step .empty (sendMessage ++ sendReply) = some db' ∧ IsForest db ∧
      decision db' replyB 5 0 = decision db replyB 5 0 ∧
      decision db replyB 5 0 = .ok (some ⟨some 2, 1⟩) := by
  have hmeets : Meets step grounded .empty (sendMessage ++ sendReply) := by decide +kernel
  have hrun : ((run step .empty sendMessage).any fun db =>
      (db.events.get? ⟨100, 2⟩).isSome && (run step db sendReply).isSome &&
        decision db replyB 5 0 == .ok (some ⟨some 2, 1⟩)) = true := by
    decide +kernel
  obtain ⟨db, hdb, hfacts⟩ := (Option.any_eq_true _ _).mp hrun
  simp only [Bool.and_eq_true, beq_iff_eq] at hfacts
  obtain ⟨⟨hsome, hsome'⟩, hdecision⟩ := hfacts
  obtain ⟨ev, hstored⟩ := Option.isSome_iff_exists.mp hsome
  obtain ⟨db', hdb'⟩ := Option.isSome_iff_exists.mp hsome'
  have hreply : replyTo replyB = some (2, 2) := by decide +kernel
  obtain ⟨hforest, hsame⟩ := metadata_is_a_forest hmeets hdb hdb' (by decide)
  exact ⟨db, db', run_append_some.mpr ⟨db, hdb, hdb'⟩, hforest,
    hsame replyB 2 2 ⟨100, 2⟩ ev 5 0 0 hreply hstored rfl, hdecision⟩

def sendRooted : List (Action rootedThread) := [.ingest rooted (some 5) 0 (.inl rfl)]

def sendRootedReply : List (Action rootedThread) := [.ingest rootedA (some 5) 0 (.inr (.inl rfl))]

/-- A message with a `root` marker alone gets no row. The first reply to it gets the root of the
marker, the row that it makes for the message has no root, and the second reply is rejected. -/
theorem root_marker_lost :
    ∃ db db' row row', run step .empty sendRooted = some db ∧
      run step db sendRootedReply = some db' ∧
      db'.metadata.get? ⟨200, 3⟩ = some row ∧ row.parentEventId = some 2 ∧
        row.place = ⟨some 1, 2⟩ ∧
      db'.metadata.get? ⟨100, 2⟩ = some row' ∧ row'.place = .top ∧ ¬ IsForest db' ∧
      decision db rootedB 5 0 = .ok (some ⟨some 1, 2⟩) ∧
      decision db' rootedB 5 0 = .error "root tag does not match thread ancestry" := by
  have hrun : ((run step .empty sendRooted).any fun db =>
      (run step db sendRootedReply).any fun db' =>
        (db'.metadata.get? ⟨200, 3⟩).any (fun row =>
          row.parentEventId == some 2 && row.place == ⟨some 1, 2⟩) &&
        (db'.metadata.get? ⟨100, 2⟩).any (fun row => row.place == .top) &&
        decision db rootedB 5 0 == .ok (some ⟨some 1, 2⟩) &&
        decision db' rootedB 5 0 == .error "root tag does not match thread ancestry") = true := by
    decide +kernel
  obtain ⟨db, hdb, hafter⟩ := (Option.any_eq_true _ _).mp hrun
  obtain ⟨db', hdb', hfacts⟩ := (Option.any_eq_true _ _).mp hafter
  simp only [Bool.and_eq_true, Option.any_eq_true, beq_iff_eq] at hfacts
  obtain ⟨⟨⟨⟨row, hget, hparent, hplace⟩, row', hget', hplace'⟩, hfirst⟩, hsecond⟩ := hfacts
  refine ⟨db, db', row, row', hdb, hdb', hget, hparent, hplace, hget', hplace', ?_, hfirst, hsecond⟩
  intro hforest
  have hchild := (hforest _ row 2 hget hparent).2 _ row' hget' rfl
  rw [hplace, hplace'] at hchild
  cases hchild

end Vingilot.Threads.Forest
