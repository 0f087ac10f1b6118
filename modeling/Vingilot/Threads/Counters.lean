import Mathlib.Data.Finset.Card
import Vingilot.Lib.Machine
import Vingilot.Threads.Store

/-!
# Counters of replies and descendants

A counter belongs to the events that name its message as their parent or root. Insertions and
deletions move it by one. They do it for every row of the message, so a message must have one row.
-/

namespace Vingilot.Threads.Counters

open Machine
open Events (EventId Stamp DbError Signed)

/-! ## Names and counts -/

inductive Link where
  | parent
  | root

def Link.of : Link → ThreadMetadata → Option EventId
  | parent, row => row.parentEventId
  | root, row => row.rootEventId

def Link.count : Link → ThreadMetadata → Int
  | parent, row => row.replyCount
  | root, row => row.descendantCount

def naming (db : Db) (link : Link) (id : EventId) : Finset Stamp :=
  ((db.metadata.toList.filter fun x => link.of x.2 == some id &&
    (db.events.get? x.1).any fun row => !row.deleted).map Prod.fst).toFinset

def Exact (db : Db) : Prop :=
  ∀ key row link, db.metadata.get? key = some row →
    link.count row = (naming db link key.id).card

variable {link : Link} {id : EventId} {k : Stamp}

theorem mem_naming {db : Db} :
    k ∈ naming db link id ↔ (∃ row, db.metadata.get? k = some row ∧ link.of row = some id) ∧
      ∃ ev, db.events.get? k = some ev ∧ ev.deleted = false := by
  simp only [naming, List.mem_toFinset, List.mem_map, List.mem_filter, Table.mem_toList,
    Bool.and_eq_true, beq_iff_eq, Option.any_eq_true, Bool.not_eq_true', Prod.exists,
    exists_and_right, exists_eq_right]
  constructor
  · rintro ⟨row, hget, hof, hev⟩
    exact ⟨⟨row, hget, hof⟩, hev⟩
  · rintro ⟨⟨row, hget, hof⟩, hev⟩
    exact ⟨row, hget, hof, hev⟩

/-! ## Runs -/

structure Deletion where
  id : EventId
  parent : Option EventId
  root : Option EventId
deriving DecidableEq

structure State where
  db : Db
  pending : Table Nat Deletion
  started : Nat

def State.init (db : Db) : State := ⟨db, ∅, 0⟩

inductive Action (signed : Signed) where
  | insertEventWithThreadMetadata (e : Events.Event) (channelId : Option Uuid)
      (params : Option ThreadMetadataParams) (hsigned : signed.has e)
      (hparent : ∀ p ∈ params, p.rootEventId.isSome = true → p.parentEventId.isSome = true)
  /-- Both handlers go no further when the target is not stored. `pick` is the row that the lookup
  of the metadata finds. -/
  | lookUp (id : EventId) (pick : Nat)
  | softDeleteEventAndUpdateThread (n : Nat)

variable {signed : Signed}

def step (s : State) : Action signed → Option State
  | .insertEventWithThreadMetadata e channelId params _ _ =>
    match Threads.insertEventWithThreadMetadata s.db e channelId params with
    | .ok (db, _) => some { s with db }
    | .error _ => some s
  | .lookUp id pick => do
    let _ ← s.db.getEventByIdIncludingDeleted id
    let row := s.db.getThreadMetadataByEvent id pick
    some { s with
      pending := s.pending.set s.started
        ⟨id, row.bind (·.parentEventId), row.bind (·.rootEventId)⟩
      started := s.started + 1 }
  | .softDeleteEventAndUpdateThread n => do
    let d ← s.pending.get? n
    some { s with
      db := (Threads.softDeleteEventAndUpdateThread s.db d.id d.parent d.root).1
      pending := s.pending.remove n }

/-! ## The condition -/

/-- The times given for the event, its parent and its root are those of the rows that are stored
for these ids. -/
def OneKey (db : Db) (key : Stamp) (params : ThreadMetadataParams) : Prop :=
  ∀ k ∈ named key params, ∀ k' ∈ named key params ++ db.metadata.toList.map Prod.fst,
    k'.id = k.id → k' = k

instance (db : Db) (key : Stamp) (params : ThreadMetadataParams) : Decidable (OneKey db key params) :=
  inferInstanceAs (Decidable (∀ k ∈ named key params, ∀ k' ∈ _, _ → _))

def timesAgree (s : State) : Action signed → Prop
  | .insertEventWithThreadMetadata e _ params _ _ =>
    ∀ p ∈ params, s.db.events.get? e.stamp = none → s.db.metadata.get? e.stamp = none →
      OneKey s.db e.stamp p
  | _ => True

/-! ## What every state keeps -/

structure Inv (signed : Signed) (db : Db) : Prop where
  origin : Original signed db
  one : ∀ k k' row row', db.metadata.get? k = some row → db.metadata.get? k' = some row' →
    k.id = k'.id → k = k'
  stored : ∀ k row (link : Link) p, db.metadata.get? k = some row → link.of row = some p →
    ∃ k' row', db.metadata.get? k' = some row' ∧ k'.id = p
  owned : ∀ k row, db.metadata.get? k = some row → row.parentEventId.isSome = true →
    (db.events.get? k).isSome = true
  rooted : ∀ k row, db.metadata.get? k = some row → row.rootEventId.isSome = true →
    row.parentEventId.isSome = true
  exact : Exact db

structure Pending (db : Db) (d : Deletion) : Prop where
  stored : ∃ k ev, db.events.get? k = some ev ∧ k.id = d.id
  found : ∀ k row, db.metadata.get? k = some row → k.id = d.id →
    row.parentEventId = d.parent ∧ row.rootEventId = d.root
  missing : (∀ k row, db.metadata.get? k = some row → k.id ≠ d.id) → d.parent = none ∧ d.root = none

/-! ## Insertion -/

variable {row : ThreadMetadata}

section Insert

variable {db : Db} {key : Stamp} {params : ThreadMetadataParams} {ev : EventRow}

theorem of_counted (link : Link) (id : EventId) (row : ThreadMetadata) :
    link.of (counted params id row) = link.of row := by
  cases link <;> rfl

theorem count_counted (hparent : params.rootEventId.isSome = true → params.parentEventId.isSome = true)
    (link : Link) (id : EventId) (row : ThreadMetadata) :
    link.count (counted params id row) =
      link.count row + if link.of params.row = some id then 1 else 0 := by
  cases link with
  | parent => rfl
  | root =>
    by_cases hroot : params.rootEventId = some id
    · have hsome : params.parentEventId.isSome = true := hparent (by rw [hroot]; rfl)
      simp [Link.count, counted, Link.of, ThreadMetadataParams.row, hroot, hsome]
    · simp [Link.count, counted, Link.of, ThreadMetadataParams.row, hroot]

theorem of_stub (link : Link) (channelId : Uuid) : link.of (.stub channelId) = none := by
  cases link <;> rfl

theorem count_stub (link : Link) (channelId : Uuid) : link.count (.stub channelId) = 0 := by
  cases link <;> rfl

theorem count_row (link : Link) (params : ThreadMetadataParams) : link.count params.row = 0 := by
  cases link <;> rfl

theorem mem_stored (h : db.metadata.get? k = some row) :
    k ∈ named key params ++ db.metadata.toList.map Prod.fst :=
  List.mem_append_right _ (List.mem_map.mpr ⟨(k, row), (Table.mem_toList _ _ _).mpr h, rfl⟩)

theorem named_of_link
    (hparent : params.rootEventId.isSome = true → params.parentEventId.isSome = true) {p : EventId}
    (h : link.of params.row = some p) : ∃ k ∈ named key params, k.id = p := by
  cases link with
  | parent =>
    have hparent' : params.parentEventId = some p := h
    exact ⟨⟨params.parentEventCreatedAt.getD key.createdAt, p⟩, by simp [named, stubKeys, hparent'],
      rfl⟩
  | root =>
    have hroot : params.rootEventId = some p := h
    obtain ⟨pid, hpid⟩ := Option.isSome_iff_exists.mp (hparent (by rw [hroot]; rfl))
    by_cases hne : p = pid
    · exact ⟨⟨params.parentEventCreatedAt.getD key.createdAt, pid⟩, by simp [named, stubKeys, hpid],
        hne.symm⟩
    · exact ⟨⟨params.rootEventCreatedAt.getD key.createdAt, p⟩,
        by simp [named, stubKeys, hpid, hroot, hne], rfl⟩

theorem naming_empty (hinv : Inv signed db) (hnone : db.metadata.get? k = none)
    (hone : ∀ k' row, db.metadata.get? k' = some row → k'.id = k.id → k' = k) (link : Link) :
    naming db link k.id = ∅ := by
  rw [Finset.eq_empty_iff_forall_notMem]
  intro k₀ hmem
  obtain ⟨⟨row, hget, hof⟩, -⟩ := mem_naming.mp hmem
  obtain ⟨k', row', hget', hid⟩ := hinv.stored k₀ row link _ hget hof
  rw [hone k' row' hget' hid, hnone] at hget'
  cases hget'

theorem naming_withThread (hfree : db.events.get? key = none) (hnew : db.metadata.get? key = none)
    (hlive : ev.deleted = false) (link : Link) (id : EventId) :
    naming (withThread db key ev params) link id =
      if link.of params.row = some id then insert key (naming db link id) else naming db link id := by
  have hout : key ∉ naming db link id := by
    rw [mem_naming, hfree]
    simp
  have hmem : ∀ k, k ∈ naming (withThread db key ev params) link id ↔
      (k = key ∧ link.of params.row = some id) ∨ k ∈ naming db link id := by
    intro k
    rw [mem_naming, mem_naming, events_withThread]
    constructor
    · rintro ⟨⟨row, hget, hof⟩, hev⟩
      obtain ⟨base, rfl, ⟨rfl, rfl⟩ | hold | ⟨-, -, rfl⟩⟩ := row_withThread hnew hget
      · rw [of_counted] at hof
        exact .inl ⟨rfl, hof⟩
      · have hne : k ≠ key := by
          rintro rfl
          cases hnew.symm.trans hold
        rw [if_neg hne] at hev
        rw [of_counted] at hof
        exact .inr ⟨⟨base, hold, hof⟩, hev⟩
      · rw [of_counted, of_stub] at hof
        cases hof
    · rintro (⟨rfl, hof⟩ | ⟨⟨row, hold, hof⟩, hev⟩)
      · refine ⟨⟨counted params k.id params.row, ?_, ?_⟩, ev, if_pos rfl, hlive⟩
        · rw [metadata_withThread hnew, if_pos rfl]
          rfl
        · rw [of_counted, hof]
      · have hne : k ≠ key := by
          rintro rfl
          cases hnew.symm.trans hold
        rw [if_neg hne]
        exact ⟨⟨_, kept_withThread hnew hold, by rw [of_counted, hof]⟩, hev⟩
  ext k
  split_ifs with hof
  · rw [hmem, Finset.mem_insert]
    simp [hof]
  · rw [hmem]
    simp [hof]

theorem exact_withThread (hinv : Inv signed db) (hfree : db.events.get? key = none)
    (hnew : db.metadata.get? key = none) (hlive : ev.deleted = false)
    (hone : OneKey db key params)
    (hparent : params.rootEventId.isSome = true → params.parentEventId.isSome = true) :
    Exact (withThread db key ev params) := by
  intro k row link hget
  obtain ⟨base, rfl, horigin⟩ := row_withThread hnew hget
  have hbase : link.count base = (naming db link k.id).card := by
    have hempty : k ∈ named key params → db.metadata.get? k = none → naming db link k.id = ∅ := by
      intro hk hnone
      refine naming_empty hinv hnone ?_ link
      intro k' row' hget' hid
      exact hone k hk k' (mem_stored hget') hid
    rcases horigin with ⟨rfl, rfl⟩ | hold | ⟨hstub, hnone, rfl⟩
    · rw [hempty List.mem_cons_self hnew, count_row]
      rfl
    · exact hinv.exact k base link hold
    · rw [hempty (List.mem_cons_of_mem _ hstub) hnone, count_stub]
      rfl
  rw [count_counted hparent, hbase, naming_withThread hfree hnew hlive]
  split_ifs with hof
  · rw [Finset.card_insert_of_notMem]
    · push_cast
      rfl
    · rw [mem_naming, hfree]
      simp
  · simp

theorem inv_withThread (hinv : Inv signed db) (horigin : ev.event.stamp = key ∧ signed.has ev.event)
    (hfree : db.events.get? key = none) (hnew : db.metadata.get? key = none)
    (hlive : ev.deleted = false) (hone : OneKey db key params)
    (hparent : params.rootEventId.isSome = true → params.parentEventId.isSome = true) :
    Inv signed (withThread db key ev params) where
  origin := hinv.origin.set horigin events_withThread
  one k k' row row' h h' hid := by
    obtain ⟨base, -, hfrom⟩ := row_withThread hnew h
    obtain ⟨base', -, hfrom'⟩ := row_withThread hnew h'
    have hmem : ∀ {k base}, (k = key ∧ base = params.row) ∨ db.metadata.get? k = some base ∨
        (k ∈ stubKeys key params ∧ db.metadata.get? k = none ∧ base = .stub params.channelId) →
        k ∈ named key params ∨ db.metadata.get? k = some base := by
      rintro k base (⟨rfl, -⟩ | hold | ⟨hstub, -, -⟩)
      · exact .inl List.mem_cons_self
      · exact .inr hold
      · exact .inl (List.mem_cons_of_mem _ hstub)
    rcases hmem hfrom with hk | hold <;> rcases hmem hfrom' with hk' | hold'
    · exact hone k' hk' k (List.mem_append_left _ hk) hid
    · exact (hone k hk k' (mem_stored hold') hid.symm).symm
    · exact hone k' hk' k (mem_stored hold) hid
    · exact hinv.one k k' base base' hold hold' hid
  stored k row link p h hof := by
    obtain ⟨base, rfl, ⟨-, rfl⟩ | hold | ⟨-, -, rfl⟩⟩ := row_withThread hnew h
    · rw [of_counted] at hof
      obtain ⟨k', hk', hid⟩ := named_of_link hparent hof
      obtain ⟨row', hrow'⟩ := Option.isSome_iff_exists.mp (named_withThread hnew hk')
      exact ⟨k', row', hrow', hid⟩
    · rw [of_counted] at hof
      obtain ⟨k', row', hget', hid⟩ := hinv.stored k base link p hold hof
      exact ⟨k', _, kept_withThread hnew hget', hid⟩
    · rw [of_counted, of_stub] at hof
      cases hof
  owned k row h hsome := by
    rw [events_withThread]
    obtain ⟨base, rfl, ⟨rfl, rfl⟩ | hold | ⟨-, -, rfl⟩⟩ := row_withThread hnew h
    · rw [if_pos rfl]
      rfl
    · split_ifs
      · rfl
      · exact hinv.owned k base hold hsome
    · cases hsome
  rooted k row h hsome := by
    obtain ⟨base, rfl, ⟨rfl, rfl⟩ | hold | ⟨-, -, rfl⟩⟩ := row_withThread hnew h
    · exact hparent hsome
    · exact hinv.rooted k base hold hsome
    · cases hsome
  exact := exact_withThread hinv hfree hnew hlive hone hparent

theorem pending_withThread {d : Deletion} (hinv : Inv signed db) (h : Pending db d)
    (horigin : ev.event.stamp = key ∧ signed.has ev.event) (hfree : db.events.get? key = none)
    (hnew : db.metadata.get? key = none) (hone : OneKey db key params) :
    Pending (withThread db key ev params) d where
  stored := by
    obtain ⟨k, row, hget, hid⟩ := h.stored
    refine ⟨k, row, ?_, hid⟩
    rw [events_withThread, if_neg, hget]
    rintro rfl
    cases hfree.symm.trans hget
  found k row hget hid := by
    obtain ⟨base, rfl, ⟨rfl, -⟩ | hold | ⟨hstub, hnone, rfl⟩⟩ := row_withThread hnew hget
    · -- the target is stored, so the new event is another one
      obtain ⟨k₀, row₀, hget₀, hid₀⟩ := h.stored
      obtain ⟨rfl, hsigned⟩ := horigin
      exact absurd (hid₀.trans hid.symm) (hinv.origin.id_ne hsigned hfree hget₀)
    · exact h.found k base hold hid
    · have hmissing := h.missing ?_
      · exact ⟨hmissing.1.symm, hmissing.2.symm⟩
      · intro k' row' hget' hid'
        have hsame := hone k (List.mem_cons_of_mem _ hstub) k' (mem_stored hget')
          (hid'.trans hid.symm)
        rw [hsame, hnone] at hget'
        cases hget'
  missing hmissing := by
    refine h.missing ?_
    intro k row hget
    exact hmissing k _ (kept_withThread hnew hget)

end Insert

/-! ### An event without a new metadata row -/

section Plain

variable {db : Db} {key : Stamp} {ev : EventRow}

theorem owned_of_link (hinv : Inv signed db) (hget : db.metadata.get? k = some row)
    (hof : link.of row = some id) : (db.events.get? k).isSome = true := by
  refine hinv.owned k row hget ?_
  cases link with
  | parent => exact Option.isSome_iff_exists.mpr ⟨id, hof⟩
  | root => exact hinv.rooted k row hget (Option.isSome_iff_exists.mpr ⟨id, hof⟩)

theorem naming_withEvent (hinv : Inv signed db) (hfree : db.events.get? key = none) (link : Link)
    (id : EventId) : naming (withEvent db key ev) link id = naming db link id := by
  ext k
  rw [mem_naming, mem_naming, events_withEvent]
  refine and_congr_right ?_
  rintro ⟨row, hget, hof⟩
  rw [if_neg]
  rintro rfl
  have howned := owned_of_link hinv hget hof
  rw [hfree] at howned
  cases howned

theorem inv_withEvent (hinv : Inv signed db) (horigin : ev.event.stamp = key ∧ signed.has ev.event)
    (hfree : db.events.get? key = none) : Inv signed (withEvent db key ev) where
  origin := hinv.origin.set horigin events_withEvent
  one := hinv.one
  stored := hinv.stored
  owned k row h hsome := by
    rw [events_withEvent]
    split_ifs
    · rfl
    · exact hinv.owned k row h hsome
  rooted := hinv.rooted
  exact k row link h := by
    rw [naming_withEvent hinv hfree]
    exact hinv.exact k row link h

theorem pending_withEvent {d : Deletion} (hfree : db.events.get? key = none) (h : Pending db d) :
    Pending (withEvent db key ev) d where
  stored := by
    obtain ⟨k, row, hget, hid⟩ := h.stored
    refine ⟨k, row, ?_, hid⟩
    rw [events_withEvent, if_neg, hget]
    rintro rfl
    cases hfree.symm.trans hget
  found := h.found
  missing := h.missing

end Plain

/-! ## Deletion -/

variable {k₀ : Stamp} {row₀ : EventRow}

section Delete

variable {db : Db} {d : Deletion}

def Deletion.names (d : Deletion) : Link → Option EventId
  | .parent => d.parent
  | .root => d.root

def withoutEvent (decrement : Int → Int) (db : Db) (d : Deletion) : Db :=
  (softDeleteWith decrement db d.id d.parent d.root).1

theorem names_found (hpending : Pending db d) (hget : db.metadata.get? k = some row)
    (hid : k.id = d.id) (link : Link) : link.of row = d.names link := by
  obtain ⟨hparent, hroot⟩ := hpending.found k row hget hid
  cases link with
  | parent => exact hparent
  | root => exact hroot

theorem mem_naming_target (hinv : Inv signed db) (hpending : Pending db d) {row : EventRow}
    (hlive : (k, row) ∈ db.liveRows d.id) : k ∈ naming db link id ↔ d.names link = some id := by
  obtain ⟨hget, hid, hdeleted⟩ := mem_liveRows.mp hlive
  rw [mem_naming]
  constructor
  · rintro ⟨⟨row₁, hmeta, hof⟩, -⟩
    rw [← names_found hpending hmeta hid link, hof]
  · intro hnames
    refine ⟨?_, row, hget, hdeleted⟩
    have hrow : ∃ k' row₁, db.metadata.get? k' = some row₁ ∧ k'.id = d.id := by
      by_contra hnone
      have hmissing := hpending.missing fun k' row₁ hget' hid' => hnone ⟨k', row₁, hget', hid'⟩
      cases link with
      | parent => cases hmissing.1.symm.trans hnames
      | root => cases hmissing.2.symm.trans hnames
    obtain ⟨k', row₁, hmeta, hid'⟩ := hrow
    have hof : link.of row₁ = some id := (names_found hpending hmeta hid' link).trans hnames
    -- a row that names somebody is the row of a stored event, so it has the key of the target
    obtain ⟨row', hget'⟩ := Option.isSome_iff_exists.mp (owned_of_link hinv hmeta hof)
    have hsame := hinv.origin.key_unique hget hget' (hid.trans hid'.symm)
    exact ⟨row₁, by rw [hsame, hmeta], hof⟩

theorem of_discounted (decrement : Int → Int) (link : Link) (parent root : Option EventId)
    (id : EventId) (row : ThreadMetadata) :
    link.of (discounted decrement parent root id row) = link.of row := by
  cases link <;> rfl

theorem count_discounted (decrement : Int → Int)
    (hrooted : d.root.isSome = true → d.parent.isSome = true) (link : Link) (id : EventId)
    (row : ThreadMetadata) :
    link.count (discounted decrement d.parent d.root id row) =
      if d.names link = some id then decrement (link.count row) else link.count row := by
  cases link with
  | parent => rfl
  | root =>
    by_cases hroot : d.root = some id
    · have hsome : d.parent.isSome = true := hrooted (by rw [hroot]; rfl)
      simp [Link.count, discounted, Deletion.names, hroot, hsome]
    · simp [Link.count, discounted, Deletion.names, hroot]

theorem pending_rooted (hinv : Inv signed db) (hpending : Pending db d) :
    d.root.isSome = true → d.parent.isSome = true := by
  intro hroot
  by_cases hrow : ∃ k row, db.metadata.get? k = some row ∧ k.id = d.id
  · obtain ⟨k, row, hget, hid⟩ := hrow
    obtain ⟨hparent, hroot'⟩ := hpending.found k row hget hid
    rw [← hparent]
    exact hinv.rooted k row hget (by rw [hroot']; exact hroot)
  · have hmissing := hpending.missing fun k row hget hid => hrow ⟨k, row, hget, hid⟩
    rw [hmissing.2] at hroot
    cases hroot

theorem naming_withoutEvent (hinv : Inv signed db) {decrement : Int → Int}
    (hlive : (k₀, row₀) ∈ db.liveRows d.id) (link : Link) (id : EventId) :
    naming (withoutEvent decrement db d) link id = (naming db link id).erase k₀ := by
  have hne : db.liveRows d.id ≠ [] := List.ne_nil_of_mem hlive
  obtain ⟨hget₀, hid₀, -⟩ := mem_liveRows.mp hlive
  have hevents : ∀ k, (∃ ev, (withoutEvent decrement db d).events.get? k = some ev ∧
      ev.deleted = false) ↔ k ≠ k₀ ∧ ∃ ev, db.events.get? k = some ev ∧ ev.deleted = false := by
    intro k
    unfold withoutEvent
    rw [events_softDelete]
    constructor
    · rintro ⟨ev, hev, hdeleted⟩
      obtain ⟨old, hold, rfl⟩ := Option.map_eq_some_iff.mp hev
      split_ifs at hdeleted with hid
      · cases hdeleted
      · refine ⟨?_, old, hold, hdeleted⟩
        rintro rfl
        exact hid hid₀
    · rintro ⟨hk, ev, hev, hdeleted⟩
      refine ⟨ev, ?_, hdeleted⟩
      rw [hev, Option.map_some, if_neg]
      intro hid
      exact hk (hinv.origin.key_unique hev hget₀ (hid.trans hid₀.symm))
  have hrows : ∀ k, (∃ row, (withoutEvent decrement db d).metadata.get? k = some row ∧
      link.of row = some id) ↔ ∃ row, db.metadata.get? k = some row ∧ link.of row = some id := by
    intro k
    unfold withoutEvent
    rw [metadata_softDelete hne]
    constructor
    · rintro ⟨row, hrow, hof⟩
      obtain ⟨old, hold, rfl⟩ := Option.map_eq_some_iff.mp hrow
      exact ⟨old, hold, by rw [← hof, of_discounted]⟩
    · rintro ⟨row, hrow, hof⟩
      rw [hrow]
      exact ⟨_, rfl, by rw [of_discounted, hof]⟩
  ext k
  rw [Finset.mem_erase, mem_naming, mem_naming, hrows, hevents]
  exact and_left_comm

theorem one_le_count (hinv : Inv signed db) (hpending : Pending db d)
    (hlive : (k₀, row₀) ∈ db.liveRows d.id) (hget : db.metadata.get? k = some row)
    (hnames : d.names link = some k.id) : 1 ≤ link.count row := by
  have hmem : k₀ ∈ naming db link k.id := (mem_naming_target hinv hpending hlive).mpr hnames
  rw [hinv.exact k row link hget]
  exact_mod_cast Finset.card_pos.mpr ⟨k₀, hmem⟩

theorem exact_withoutEvent (hinv : Inv signed db) (hpending : Pending db d)
    (hlive : (k₀, row₀) ∈ db.liveRows d.id) : Exact (withoutEvent floorDecrement db d) := by
  intro k row link hget
  unfold withoutEvent at hget
  rw [metadata_softDelete (List.ne_nil_of_mem hlive)] at hget
  obtain ⟨old, hold, rfl⟩ := Option.map_eq_some_iff.mp hget
  rw [count_discounted _ (pending_rooted hinv hpending), naming_withoutEvent hinv hlive]
  have hcount := hinv.exact k old link hold
  split_ifs with hnames
  · have hpos := one_le_count hinv hpending hlive hold hnames
    have hmem : k₀ ∈ naming db link k.id := (mem_naming_target hinv hpending hlive).mpr hnames
    rw [Finset.card_erase_of_mem hmem, floorDecrement]
    omega
  · have hout : k₀ ∉ naming db link k.id := by
      rw [mem_naming_target hinv hpending hlive]
      exact hnames
    rw [Finset.erase_eq_of_notMem hout]
    exact hcount

theorem row_withoutEvent (hne : db.liveRows d.id ≠ [])
    (h : (withoutEvent floorDecrement db d).metadata.get? k = some row) :
    ∃ old, db.metadata.get? k = some old ∧
      row = discounted floorDecrement d.parent d.root k.id old := by
  unfold withoutEvent at h
  rw [metadata_softDelete hne] at h
  obtain ⟨old, hold, heq⟩ := Option.map_eq_some_iff.mp h
  exact ⟨old, hold, heq.symm⟩

theorem kept_withoutEvent (hne : db.liveRows d.id ≠ []) (h : db.metadata.get? k = some row) :
    (withoutEvent floorDecrement db d).metadata.get? k =
      some (discounted floorDecrement d.parent d.root k.id row) := by
  unfold withoutEvent
  rw [metadata_softDelete hne, h]
  rfl

theorem inv_withoutEvent (hinv : Inv signed db) (hpending : Pending db d)
    (hlive : (k₀, row₀) ∈ db.liveRows d.id) : Inv signed (withoutEvent floorDecrement db d) where
  origin := hinv.origin.softDelete floorDecrement d.id d.parent d.root
  one k k' row row' h h' hid := by
    have hne := List.ne_nil_of_mem hlive
    obtain ⟨old, hold, -⟩ := row_withoutEvent hne h
    obtain ⟨old', hold', -⟩ := row_withoutEvent hne h'
    exact hinv.one k k' old old' hold hold' hid
  stored k row link p h hof := by
    have hne := List.ne_nil_of_mem hlive
    obtain ⟨old, hold, rfl⟩ := row_withoutEvent hne h
    rw [of_discounted] at hof
    obtain ⟨k', row', hget', hid⟩ := hinv.stored k old link p hold hof
    exact ⟨k', _, kept_withoutEvent hne hget', hid⟩
  owned k row h hsome := by
    obtain ⟨old, hold, rfl⟩ := row_withoutEvent (List.ne_nil_of_mem hlive) h
    unfold withoutEvent
    rw [events_softDelete, Option.isSome_map]
    exact hinv.owned k old hold hsome
  rooted k row h hsome := by
    obtain ⟨old, hold, rfl⟩ := row_withoutEvent (List.ne_nil_of_mem hlive) h
    exact hinv.rooted k old hold hsome
  exact := exact_withoutEvent hinv hpending hlive

theorem pending_withoutEvent {d' : Deletion} (hne : db.liveRows d.id ≠ []) (h : Pending db d') :
    Pending (withoutEvent floorDecrement db d) d' where
  stored := by
    obtain ⟨k, row, hget, hid⟩ := h.stored
    refine ⟨k, if k.id = d.id then row.delete else row, ?_, hid⟩
    unfold withoutEvent
    rw [events_softDelete, hget]
    rfl
  found k row hget hid := by
    obtain ⟨old, hold, rfl⟩ := row_withoutEvent hne hget
    exact h.found k old hold hid
  missing hmissing := by
    refine h.missing ?_
    intro k row hget
    exact hmissing k _ (kept_withoutEvent hne hget)

end Delete

/-! ## Runs -/

theorem pending_lookUp {db : Db} (hinv : Inv signed db) {row : EventRow} (pick : Nat)
    (h : db.getEventByIdIncludingDeleted id = some row) :
    Pending db ⟨id, (db.getThreadMetadataByEvent id pick).bind (·.parentEventId),
      (db.getThreadMetadataByEvent id pick).bind (·.rootEventId)⟩ where
  stored := by
    obtain ⟨k, hget, hid, -⟩ := newest_some h
    exact ⟨k, row, hget, hid⟩
  found k row₁ hget hid := by
    cases hrow : db.getThreadMetadataByEvent id pick with
    | none =>
      have hmem := mem_rowsOf.mpr ⟨hget, hid⟩
      rw [metadata_none hrow] at hmem
      cases hmem
    | some row₂ =>
      obtain ⟨k', hget', hid'⟩ := metadata_some hrow
      have hsame := hinv.one k k' row₁ row₂ hget hget' (hid.trans hid'.symm)
      rw [hsame, hget'] at hget
      cases hget
      exact ⟨rfl, rfl⟩
  missing hmissing := by
    cases hrow : db.getThreadMetadataByEvent id pick with
    | none => exact ⟨rfl, rfl⟩
    | some row₂ =>
      obtain ⟨k', hget', hid'⟩ := metadata_some hrow
      exact absurd hid' (hmissing k' row₂ hget')

structure Kept (signed : Signed) (s : State) : Prop where
  inv : Inv signed s.db
  pending : ∀ n d, s.pending.get? n = some d → Pending s.db d

variable {s : State}

theorem kept_insert {db' : Db} {e : Events.Event} {channelId : Option Uuid}
    {params : Option ThreadMetadataParams} {inserted : Bool} (hs : Kept signed s)
    (hsigned : signed.has e)
    (hparent : ∀ p ∈ params, p.rootEventId.isSome = true → p.parentEventId.isSome = true)
    (hagree : ∀ p ∈ params, s.db.events.get? e.stamp = none → s.db.metadata.get? e.stamp = none →
      OneKey s.db e.stamp p)
    (h : Threads.insertEventWithThreadMetadata s.db e channelId params = .ok (db', inserted)) :
    Kept signed { s with db := db' } := by
  have horigin : (EventRow.mk e channelId false).event.stamp = e.stamp ∧
      signed.has (EventRow.mk e channelId false).event := ⟨rfl, hsigned⟩
  rcases insert_cases h with rfl | ⟨hfree, rfl | ⟨p, hp, hnew, rfl⟩⟩
  · exact hs
  · exact ⟨inv_withEvent hs.inv horigin hfree,
      fun n d hd => pending_withEvent hfree (hs.pending n d hd)⟩
  · have hone := hagree p hp hfree hnew
    exact ⟨inv_withThread hs.inv horigin hfree hnew rfl hone (hparent p hp),
      fun n d hd => pending_withThread hs.inv (hs.pending n d hd) horigin hfree hnew hone⟩

theorem kept_delete {n : Nat} {d : Deletion} (hs : Kept signed s) (hd : s.pending.get? n = some d) :
    Kept signed { s with
      db := (Threads.softDeleteEventAndUpdateThread s.db d.id d.parent d.root).1
      pending := s.pending.remove n } := by
  have hrest : ∀ m d', (s.pending.remove n).get? m = some d' → Pending s.db d' := by
    intro m d' hd'
    rw [Table.get?_remove] at hd'
    split_ifs at hd'
    exact hs.pending m d' hd'
  cases hlive : s.db.liveRows d.id with
  | nil =>
    have hsame : (Threads.softDeleteEventAndUpdateThread s.db d.id d.parent d.root).1 = s.db :=
      congrArg Prod.fst (softDelete_dead hlive)
    rw [hsame]
    exact ⟨hs.inv, hrest⟩
  | cons x rows =>
    have hmem : (x.1, x.2) ∈ s.db.liveRows d.id := by
      rw [hlive]
      exact List.mem_cons_self
    exact ⟨inv_withoutEvent hs.inv (hs.pending n d hd) hmem,
      fun m d' hd' => pending_withoutEvent (List.ne_nil_of_mem hmem) (hrest m d' hd')⟩

theorem kept_step {s' : State} {action : Action signed} (hs : Kept signed s)
    (hagree : timesAgree s action) (hstep : step s action = some s') : Kept signed s' := by
  cases action with
  | insertEventWithThreadMetadata e channelId params hsigned hparent =>
    simp only [step] at hstep
    split at hstep
    · rename_i db' inserted hinsert
      cases hstep
      exact kept_insert hs hsigned hparent hagree hinsert
    · cases hstep
      exact hs
  | lookUp id pick =>
    simp only [step, Option.bind_eq_bind, Option.bind_eq_some_iff] at hstep
    obtain ⟨row, hrow, hstep⟩ := hstep
    cases hstep
    refine ⟨hs.inv, ?_⟩
    intro n d hd
    rw [Table.get?_set] at hd
    split_ifs at hd
    · cases hd
      exact pending_lookUp hs.inv pick hrow
    · exact hs.pending n d hd
  | softDeleteEventAndUpdateThread n =>
    simp only [step, Option.bind_eq_bind, Option.bind_eq_some_iff] at hstep
    obtain ⟨d, hd, hstep⟩ := hstep
    cases hstep
    exact kept_delete hs hd

theorem kept_init (signed : Signed) : Kept signed (.init .empty) := by
  refine ⟨⟨?_, ?_, ?_, ?_, ?_, ?_⟩, ?_⟩
  · intro k ev h
    cases h
  · intro k k' row row' h
    cases h
  · intro k row link p h
    cases h
  · intro k row h
    cases h
  · intro k row h
    cases h
  · intro k row link h
    cases h
  · intro n d h
    cases h

/-- In a run in which every new event names its parent and root by their stored times, the counters
are exact in every state, and a counter that a deletion is about to lower is at least one. -/
theorem counters_exact {as : List (Action signed)} {s : State}
    (hmeets : Meets step timesAgree (.init .empty) as)
    (hrun : run step (.init .empty) as = some s) :
    Exact s.db ∧ ∀ n d k row link, s.pending.get? n = some d → s.db.liveRows d.id ≠ [] →
      s.db.metadata.get? k = some row → d.names link = some k.id →
      floorDecrement (link.count row) = link.count row - 1 := by
  have hs : Kept signed s := run_invariant_of_meets (Kept signed)
    (fun _ _ _ hs hagree hstep => kept_step hs hagree hstep) (kept_init signed) hmeets hrun
  refine ⟨hs.inv.exact, ?_⟩
  intro n d k row link hd hne hget hnames
  obtain ⟨⟨k₀, row₀⟩, hlive⟩ := List.exists_mem_of_ne_nil _ hne
  have hpos := one_le_count hs.inv (hs.pending n d hd) hlive hget hnames
  rw [floorDecrement]
  omega

/-! ## Two threads -/

def message : Events.Event := ⟨1, 7, 100, 9, [], "", Events.time100_lt⟩

def reply : Events.Event := ⟨2, 7, 200, 9, [], "", Events.time200_lt⟩

def nested : Events.Event := ⟨3, 7, 300, 9, [], "", Events.time300_lt⟩

def thread : Signed where
  has e := e = message ∨ e = reply ∨ e = nested
  id_injective := by
    rintro e e' (rfl | rfl | rfl) (rfl | rfl | rfl) h
    all_goals first | rfl | exact absurd h (by decide)

def paramsOf (parent : EventId) (parentCreatedAt : Int) (rootCreatedAt depth : Int) :
    ThreadMetadataParams :=
  ⟨5, some parent, some parentCreatedAt, some 1, some rootCreatedAt, depth, false⟩

def insertMessage : Action thread :=
  .insertEventWithThreadMetadata message (some 5) none (.inl rfl) (by simp)

def insertReply : Action thread :=
  .insertEventWithThreadMetadata reply (some 5) (some (paramsOf 1 100 100 1)) (.inr (.inl rfl))
    (by simp [paramsOf])

def insertNested (rootCreatedAt : Int) : Action thread :=
  .insertEventWithThreadMetadata nested (some 5) (some (paramsOf 2 200 rootCreatedAt 2))
    (.inr (.inr rfl)) (by simp [paramsOf])

instance (s : State) : (action : Action signed) → Decidable (timesAgree s action)
  | .insertEventWithThreadMetadata e _ params _ _ =>
    inferInstanceAs (Decidable (∀ p ∈ params, s.db.events.get? e.stamp = none →
      s.db.metadata.get? e.stamp = none → OneKey s.db e.stamp p))
  | .lookUp _ _ | .softDeleteEventAndUpdateThread _ => isTrue trivial

def replyDeleted : List (Action thread) :=
  [insertMessage, insertReply, insertNested 100, .lookUp 2 0]

theorem counters_exact_on_reply :
    ∃ s row, run step (.init .empty) replyDeleted = some s ∧
      s.db.metadata.get? ⟨100, 1⟩ = some row ∧ Exact s.db ∧
      floorDecrement row.replyCount = row.replyCount - 1 := by
  have hmeets : Meets step timesAgree (.init .empty) replyDeleted := by decide +kernel
  have hrun : ((run step (.init .empty) replyDeleted).any fun s =>
      s.pending.get? 0 == some ⟨2, some 1, some 1⟩ && !(s.db.liveRows 2).isEmpty &&
        (s.db.metadata.get? ⟨100, 1⟩).isSome) = true := by
    decide +kernel
  obtain ⟨s, hs, hfacts⟩ := (Option.any_eq_true _ _).mp hrun
  simp only [Bool.and_eq_true, beq_iff_eq, Bool.not_eq_true', List.isEmpty_eq_false_iff] at hfacts
  obtain ⟨⟨hpending, hlive⟩, hsome⟩ := hfacts
  obtain ⟨row, hget⟩ := Option.isSome_iff_exists.mp hsome
  obtain ⟨hexact, hfloor⟩ := counters_exact hmeets hs
  exact ⟨s, row, hs, hget, hexact, hfloor 0 _ _ row .parent hpending hlive hget rfl⟩

def rootDeleted : List (Action thread) :=
  [insertMessage, insertReply, .lookUp 1 0, .softDeleteEventAndUpdateThread 0, insertNested 200]

theorem deleted_root_gets_second_row :
    ∃ s row row', run step (.init .empty) rootDeleted = some s ∧
      s.db.metadata.get? ⟨100, 1⟩ = some row ∧ row.replyCount = 1 ∧
      s.db.metadata.get? ⟨200, 1⟩ = some row' ∧ row'.replyCount = 0 ∧ ¬ Exact s.db := by
  have hrun : ((run step (.init .empty) rootDeleted).any fun s =>
      (s.db.metadata.get? ⟨100, 1⟩).any (fun row => row.replyCount == 1) &&
        (s.db.metadata.get? ⟨200, 1⟩).any (fun row => row.replyCount == 0) &&
        decide ((naming s.db .parent 1).card = 1)) = true := by
    decide +kernel
  obtain ⟨s, hs, hfacts⟩ := (Option.any_eq_true _ _).mp hrun
  simp only [Bool.and_eq_true, Option.any_eq_true, beq_iff_eq, decide_eq_true_eq] at hfacts
  obtain ⟨⟨⟨row, hget, hcount⟩, row', hget', hcount'⟩, hcard⟩ := hfacts
  refine ⟨s, row, row', hs, hget, hcount, hget', hcount', ?_⟩
  intro hexact
  have hone : row'.replyCount = ((naming s.db .parent 1).card : Int) :=
    hexact ⟨200, 1⟩ row' .parent hget'
  rw [hcount', hcard] at hone
  cases hone

end Vingilot.Threads.Counters
