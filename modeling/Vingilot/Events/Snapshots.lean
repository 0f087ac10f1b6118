import Vingilot.Events.Effects

/-!
# Snapshots of the relay members

A publication reads the members under the lock of its address, so publications run one after the
other while the members change. Nobody else writes events of the address. A snapshot is refused when
a row is stored under its key, whatever has become of that row.
-/

namespace Vingilot.Events.Snapshots

open Machine Transactions

structure Signer (relay : PubKey) where
  sign : List Tag → Event
  pubkey_sign : ∀ tags, (sign tags).pubkey = relay
  kind_sign : ∀ tags, (sign tags).kind = kindNip43MembershipList
  tags_sign : ∀ tags, (sign tags).tags = tags

inductive Call (relay : PubKey) where
  | publishNip43MembershipLocked (signer : Signer relay)
  | mutate (rows : List ((CommunityId × String) × Option RelayMember))

variable {communityId : CommunityId} {relay : PubKey}

def plan (communityId : CommunityId) : Call relay → List Sql
  | .publishNip43MembershipLocked signer =>
    Events.publishNip43MembershipLocked communityId relay signer.sign
  | .mutate rows => rows.map fun r => .putMember r.1 r.2

abbrev snapshotStore (communityId : CommunityId) (relay : PubKey) :
    Planned (Call relay) Sql Db Lock Vars Write DbError :=
  store (plan communityId)

abbrev CallTx (relay : PubKey) := EventTx (Call relay)

def address (communityId : CommunityId) (relay : PubKey) : Address :=
  ⟨communityId, kindNip43MembershipList, relay, .channel none⟩

def memberTags (members : List (String × String)) : List Tag :=
  ⟨"-", []⟩ :: members.map fun m => ⟨"member", [m.1, m.2]⟩

def Exact (db : Db) (a : Address) (members : List (String × String)) : Prop :=
  ∃ key row, (∀ key' row', LiveAt db a key' row' ↔ key' = key ∧ row' = row) ∧
    row.event.tags = memberTags members

/-! ## The condition -/

def Clear (db : Db) (a : Address) (e : Event) : Prop :=
  ∀ row ∈ db.events.get? (e.key a.communityId),
    (Where.address a).has (e.key a.communityId) row = true ∧ row.event.tags = e.tags

instance (db : Db) (a : Address) (e : Event) : Decidable (Clear db a e) :=
  inferInstanceAs (Decidable (∀ row ∈ db.events.get? (e.key a.communityId), _ ∧ _))

def Call.signer : Call relay → Option (Signer relay)
  | publishNip43MembershipLocked signer => some signer
  | mutate _ => none

def isMemberRead (communityId : CommunityId) : Sql → Bool
  | .readMembers c => c == communityId
  | _ => false

/-- When a publication reads the members, no superseded snapshot is stored under the key of the
event that it will sign. -/
def unsuperseded (communityId : CommunityId) (relay : PubKey) :
    PlanGuard (Call relay) Sql Db Lock Vars Write DbError where
  exec p t k := isMemberRead communityId k = true → ∀ signer ∈ t.call.signer,
    Clear p.db (address communityId relay) (signer.sign (memberTags (p.db.membersOf communityId)))
  commit _ _ := True

/-! ## What an open transaction knows -/

def Needs (a : Address) (done : List Sql) : Sql → Prop
  | .readMembers c => c = a.communityId ∧ .lockAddress a ∈ done ∧ Silent done ∧
    ∀ f, .signSnapshot f ∉ done
  | .signSnapshot _ => ∀ c, .insertSnapshot c ∉ done
  | .findRows w ifHead => .lockAddress a ∈ done ∧ Silent done ∧ w = .address a ∧ ifHead = false
  | .retireRows w how => .lockAddress a ∈ done ∧ Silent done ∧ w = .address a ∧ how = .soft ∧
    .findRows (.address a) false ∈ done
  | .insertSnapshot c => c = a.communityId ∧ .lockAddress a ∈ done ∧
    .readMembers a.communityId ∈ done ∧ (∃ f, .signSnapshot f ∈ done) ∧
    .retireRows (.address a) .soft ∈ done ∧ ∀ c, .insertSnapshot c ∉ done
  | .insertRow _ _ _ | .checkStale _ => False
  | _ => True

def snapshotRow (e : Event) : Row := ⟨e, none, extractDTag e, none⟩

structure Own (a : Address) (db : Db) (done : List Sql) (t : CallTx relay) : Prop where
  lock : .lockAddress a ∈ done → (.advisory a.lockKey, .exclusive) ∈ t.held
  clear : .readMembers a.communityId ∈ done → .lockAddress a ∈ done ∧
    ∀ signer, t.call = .publishNip43MembershipLocked signer →
      Clear db a (signer.sign (memberTags t.vars.members))
  signed : ∀ f, .signSnapshot f ∈ done → ∀ signer, t.call = .publishNip43MembershipLocked signer →
    t.vars.snapshot = some (signer.sign (memberTags t.vars.members))
  found : .findRows (.address a) false ∈ done → .lockAddress a ∈ done ∧
    ∀ key row, LiveAt db a key row → key ∈ t.vars.found
  retired : .retireRows (.address a) .soft ∈ done → .lockAddress a ∈ done ∧
    ∀ key row, LiveAt db a key row → ∃ left, .event key left ∈ t.writes
  events : ∀ key left, .event key left ∈ t.writes → .lockAddress a ∈ done ∧
    ∃ old, LiveAt db a key old ∧ left = Retire.soft.apply old t.now
  inserted : ∀ key row, .inserted key row ∈ t.writes → .lockAddress a ∈ done ∧
    .retireRows (.address a) .soft ∈ done ∧ .insertSnapshot a.communityId ∈ done ∧
    db.events.get? key = none ∧
    ∃ e ∈ t.vars.snapshot, key = e.key a.communityId ∧ row = snapshotRow e
  stored : .insertSnapshot a.communityId ∈ done → ∃ key row, .inserted key row ∈ t.writes
  silent : Silent done → t.writes = []

/-! ## Plans -/

theorem plan_ordered (call : Call relay) :
    Ordered (Needs (address communityId relay)) [] (plan communityId call) := by
  cases call with
  | publishNip43MembershipLocked signer =>
    simp [plan, Events.publishNip43MembershipLocked, Ordered, Needs, Silent, isWriter, address]
  | mutate rows =>
    suffices h : ∀ (rows : List ((CommunityId × String) × Option RelayMember)) done,
        Ordered (Needs (address communityId relay)) done
          (rows.map fun r => .putMember r.1 r.2) from h rows []
    intro rows
    induction rows with
    | nil => exact fun _ => trivial
    | cons r rows ih => exact fun done => ⟨trivial, ih _⟩

variable {signer : Signer relay}

theorem sign_of_mem {call : Call relay} {f : List (String × String) → Event}
    (h : .signSnapshot f ∈ plan communityId call)
    (hcall : call = .publishNip43MembershipLocked signer) :
    f = fun members => signer.sign (memberTags members) := by
  subst hcall
  simp only [plan, Events.publishNip43MembershipLocked, List.mem_cons, reduceCtorEq,
    List.not_mem_nil, or_false, false_or, Sql.signSnapshot.injEq] at h
  rw [h]
  rfl

/-! ## The transaction's own statements -/

variable {key : EventKey} {row : Row}

section Exec

variable {a : Address} {db seen : Db} {done : List Sql} {t : CallTx relay} {stmt : Sql}
  {v' : Vars} {ws : List Write}

theorem members_kept {now : Int} {v : Vars} (heffect : Effect now v seen stmt v' ws)
    (h : ∀ c, stmt ≠ .readMembers c) : v'.members = v.members := by
  cases heffect with
  | readMembers c => exact absurd rfl (h c)
  | _ => rfl

theorem snapshot_kept {now : Int} {v : Vars} (heffect : Effect now v seen stmt v' ws)
    (h : ∀ f, stmt ≠ .signSnapshot f) : v'.snapshot = v.snapshot := by
  cases heffect with
  | signSnapshot f => exact absurd rfl (h f)
  | _ => rfl

theorem seen_of_silent (hown : Own a db done t) (h : Silent done) :
    (snapshotStore a.communityId relay).seen db t = db := by
  unfold Planned.seen
  rw [hown.silent h]
  rfl

theorem clear_exec (hown : Own a db done t) (hneeds : Needs a done stmt)
    (heffect : Effect t.now t.vars ((snapshotStore a.communityId relay).seen db t) stmt v' ws)
    (hclear : ∀ c, stmt = .readMembers c → ∀ signer, t.call = .publishNip43MembershipLocked signer →
      Clear db a (signer.sign (memberTags (db.membersOf c))))
    (h : .readMembers a.communityId ∈ done ++ [stmt]) :
    .lockAddress a ∈ done ∧ ∀ signer, t.call = .publishNip43MembershipLocked signer →
      Clear db a (signer.sign (memberTags v'.members)) := by
  by_cases hread : ∃ c, stmt = .readMembers c
  · obtain ⟨c, rfl⟩ := hread
    obtain ⟨rfl, hlock, hsilent, -⟩ := hneeds
    have hsame := seen_of_silent hown hsilent
    refine ⟨hlock, ?_⟩
    intro signer hcall
    cases heffect
    rw [hsame]
    exact hclear _ rfl signer hcall
  · rcases List.mem_append.mp h with hold | hnew
    · rw [members_kept heffect fun c heq => hread ⟨c, heq⟩]
      exact hown.clear hold
    · exact absurd ⟨_, (List.mem_singleton.mp hnew).symm⟩ hread

theorem signed_exec (hown : Own a db done t) (hneeds : Needs a done stmt)
    (hmem : stmt ∈ plan a.communityId t.call) (heffect : Effect t.now t.vars seen stmt v' ws)
    {f : List (String × String) → Event} (h : .signSnapshot f ∈ done ++ [stmt])
    (hcall : t.call = .publishNip43MembershipLocked signer) :
    v'.snapshot = some (signer.sign (memberTags v'.members)) := by
  by_cases hsign : ∃ f, stmt = .signSnapshot f
  · obtain ⟨f', rfl⟩ := hsign
    rw [sign_of_mem hmem hcall] at heffect
    cases heffect
    rfl
  · rcases List.mem_append.mp h with hold | hnew
    · rw [snapshot_kept heffect fun f heq => hsign ⟨f, heq⟩, members_kept heffect]
      · exact hown.signed f hold signer hcall
      · rintro c rfl
        exact hneeds.2.2.2 f hold
    · exact absurd ⟨_, (List.mem_singleton.mp hnew).symm⟩ hsign

theorem found_exec (hown : Own a db done t) (hneeds : Needs a done stmt)
    (heffect : Effect t.now t.vars ((snapshotStore a.communityId relay).seen db t) stmt v' ws)
    (h : .findRows (.address a) false ∈ done ++ [stmt]) :
    .lockAddress a ∈ done ∧ ∀ key row, LiveAt db a key row → key ∈ v'.found := by
  by_cases hfind : ∃ w ifHead, stmt = .findRows w ifHead
  · obtain ⟨w, ifHead, rfl⟩ := hfind
    obtain ⟨hlock, hsilent, rfl, rfl⟩ := hneeds
    have hsame := seen_of_silent hown hsilent
    refine ⟨hlock, ?_⟩
    intro key row hlive
    cases heffect
    rw [hsame]
    exact List.mem_map.mpr ⟨(key, row), mem_find.mpr hlive, rfl⟩
  · rcases List.mem_append.mp h with hold | hnew
    · rw [found_kept heffect fun w ifHead heq => hfind ⟨w, ifHead, heq⟩]
      exact hown.found hold
    · exact absurd ⟨_, _, (List.mem_singleton.mp hnew).symm⟩ hfind

theorem retired_exec (hown : Own a db done t) (hneeds : Needs a done stmt)
    (heffect : Effect t.now t.vars ((snapshotStore a.communityId relay).seen db t) stmt v' ws)
    (h : .retireRows (.address a) .soft ∈ done ++ [stmt]) :
    .lockAddress a ∈ done ∧
      ∀ key row, LiveAt db a key row → ∃ left, .event key left ∈ t.writes ++ ws := by
  rcases List.mem_append.mp h with hold | hnew
  · obtain ⟨hlock, hretired⟩ := hown.retired hold
    refine ⟨hlock, ?_⟩
    intro key row hlive
    obtain ⟨left, hmem⟩ := hretired key row hlive
    exact ⟨left, List.mem_append_left _ hmem⟩
  · obtain rfl := List.mem_singleton.mp hnew
    obtain ⟨hlock, hsilent, -, -, hfind⟩ := hneeds
    have hsame := seen_of_silent hown hsilent
    refine ⟨hlock, ?_⟩
    intro key row hlive
    have hfound := (hown.found hfind).2 key row hlive
    cases heffect
    rw [hsame]
    refine ⟨_, List.mem_append_right _ (List.mem_map.mpr ⟨(key, row), ?_, rfl⟩)⟩
    exact mem_retiredRows.mpr ⟨hfound, hlive.1, hlive.2⟩

theorem events_exec (hown : Own a db done t) (hneeds : Needs a done stmt)
    (heffect : Effect t.now t.vars ((snapshotStore a.communityId relay).seen db t) stmt v' ws)
    {left : Option Row} (h : .event key left ∈ ws) :
    .lockAddress a ∈ done ∧ ∃ old, LiveAt db a key old ∧ left = Retire.soft.apply old t.now := by
  obtain ⟨w, how, old, rfl, hmem, hleft⟩ := event_written heffect h
  obtain ⟨-, hget, hhas⟩ := mem_retiredRows.mp hmem
  obtain ⟨hlock, hsilent, rfl, rfl, -⟩ := hneeds
  rw [seen_of_silent hown hsilent] at hget
  exact ⟨hlock, old, ⟨hget, hhas⟩, hleft⟩

theorem soft_stays {old : Row} (ha : a.kind = kindNip43MembershipList)
    (hhas : (Where.address a).has key old = true) (now : Int) :
    (Retire.soft.apply old now).isSome = true := by
  have hkind : old.event.kind = 13534 := by
    simp only [Where.has, Address.has, Bool.and_eq_true, beq_iff_eq] at hhas
    exact hhas.2.1.1.2.trans ha
  simp [Retire.apply, Row.softDelete, conforms, purgedAsMeshStatus, hkind, kindReadState,
    kindBookmarkSet]

theorem stored_seen (ha : a.kind = kindNip43MembershipList) (hown : Own a db done t)
    (hnone : .insertSnapshot a.communityId ∉ done) (key : EventKey) :
    (((snapshotStore a.communityId relay).seen db t).events.get? key).isSome =
      (db.events.get? key).isSome := by
  rcases event_view (plan a.communityId) db t.writes key with
    ⟨hsame, -⟩ | ⟨left, hmem, hread⟩ | ⟨row, hmem, -⟩
  · exact congrArg Option.isSome hsame
  · obtain ⟨-, old, ⟨hget, hhas⟩, rfl⟩ := hown.events key left hmem
    rw [hget, Option.isSome_some]
    exact (congrArg Option.isSome hread).trans (soft_stays ha hhas t.now)
  · exact absurd (hown.inserted key row hmem).2.2.1 hnone

theorem inserted_exec (ha : a.kind = kindNip43MembershipList) (hown : Own a db done t)
    (hneeds : Needs a done stmt)
    (heffect : Effect t.now t.vars ((snapshotStore a.communityId relay).seen db t) stmt v' ws)
    (h : .inserted key row ∈ ws) : stmt = .insertSnapshot a.communityId ∧ .lockAddress a ∈ done ∧
      .retireRows (.address a) .soft ∈ done ∧ db.events.get? key = none ∧
      ∃ e ∈ t.vars.snapshot, key = e.key a.communityId ∧ row = snapshotRow e := by
  obtain ⟨hfree, -, ⟨rollback, rfl, -⟩ | ⟨communityId, e, rfl, he, hkey, hrow⟩⟩ :=
    inserted_written heffect h
  · exact absurd hneeds id
  · obtain ⟨rfl, hlock, -, -, hretire, hnone⟩ := hneeds
    have hstored := stored_seen ha hown (hnone a.communityId) key
    rw [hfree, Option.isSome_none, eq_comm, Option.isSome_eq_false_iff,
      Option.isNone_iff_eq_none] at hstored
    exact ⟨rfl, hlock, hretire, hstored, e, he, hkey, hrow⟩

theorem stored_exec (heffect : Effect t.now t.vars seen stmt v' ws) {c : CommunityId}
    (h : stmt = .insertSnapshot c) : ∃ key row, .inserted key row ∈ ws := by
  subst h
  cases heffect with
  | insertSnapshot hsnapshot hfree => exact ⟨_, _, List.mem_cons_self⟩

theorem own_exec (ha : a.kind = kindNip43MembershipList) (hown : Own a db done t)
    (hneeds : Needs a done stmt) (hmem : stmt ∈ plan a.communityId t.call)
    (hclear : ∀ c, stmt = .readMembers c → ∀ signer, t.call = .publishNip43MembershipLocked signer →
      Clear db a (signer.sign (memberTags (db.membersOf c))))
    (heffect : Effect t.now t.vars ((snapshotStore a.communityId relay).seen db t) stmt v' ws)
    (rest : List (Statement Db Lock Vars Write DbError)) :
    Own a db (done ++ [stmt]) (t.after rest
      (stmt.locks t.now t.vars ((snapshotStore a.communityId relay).seen db t)) v' ws) where
  lock h := by
    rcases List.mem_append.mp h with h | h
    · exact List.mem_append_left _ (hown.lock h)
    · rw [← List.mem_singleton.mp h]
      exact List.mem_append_right _ List.mem_cons_self
  clear h := (clear_exec hown hneeds heffect hclear h).imp_left (List.mem_append_left _)
  signed _ h _ hcall := signed_exec hown hneeds hmem heffect h hcall
  found h := (found_exec hown hneeds heffect h).imp_left (List.mem_append_left _)
  retired h := (retired_exec hown hneeds heffect h).imp_left (List.mem_append_left _)
  events key left h := by
    rcases List.mem_append.mp h with h | h
    · exact (hown.events key left h).imp_left (List.mem_append_left _)
    · exact (events_exec hown hneeds heffect h).imp_left (List.mem_append_left _)
  inserted key row h := by
    rcases List.mem_append.mp h with h | h
    · obtain ⟨hlock, hretire, hinsert, hfree, e, he, hrest⟩ := hown.inserted key row h
      refine ⟨List.mem_append_left _ hlock, List.mem_append_left _ hretire,
        List.mem_append_left _ hinsert, hfree, e, ?_, hrest⟩
      refine (snapshot_kept heffect ?_).trans he
      rintro f rfl
      exact hneeds _ hinsert
    · obtain ⟨rfl, hlock, hretire, hfree, e, he, hrest⟩ := inserted_exec ha hown hneeds heffect h
      have hkept : v'.snapshot = t.vars.snapshot :=
        snapshot_kept heffect fun f heq => Sql.noConfusion heq
      exact ⟨List.mem_append_left _ hlock, List.mem_append_left _ hretire,
        List.mem_append_right _ List.mem_cons_self, hfree, e, hkept.trans he, hrest⟩
  stored h := by
    rcases List.mem_append.mp h with h | h
    · obtain ⟨key, row, hmem⟩ := hown.stored h
      exact ⟨key, row, List.mem_append_left _ hmem⟩
    · obtain ⟨key, row, hmem⟩ := stored_exec heffect (List.mem_singleton.mp h).symm
      exact ⟨key, row, List.mem_append_right _ hmem⟩
  silent h := by
    have hdone : Silent done := fun k hk => h k (List.mem_append_left _ hk)
    have hlast := h stmt (List.mem_append_right _ List.mem_cons_self)
    rw [Tx.after_writes, hown.silent hdone, silent_writes heffect hlast]
    rfl

end Exec

/-! ## Commits -/

section Commit

variable {a : Address} {db : Db} {done done' : List Sql} {t u : CallTx relay}

theorem events_same (ht : Own a db done' t) (hfit : conflict t.held u.held = false)
    (hu : (.advisory a.lockKey, .exclusive) ∈ u.held) (key : EventKey) :
    ((snapshotStore a.communityId relay).seen db t).events.get? key = db.events.get? key := by
  have hfree : .lockAddress a ∉ done' := fun h => not_exclusive_of_held hfit hu (ht.lock h)
  rcases event_view (plan a.communityId) db t.writes key with
    ⟨hsame, -⟩ | ⟨left, hmem, -⟩ | ⟨row, hmem, -⟩
  · exact hsame
  · exact absurd (ht.events key left hmem).1 hfree
  · exact absurd (ht.inserted key row hmem).1 hfree

theorem own_commit (ht : Own a db done' t) (hu : Own a db done u)
    (hfit : conflict t.held u.held = false) :
    Own a ((snapshotStore a.communityId relay).seen db t) done u := by
  have hsame : .lockAddress a ∈ done → ∀ key,
      ((snapshotStore a.communityId relay).seen db t).events.get? key = db.events.get? key :=
    fun h => events_same ht hfit (hu.lock h)
  have hlive : .lockAddress a ∈ done → ∀ key row,
      LiveAt ((snapshotStore a.communityId relay).seen db t) a key row → LiveAt db a key row :=
    fun h key row hlive => ⟨(hsame h key).symm.trans hlive.1, hlive.2⟩
  refine ⟨hu.lock, ?_, hu.signed, ?_, ?_, ?_, ?_, hu.stored, hu.silent⟩
  · intro hread
    obtain ⟨hlock, hclear⟩ := hu.clear hread
    refine ⟨hlock, ?_⟩
    intro signer hcall row hrow
    exact hclear signer hcall row ((hsame hlock _).symm.trans hrow)
  · intro hfind
    obtain ⟨hlock, hfound⟩ := hu.found hfind
    exact ⟨hlock, fun key row h => hfound key row (hlive hlock key row h)⟩
  · intro hretire
    obtain ⟨hlock, hretired⟩ := hu.retired hretire
    exact ⟨hlock, fun key row h => hretired key row (hlive hlock key row h)⟩
  · intro key left hmem
    obtain ⟨hlock, old, ⟨hget, hhas⟩, hleft⟩ := hu.events key left hmem
    exact ⟨hlock, old, ⟨(hsame hlock key).trans hget, hhas⟩, hleft⟩
  · intro key row hmem
    obtain ⟨hlock, hretire, hinsert, hfree, hrest⟩ := hu.inserted key row hmem
    exact ⟨hlock, hretire, hinsert, (hsame hlock key).trans hfree, hrest⟩

theorem live_seen (ht : Own a db done t)
    (h : LiveAt ((snapshotStore a.communityId relay).seen db t) a key row) :
    LiveAt db a key row ∨ .inserted key row ∈ t.writes := by
  refine live_view (plan a.communityId) ?_ h
  intro left hmem
  obtain ⟨-, old, -, hleft⟩ := ht.events key left hmem
  exact ⟨.soft, old, t.now, hleft⟩

theorem live_of_insert (ht : Own a db done t) {new : EventKey} {row' : Row}
    (hnew : .inserted new row' ∈ t.writes)
    (h : LiveAt ((snapshotStore a.communityId relay).seen db t) a key row) :
    key = new ∧ row = row' := by
  obtain ⟨-, hretire, -, -, e, he, rfl, rfl⟩ := ht.inserted new row' hnew
  rcases live_seen ht h with hold | hinserted
  · obtain ⟨left, hevent⟩ := (ht.retired hretire).2 key row hold
    obtain ⟨hget, hhas⟩ := h
    rcases event_view (plan a.communityId) db t.writes key with
      ⟨-, hnone, -⟩ | ⟨left', hmem, hread⟩ | ⟨row₁, hmem, -⟩
    · exact absurd hevent (hnone left)
    · obtain ⟨-, old, -, rfl⟩ := ht.events key left' hmem
      exact absurd hhas (retired_not_live (hread.symm.trans hget))
    · cases (ht.inserted key row₁ hmem).2.2.2.1.symm.trans hold.1
  · obtain ⟨-, -, -, -, e', he', rfl, rfl⟩ := ht.inserted key row hinserted
    cases he.symm.trans he'
    exact ⟨rfl, rfl⟩

theorem inserted_live (ht : Own a db done t) {new : EventKey} (hnew : .inserted new row ∈ t.writes)
    (hhas : (Where.address a).has new row = true) :
    LiveAt ((snapshotStore a.communityId relay).seen db t) a new row := by
  obtain ⟨-, -, -, hfree, e, he, hkey, hrow⟩ := ht.inserted new row hnew
  rcases event_view (plan a.communityId) db t.writes new with
    ⟨-, -, hnone⟩ | ⟨left, hmem, -⟩ | ⟨row', hmem, hread⟩
  · exact absurd hnew (hnone row)
  · obtain ⟨-, old, ⟨hget, -⟩, -⟩ := ht.events new left hmem
    cases hfree.symm.trans hget
  · obtain ⟨-, -, -, -, e', he', -, hrow'⟩ := ht.inserted new row' hmem
    cases he.symm.trans he'
    exact ⟨hread.trans (by rw [hrow', hrow]), hhas⟩

def One (db : Db) (a : Address) : Prop :=
  ∀ key row key' row', LiveAt db a key row → LiveAt db a key' row' → key = key' ∧ row = row'

theorem one_commit (hone : One db a) (ht : Own a db done t) :
    One ((snapshotStore a.communityId relay).seen db t) a := by
  intro key row key' row' h h'
  by_cases hinsert : ∃ new row₀, .inserted new row₀ ∈ t.writes
  · obtain ⟨new, row₀, hnew⟩ := hinsert
    obtain ⟨rfl, rfl⟩ := live_of_insert ht hnew h
    obtain ⟨rfl, rfl⟩ := live_of_insert ht hnew h'
    exact ⟨rfl, rfl⟩
  · refine hone key row key' row' ?_ ?_
    · exact (live_seen ht h).resolve_right fun hnew => hinsert ⟨_, _, hnew⟩
    · exact (live_seen ht h').resolve_right fun hnew => hinsert ⟨_, _, hnew⟩

end Commit

/-! ## The rule -/

theorem fresh_own (db : Db) (call : Call relay) (now : Int) :
    Own (address communityId relay) db []
      (fresh (snapshotStore communityId relay).system call now) where
  lock h := absurd h List.not_mem_nil
  clear h := absurd h List.not_mem_nil
  signed _ h := absurd h List.not_mem_nil
  found h := absurd h List.not_mem_nil
  retired h := absurd h List.not_mem_nil
  events _ _ h := absurd h List.not_mem_nil
  inserted _ _ h := absurd h List.not_mem_nil
  stored h := absurd h List.not_mem_nil
  silent _ := rfl

theorem snapshot_rule : PlanRule (snapshotStore communityId relay) (unsuperseded communityId relay)
    (fun _ => True) (fun _ _ _ => True) (fun p => One p.db (address communityId relay))
    (Own (address communityId relay)) where
  advance _ _ h := h
  refuse _ _ _ h := h
  begin p call _ := fresh_own p.db call p.clock
  exec p done k todo t vars ws _ _ _ hown hplan hmay hexec := by
    refine own_exec rfl hown (needs_of_ordered (by rw [← hplan]; exact plan_ordered t.call)) ?_ ?_
      (effect_of_exec hexec) _
    · show k ∈ plan communityId t.call
      rw [show plan communityId t.call = done ++ k :: todo from hplan]
      exact List.mem_append_right _ List.mem_cons_self
    · rintro c rfl signer hcall
      have hneeds : Needs (address communityId relay) done (.readMembers c) :=
        needs_of_ordered (by rw [← hplan]; exact plan_ordered t.call)
      obtain ⟨rfl, -⟩ := hneeds
      exact hmay (by simp [isMemberRead]) signer (by rw [hcall]; rfl)
  commit p t _ hone _ hown _ _ _ := one_commit hone hown
  ownCommit p t u done _ _ _ ht _ hu _ _ hfit _ := own_commit ht hu hfit

/-! ## Answers -/

abbrev SnapshotWorld (relay : PubKey) := World (Call relay) Db Lock Vars Write DbError

/-- A publication returns `Ok` in this step: it commits, or its snapshot was not inserted. -/
structure ReturnsOk (s : SnapshotWorld relay) (action : Action (Call relay) DbError)
    (s' : SnapshotWorld relay) (tx : Nat) (t : CallTx relay) : Prop where
  isOpen : s.txs.get? tx = some t
  publish : t.call.signer.isSome = true
  answer : action = .commit tx ∨ action = .exec tx ∧
    s'.pub.answers.map Prod.snd = s.pub.answers.map Prod.snd ++ [Except.error DbError.notInserted]

theorem mem_publish (communityId : CommunityId) (signer : Signer relay) :
    let calls := plan communityId (.publishNip43MembershipLocked signer)
    .insertSnapshot communityId ∈ calls ∧ ∃ f, .signSnapshot f ∈ calls := by
  refine ⟨?_, fun members => signer.sign (memberTags members), ?_⟩
  · simp [plan, Events.publishNip43MembershipLocked]
  · simp only [plan, Events.publishNip43MembershipLocked, List.mem_cons, reduceCtorEq, false_or,
      Sql.signSnapshot.injEq]
    exact .inl rfl

theorem exact_commit {db : Db} {t : CallTx relay}
    (hcall : t.call = .publishNip43MembershipLocked signer)
    (ht : Own (address communityId relay) db (plan communityId t.call) t) :
    Exact ((snapshotStore communityId relay).seen db t) (address communityId relay)
      t.vars.members := by
  obtain ⟨hinsert, f, hsign⟩ := mem_publish communityId signer
  rw [← hcall] at hinsert hsign
  obtain ⟨key, row, hnew⟩ := ht.stored hinsert
  obtain ⟨-, -, -, -, e, he, hkey, hrow⟩ := ht.inserted key row hnew
  have hsigned : e = signer.sign (memberTags t.vars.members) :=
    Option.some.inj (he.symm.trans (ht.signed f hsign signer hcall))
  have hhas : (Where.address (address communityId relay)).has key row = true := by
    rw [hkey, hrow, hsigned]
    simp [Where.has, Address.has, address, Event.key, snapshotRow, signer.kind_sign,
      signer.pubkey_sign]
  refine ⟨key, row, ?_, ?_⟩
  · intro key' row'
    constructor
    · exact live_of_insert ht hnew
    · rintro ⟨rfl, rfl⟩
      exact inserted_live ht hnew hhas
  · rw [hrow, hsigned]
    exact signer.tags_sign _

theorem exact_refused {db : Db} {done todo : List Sql} {k : Sql} {t : CallTx relay}
    (hcall : t.call = .publishNip43MembershipLocked signer)
    (hplan : plan communityId t.call = done ++ k :: todo)
    (hone : One db (address communityId relay)) (ht : Own (address communityId relay) db done t)
    (hexec : k.exec t.now t.vars ((snapshotStore communityId relay).seen db t) =
      .error .notInserted) : Exact db (address communityId relay) t.vars.members := by
  have hneeds : Needs (address communityId relay) done k :=
    needs_of_ordered (by rw [← hplan]; exact plan_ordered t.call)
  rcases notInserted_cases hexec with ⟨stamp, rfl⟩ | ⟨key, row, rollback, rfl⟩ | ⟨c, rfl, hstored⟩
  · exact absurd hneeds id
  · exact absurd hneeds id
  · obtain ⟨rfl, -, hread, ⟨f, hsign⟩, -, hnone⟩ := hneeds
    have hclear := (ht.clear hread).2 signer hcall
    have hfree := hstored _ (ht.signed f hsign signer hcall)
    have hseen := stored_seen rfl ht (hnone _)
      ((signer.sign (memberTags t.vars.members)).key c)
    obtain ⟨row, hrow⟩ := Option.isSome_iff_exists.mp (hseen.symm.trans hfree)
    obtain ⟨hhas, htags⟩ := hclear row hrow
    have hlive : LiveAt db (address c relay) ((signer.sign (memberTags t.vars.members)).key c) row :=
      ⟨hrow, hhas⟩
    refine ⟨(signer.sign (memberTags t.vars.members)).key c, row, ?_,
      htags.trans (signer.tags_sign _)⟩
    intro key' row'
    constructor
    · exact fun hlive' => hone key' row' _ row hlive' hlive
    · rintro ⟨rfl, rfl⟩
      exact hlive

/-- In a run in which no publication reads members whose snapshot of that second is superseded,
whenever a publication returns `Ok` the only live snapshot lists the members that it has read. -/
theorem published_snapshot_exact {start : Db} {clock : Int}
    {as : List (Action (Call relay) DbError)} {s s' : SnapshotWorld relay}
    {action : Action (Call relay) DbError} {tx : Nat} {t : CallTx relay}
    (hstart : One start (address communityId relay))
    (hmeets : Meets (step (snapshotStore communityId relay).system)
      ((snapshotStore communityId relay).guard (unsuperseded communityId relay)).allows
      (World.init clock start) as)
    (hrun : run (step (snapshotStore communityId relay).system) (World.init clock start) as = some s)
    (hstep : step (snapshotStore communityId relay).system s action = some s')
    (hok : ReturnsOk s action s' tx t) :
    Exact s'.pub.db (address communityId relay) t.vars.members := by
  have hkept := run_keeps_of_meets (snapshot_rule.rule (disciplined (plan communityId)))
    (kept_init clock hstart) hmeets hrun
  obtain ⟨hopen, hpublish, hanswer⟩ := hok
  obtain ⟨signer, hcall⟩ : ∃ signer, t.call = .publishNip43MembershipLocked signer := by
    cases hcall : t.call with
    | publishNip43MembershipLocked signer => exact ⟨signer, rfl⟩
    | mutate rows =>
      rw [hcall] at hpublish
      cases hpublish
  rcases hanswer with rfl | ⟨rfl, hanswers⟩
  · obtain ⟨t', hopen', hrest, hpub⟩ := step_commit hstep
    obtain rfl := Option.some.inj (hopen.symm.trans hopen')
    obtain ⟨-, -, ht⟩ := (hkept.own tx t hopen).finished hrest
    have hdb : s'.pub.db = (snapshotStore communityId relay).seen s.pub.db t := by rw [hpub]; rfl
    rw [hdb]
    exact exact_commit hcall ht
  · have hkeeps : s'.pub.db = s.pub.db := by
      refine step_db hstep ?_
      intro tx' heq
      cases heq
    rw [hkeeps]
    obtain ⟨done, todo, hplan, htodo, -, -, ht⟩ := hkept.own tx t hopen
    cases step_cases hstep with
    | exec hopen' hrest hfree hexec => simp at hanswers
    | @refuse _ t' stmt rest error hopen' hrest hexec =>
      obtain rfl := Option.some.inj (hopen.symm.trans hopen')
      simp only [Public.refuse, List.map_append, List.map_cons, List.map_nil,
        List.append_cancel_left_eq, List.cons.injEq, and_true, Except.error.injEq] at hanswers
      subst hanswers
      rw [hrest] at htodo
      obtain ⟨k, todo', rfl, rfl, -⟩ := List.map_eq_cons_iff.mp htodo.symm
      exact exact_refused hcall hplan hkept.inv ht hexec

/-! ## Two runs -/

def signerAt (secs : Nat) (h : secs < 2 ^ 63) : Signer 9 where
  sign tags :=
    let text := tags.flatMap fun t => t.kind :: t.values
    let id := fnv (BitVec.ofNat 64 secs) (text.flatMap fun s => utf8Bytes s.toList)
    ⟨id.setWidth 256, 9, secs, kindNip43MembershipList, tags, "", h⟩
  pubkey_sign _ := rfl
  kind_sign _ := rfl
  tags_sign _ := rfl

def addMember (pubkey : String) (createdAt : Int) : Call 9 :=
  .mutate [((1, pubkey), some ⟨"member", createdAt⟩)]

def removeMember (pubkey : String) : Call 9 := .mutate [((1, pubkey), none)]

def publishAt100 : Call 9 := .publishNip43MembershipLocked (signerAt 100 time100_lt)

/-- Two publications of one second, each after a member has been added. -/
def twoPublications : List (Action (Call 9) DbError) :=
  [Action.begin (addMember "aa" 1), .exec 0, .commit 0, .begin publishAt100] ++
    List.replicate 6 (Action.exec 1) ++
    [Action.commit 1, .begin (addMember "bb" 2), .exec 2, .commit 2, .begin publishAt100] ++
    List.replicate 6 (Action.exec 3)

instance (communityId : CommunityId) (relay : PubKey) (p : Public (Call relay) Db Vars DbError)
    (t : CallTx relay) (k : Sql) : Decidable ((unsuperseded communityId relay).exec p t k) :=
  inferInstanceAs (Decidable (isMemberRead communityId k = true → ∀ signer ∈ t.call.signer, _))

instance (communityId : CommunityId) (relay : PubKey) (p : Public (Call relay) Db Vars DbError)
    (t : CallTx relay) : Decidable ((unsuperseded communityId relay).commit p t) := isTrue trivial

theorem published_snapshot_exact_on_second :
    ∃ s s' t, run (step (snapshotStore 1 9).system) (World.init 0 .empty) twoPublications = some s ∧
      ReturnsOk s (.commit 3) s' 3 t ∧ t.vars.members = [("aa", "member"), ("bb", "member")] ∧
      Exact s'.pub.db (address 1 9) [("aa", "member"), ("bb", "member")] := by
  have hmeets : Meets (step (snapshotStore 1 9).system)
      ((snapshotStore 1 9).guard (unsuperseded 1 9)).allows (World.init 0 .empty)
      twoPublications := by
    decide +kernel
  have hrun : ((run (step (snapshotStore 1 9).system) (World.init 0 .empty)
      twoPublications).any fun s => (step (snapshotStore 1 9).system s (.commit 3)).isSome &&
        (s.txs.get? 3).any fun t => t.call.signer.isSome &&
          t.vars.members == [("aa", "member"), ("bb", "member")]) = true := by
    decide +kernel
  obtain ⟨s, hs, hfacts⟩ := (Option.any_eq_true _ _).mp hrun
  simp only [Bool.and_eq_true, beq_iff_eq, Option.any_eq_true] at hfacts
  obtain ⟨hnext, t, hopen, hpublish, hmembers⟩ := hfacts
  obtain ⟨s', hstep⟩ := Option.isSome_iff_exists.mp hnext
  have hok : ReturnsOk s (.commit 3) s' 3 t := ⟨hopen, hpublish, .inl rfl⟩
  have hstart : One .empty (address 1 9) := by
    intro key row key' row' h
    cases h.1
  have hexact := published_snapshot_exact hstart hmeets hs hstep hok
  rw [hmembers] at hexact
  exact ⟨s, s', t, hs, hok, hmembers, hexact⟩

/-- Of the two added members one is removed within the same second, and the publication that
follows is about to insert. -/
def repeatedMembers : List (Action (Call 9) DbError) :=
  twoPublications ++
    [Action.commit 3, .begin (removeMember "bb"), .exec 4, .commit 4, .begin publishAt100] ++
    List.replicate 5 (Action.exec 5)

theorem tags_of_exact {db : Db} {a : Address} {members : List (String × String)}
    (h : Exact db a members) {x : EventKey × Row} (hx : x ∈ db.find (.address a)) :
    x.2.event.tags = memberTags members := by
  obtain ⟨key, row, hlive, htags⟩ := h
  obtain ⟨-, hrow⟩ := (hlive x.1 x.2).mp (mem_find.mp hx)
  rw [hrow]
  exact htags

theorem repeated_members_leave_old_snapshot :
    ∃ s s' t, run (step (snapshotStore 1 9).system) (World.init 0 .empty) repeatedMembers = some s ∧
      step (snapshotStore 1 9).system s (.exec 5) = some s' ∧ ReturnsOk s (.exec 5) s' 5 t ∧
      t.vars.members = [("aa", "member")] ∧ ¬ Exact s'.pub.db (address 1 9) t.vars.members := by
  have hrun : ((run (step (snapshotStore 1 9).system) (World.init 0 .empty)
      repeatedMembers).any fun s => (step (snapshotStore 1 9).system s (.exec 5)).any fun s' =>
        decide (s'.pub.answers.map Prod.snd =
          s.pub.answers.map Prod.snd ++ [Except.error DbError.notInserted]) &&
        (s'.pub.db.find (.address (address 1 9))).any (fun x =>
          x.2.event.tags == memberTags [("aa", "member"), ("bb", "member")]) &&
        (s.txs.get? 5).any fun t => t.call.signer.isSome && t.vars.members == [("aa", "member")]) =
      true := by
    decide +kernel
  obtain ⟨s, hs, hfacts⟩ := (Option.any_eq_true _ _).mp hrun
  simp only [Bool.and_eq_true, beq_iff_eq, Option.any_eq_true, decide_eq_true_eq,
    List.any_eq_true] at hfacts
  obtain ⟨s', hstep, ⟨hanswers, x, hx, htags⟩, t, hopen, hpublish, hmembers⟩ := hfacts
  refine ⟨s, s', t, hs, hstep, ⟨hopen, hpublish, .inr ⟨rfl, hanswers⟩⟩, hmembers, ?_⟩
  intro hexact
  have hsame := (tags_of_exact hexact hx).symm.trans htags
  rw [hmembers] at hsame
  simp [memberTags] at hsame

end Vingilot.Events.Snapshots
