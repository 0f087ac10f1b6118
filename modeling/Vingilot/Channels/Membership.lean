import Vingilot.Channels.Store
import Vingilot.Lib.Program

/-!
# What the membership lock keeps

A transaction that holds the membership lock of a channel that is there sees its members stay as
they are, because the only writers without the lock are creations, and they write to a channel
that is not there yet.
-/

namespace Vingilot.Channels

open Transactions

abbrev ChannelTx := Tx Call Db Lock Vars Write DbError

abbrev ChannelPublic := Public Call Db Vars DbError

theorem require_ok {b : Bool} {error : DbError} : require b error = .ok () ↔ b = true := by
  unfold require
  split <;> simp_all

/-! ## Reads through writes -/

def Touches (ws : List Write) (ch : ChannelKey) : Prop := ∃ pubkey m, .member ch pubkey m ∈ ws

theorem membersOf_apply (db : Db) (w : Write) (ch : ChannelKey) (pubkey : Bytes) :
    (db.apply w).membersOf ch pubkey =
      match w with
      | .member ch' pubkey' m =>
        if (ch, pubkey) = (ch', pubkey') then some m else db.membersOf ch pubkey
      | .channel _ _ => db.membersOf ch pubkey := by
  cases w with
  | channel key row => rfl
  | member key pubkey' m => exact Table.get?_set ..

theorem membersOf_view (db : Db) (ws : List Write) (ch : ChannelKey) (pubkey : Bytes) :
    ((view store.system db ws).membersOf ch pubkey = db.membersOf ch pubkey ∧
        ∀ m, .member ch pubkey m ∉ ws) ∨
      ∃ m, .member ch pubkey m ∈ ws ∧ (view store.system db ws).membersOf ch pubkey = some m := by
  induction ws generalizing db with
  | nil => exact .inl ⟨rfl, by simp⟩
  | cons w ws ih =>
    rcases ih (Db.apply db w) with ⟨hsame, hnone⟩ | ⟨m, hmem, hread⟩
    · rw [membersOf_apply] at hsame
      cases w with
      | channel key row => exact .inl ⟨hsame, by simpa using hnone⟩
      | member key pubkey' m =>
        simp only at hsame
        split_ifs at hsame with heq
        · cases heq
          exact .inr ⟨m, List.mem_cons_self, hsame⟩
        · refine .inl ⟨hsame, ?_⟩
          intro m' hm'
          rcases List.mem_cons.mp hm' with hfirst | hrest
          · cases hfirst
            exact heq rfl
          · exact hnone m' hrest
    · exact .inr ⟨m, List.mem_cons_of_mem w hmem, hread⟩

variable {ch : ChannelKey}

theorem membersOf_untouched {db : Db} {ws : List Write} (h : ¬ Touches ws ch) (pubkey : Bytes) :
    (view store.system db ws).membersOf ch pubkey = db.membersOf ch pubkey := by
  rcases membersOf_view db ws ch pubkey with ⟨hsame, -⟩ | ⟨m, hm, -⟩
  · exact hsame
  · exact absurd ⟨pubkey, m, hm⟩ h

variable {row : Channel}

theorem channel_view {db : Db} {ws : List Write}
    (h : (view store.system db ws).channels.get? ch = some row) :
    db.channels.get? ch = some row ∨ .channel ch row ∈ ws := by
  induction ws generalizing db with
  | nil => exact .inl h
  | cons w ws ih =>
    rcases @ih (Db.apply db w) h with hold | hnew
    · cases w with
      | channel key row' =>
        simp only [Db.apply, Table.get?_set] at hold
        split_ifs at hold with hkey
        · cases hold
          rw [hkey]
          exact .inr List.mem_cons_self
        · exact .inl hold
      | member key pubkey m => exact .inl hold
    · exact .inr (List.mem_cons_of_mem w hnew)

theorem channel_spared {db : Db} {ws : List Write} (h : ∀ row, .channel ch row ∉ ws) :
    (view store.system db ws).channels.get? ch = db.channels.get? ch := by
  induction ws generalizing db with
  | nil => rfl
  | cons w ws ih =>
    refine (@ih (Db.apply db w) fun row hrow => h row (List.mem_cons_of_mem w hrow)).trans ?_
    cases w with
    | channel key row =>
      simp only [Db.apply, Table.get?_set]
      split_ifs with hkey
      · subst hkey
        exact absurd List.mem_cons_self (h row)
      · rfl
    | member key pubkey m => rfl

theorem channel_written {db : Db} {ws : List Write}
    (h : (db.channels.get? ch).isSome ∨ ∃ row, .channel ch row ∈ ws) :
    ((view store.system db ws).channels.get? ch).isSome := by
  induction ws generalizing db with
  | nil =>
    rcases h with hthere | ⟨row, hrow⟩
    · exact hthere
    · cases hrow
  | cons w ws ih =>
    refine @ih (Db.apply db w) ?_
    rcases h with hthere | ⟨row, hrow⟩
    · refine .inl ?_
      cases w with
      | channel key row =>
        simp only [Db.apply, Table.get?_set]
        split_ifs
        · rfl
        · exact hthere
      | member key pubkey m => exact hthere
    · rcases List.mem_cons.mp hrow with rfl | hrow
      · exact .inl (by simp [Db.apply])
      · exact .inr ⟨row, hrow⟩

/-! ## What a statement can do -/

inductive Effect (now : Int) (v : Vars) (db : Db) : Sql → Vars → List Write → Prop
  | checkCreation (args : CreateChannel) (idGiven : Bool) :
      Effect now v db (.checkCreation args idGiven) v []
  | insertChannel {args : CreateChannel} {idGiven : Bool}
      (hnew : db.channels.get? args.channel = none) :
      Effect now v db (.insertChannel args idGiven) { v with wasCreated := true }
        [.channel args.channel (args.row now)]
  | channelThere (args : CreateChannel) (idGiven : Bool) :
      Effect now v db (.insertChannel args idGiven) { v with wasCreated := false } []
  | insertOwner {args : CreateChannel} (hcreated : v.wasCreated = true) :
      Effect now v db (.insertOwner args) v
        [.member args.channel args.createdBy
          (upsertRow now (db.membersOf args.channel args.createdBy) .owner (some args.createdBy))]
  | noOwner {args : CreateChannel} (hkept : v.wasCreated = false) :
      Effect now v db (.insertOwner args) v []
  | readChannel (args : CreateChannel) (row : Channel) :
      Effect now v db (.readChannel args) { v with channel := some row } []
  | checkPubkey (pubkey : Bytes) : Effect now v db (.checkPubkey pubkey) v []
  | lockMembership (ch : ChannelKey) : Effect now v db (.lockMembership ch) v []
  | getChannel {args : AddMember} {row : Channel}
      (hget : db.channels.get? args.channel = some row) :
      Effect now v db (.getChannel args) { v with channel := some row } []
  | authorizeRole {args : AddMember} {row : Channel} (hchannel : v.channel = some row)
      (hok : authorizeRole args row db = .ok ()) : Effect now v db (.authorizeRole args) v []
  | currentRole (args : AddMember) :
      Effect now v db (.currentRole args)
        { v with currentRole := db.activeRole args.channel args.pubkey } []
  | authorizeChange {args : AddMember}
      (hok : ∀ r, v.currentRole = some r → r ≠ args.role →
        (args.invitedBy.bind (db.activeRole args.channel)).any MemberRole.isElevated = true) :
      Effect now v db (.authorizeChange args) v []
  | checkDemotion {args : AddMember}
      (hok : v.currentRole = some .owner → args.role ≠ .owner → 1 < db.ownerCount args.channel) :
      Effect now v db (.checkDemotion args) v []
  | upsertMember (args : AddMember) :
      Effect now v db (.upsertMember args) v
        [.member args.channel args.pubkey
          (upsertRow now (db.membersOf args.channel args.pubkey) args.role args.invitedBy)]
  | readMember (args : AddMember) (row : Member) :
      Effect now v db (.readMember args) { v with record := some row } []
  | authorizeActor (args : RemoveMember) : Effect now v db (.authorizeActor args) v []
  | targetRole (args : RemoveMember) :
      Effect now v db (.targetRole args)
        { v with currentRole := db.activeRole args.channel args.pubkey } []
  | checkLastOwner {args : RemoveMember}
      (hok : v.currentRole = some .owner → 1 < db.ownerCount args.channel) :
      Effect now v db (.checkLastOwner args) v []
  | markRemoved {args : RemoveMember} {m : Member}
      (hactive : db.activeMember args.channel args.pubkey = some m) :
      Effect now v db (.markRemoved args) v
        [.member args.channel args.pubkey
          { m with removedAt := some now, removedBy := some args.actor }]

theorem effect_of_exec {stmt : Sql} {now : Int} {v v' : Vars} {db : Db} {ws : List Write}
    (h : stmt.exec now v db = .ok (v', ws)) : Effect now v db stmt v' ws := by
  cases stmt with
  | checkCreation args idGiven =>
    obtain ⟨_, -, h⟩ := Program.exceptBind_ok.mp h
    cases h; exact .checkCreation args idGiven
  | insertChannel args idGiven =>
    simp only [Sql.exec] at h
    split at h
    · cases h; exact .insertChannel (by assumption)
    · split at h
      · cases h; exact .channelThere args _
      · cases h
  | insertOwner args =>
    simp only [Sql.exec] at h
    split at h
    · cases h; exact .insertOwner (by assumption)
    · rename_i hkept
      cases h
      exact .noOwner (by simpa using hkept)
  | readChannel args =>
    simp only [Sql.exec] at h
    split at h
    · cases h; exact .readChannel args _
    · cases h
  | checkPubkey pubkey =>
    obtain ⟨_, -, h⟩ := Program.exceptBind_ok.mp h
    cases h; exact .checkPubkey pubkey
  | lockMembership ch => cases h; exact .lockMembership ch
  | getChannel args =>
    simp only [Sql.exec] at h
    split at h
    · rename_i row hfound
      cases h
      exact .getChannel (Option.filter_eq_some_iff.mp hfound).1
    · cases h
  | authorizeRole args =>
    simp only [Sql.exec] at h
    split at h
    · obtain ⟨_, hok, h⟩ := Program.exceptBind_ok.mp h
      cases h; exact .authorizeRole (by assumption) hok
    · cases h
  | currentRole args => cases h; exact .currentRole args
  | authorizeChange args =>
    simp only [Sql.exec] at h
    split at h
    · obtain ⟨_, hok, h⟩ := Program.exceptBind_ok.mp h
      cases h
      exact .authorizeChange fun _ _ _ => require_ok.mp hok
    · rename_i hsame
      cases h
      refine .authorizeChange ?_
      intro r hr hne
      rw [hr] at hsame
      simp [hne] at hsame
  | checkDemotion args =>
    simp only [Sql.exec] at h
    split at h
    · obtain ⟨_, hok, h⟩ := Program.exceptBind_ok.mp h
      cases h
      exact .checkDemotion fun _ _ => by simpa using require_ok.mp hok
    · rename_i hnot
      cases h
      exact .checkDemotion fun hrole hne => absurd ⟨hrole, hne⟩ hnot
  | upsertMember args => cases h; exact .upsertMember args
  | readMember args =>
    simp only [Sql.exec] at h
    split at h
    · cases h; exact .readMember args _
    · cases h
  | authorizeActor args =>
    obtain ⟨_, -, h⟩ := Program.exceptBind_ok.mp h
    cases h; exact .authorizeActor args
  | targetRole args => cases h; exact .targetRole args
  | checkLastOwner args =>
    simp only [Sql.exec] at h
    split at h
    · obtain ⟨_, hok, h⟩ := Program.exceptBind_ok.mp h
      cases h
      exact .checkLastOwner fun _ => by simpa using require_ok.mp hok
    · rename_i hnot
      cases h
      exact .checkLastOwner fun hrole => absurd hrole hnot
  | markRemoved args =>
    simp only [Sql.exec] at h
    split at h
    · cases h; exact .markRemoved (by assumption)
    · cases h

theorem disciplined : store.Disciplined := by
  intro stmt now v db v' ws h w hw
  show (w.lock, Mode.exclusive) ∈ stmt.locks now v db
  cases effect_of_exec h with
  | insertChannel hnew =>
    rw [List.mem_singleton.mp hw]
    simp [Sql.locks, Write.lock]
  | insertOwner hcreated =>
    rw [List.mem_singleton.mp hw]
    simp [Sql.locks, Write.lock, hcreated]
  | upsertMember args =>
    rw [List.mem_singleton.mp hw]
    simp [Sql.locks, Write.lock]
  | markRemoved hactive =>
    rw [List.mem_singleton.mp hw]
    simp [Sql.locks, Write.lock, hactive]
  | _ => exact absurd hw List.not_mem_nil

/-! ## What an open transaction knows -/

/-- The transaction holds the membership lock of a channel that exists. -/
def Guarded (db : Db) (t : ChannelTx) (ch : ChannelKey) : Prop :=
  (.membership ch, .exclusive) ∈ t.held ∧ (db.channels.get? ch).isSome

def Creating (db : Db) (t : ChannelTx) (ch : ChannelKey) : Prop :=
  (.channelRow ch, .exclusive) ∈ t.held ∧ db.channels.get? ch = none ∧
    ∃ row, .channel ch row ∈ t.writes

def InviterElevated (db : Db) (args : AddMember) : Prop :=
  ∃ inviter role, args.invitedBy = some inviter ∧
    db.activeRole args.channel inviter = some role ∧ role.isElevated = true

def CreatorAddsSelf (args : AddMember) (row : Channel) : Prop :=
  row.visibility = .private_ ∧ args.invitedBy = some args.pubkey ∧ args.pubkey = row.createdBy

def OtherOwner (db : Db) (ch : ChannelKey) (pubkey : Bytes) : Prop :=
  ∃ other, other ≠ pubkey ∧ db.activeRole ch other = some .owner

/-- What is still so of the committed rows, for each statement that the transaction has taken. -/
def Known (db : Db) (t : ChannelTx) : Sql → Prop
  | .lockMembership ch => (.membership ch, .exclusive) ∈ t.held
  | .insertChannel args _ => t.vars.wasCreated = true → Creating db t args.channel
  | .getChannel args => Guarded db t args.channel ∧
    ∃ row, t.vars.channel = some row ∧ db.channels.get? args.channel = some row
  | .authorizeRole args => Guarded db t args.channel ∧
    ∃ row, db.channels.get? args.channel = some row ∧
      (args.role.isElevated = false ∨ InviterElevated db args ∨ CreatorAddsSelf args row)
  | .currentRole args => Guarded db t args.channel ∧
    t.vars.currentRole = db.activeRole args.channel args.pubkey
  | .authorizeChange args => Guarded db t args.channel ∧
    ∀ r, db.activeRole args.channel args.pubkey = some r → r ≠ args.role → InviterElevated db args
  | .checkDemotion args => Guarded db t args.channel ∧
    (db.activeRole args.channel args.pubkey = some .owner → args.role ≠ .owner →
      OtherOwner db args.channel args.pubkey)
  | _ => True

def Sql.writer : Sql → Bool
  | insertChannel _ _ | insertOwner _ | upsertMember _ | markRemoved _ => true
  | _ => false

def Silent (done : List Sql) : Prop := ∀ stmt ∈ done, stmt.writer = false

/-- The order of the statements in every call. -/
def Needs (done : List Sql) : Sql → Prop
  | .insertChannel _ _ => Silent done
  | .insertOwner args => (∃ idGiven, .insertChannel args idGiven ∈ done)
  | .readChannel _ => ∀ args, .getChannel args ∉ done
  | .getChannel args => .lockMembership args.channel ∈ done ∧ Silent done ∧
    ∀ args', .getChannel args' ∉ done
  | .authorizeRole args => .getChannel args ∈ done ∧ Silent done
  | .currentRole args => .getChannel args ∈ done ∧ Silent done ∧
    (∀ args', .currentRole args' ∉ done) ∧ ∀ args', .targetRole args' ∉ done
  | .authorizeChange args => .getChannel args ∈ done ∧ .currentRole args ∈ done ∧ Silent done
  | .checkDemotion args => .getChannel args ∈ done ∧ .currentRole args ∈ done ∧ Silent done
  | .upsertMember args => .lockMembership args.channel ∈ done ∧ .getChannel args ∈ done ∧
    .authorizeRole args ∈ done ∧ .authorizeChange args ∈ done ∧ .checkDemotion args ∈ done ∧
      Silent done
  | .targetRole args => .lockMembership args.channel ∈ done ∧ Silent done ∧
    (∀ args', .currentRole args' ∉ done) ∧ ∀ args', .targetRole args' ∉ done
  | .checkLastOwner args => .targetRole args ∈ done ∧ Silent done
  | .markRemoved args => .lockMembership args.channel ∈ done ∧ .targetRole args ∈ done ∧
    .checkLastOwner args ∈ done ∧ Silent done
  | _ => True

theorem plan_ordered (call : Call) : Ordered Needs [] call.plan := by
  cases call <;> simp [Call.plan, creationPlan, Ordered, Needs, Silent, Sql.writer]

/-- Where a membership row that the transaction has written comes from. -/
inductive Origin (db : Db) (done : List Sql) (t : ChannelTx) : ChannelKey → Bytes → Member → Prop
  | created {args : CreateChannel} {m : Member} (hdone : .insertOwner args ∈ done)
      (hcreating : Creating db t args.channel) (hrole : m.role = .owner)
      (hactive : m.removedAt = none) : Origin db done t args.channel args.createdBy m
  | added {args : AddMember} {m : Member} (hdone : .upsertMember args ∈ done)
      (hguarded : Guarded db t args.channel) (hrole : m.role = args.role)
      (hactive : m.removedAt = none) : Origin db done t args.channel args.pubkey m
  | removed {args : RemoveMember} {m : Member} (hdone : .markRemoved args ∈ done)
      (hguarded : Guarded db t args.channel) (hremoved : m.removedAt.isSome = true) :
      Origin db done t args.channel args.pubkey m

structure Own (db : Db) (done : List Sql) (t : ChannelTx) : Prop where
  known : ∀ stmt ∈ done, Known db t stmt
  members : ∀ ch pubkey m, .member ch pubkey m ∈ t.writes → Origin db done t ch pubkey m
  channels : ∀ ch row, .channel ch row ∈ t.writes →
    Creating db t ch ∧ ∃ args idGiven, .insertChannel args idGiven ∈ done ∧ args.channel = ch ∧
      t.vars.wasCreated = true
  silent : Silent done → t.writes = []
  added : ∀ args, .upsertMember args ∈ done →
    ∃ m, .member args.channel args.pubkey m ∈ t.writes

def Linked (db : Db) : Prop :=
  ∀ ch pubkey m, db.membersOf ch pubkey = some m → (db.channels.get? ch).isSome

/-! ## Commits of others -/

variable {args : AddMember} {pubkey : Bytes} {m : Member}

section Commit

variable {db : Db} {done done' : List Sql} {t u : ChannelTx}

theorem Own.touches (h : Own db done t) (ht : Touches t.writes ch) :
    Guarded db t ch ∨ Creating db t ch := by
  obtain ⟨pubkey, m, hm⟩ := ht
  cases h.members ch pubkey m hm with
  | created hdone hcreating => exact .inr hcreating
  | added hdone hguarded => exact .inl hguarded
  | removed hdone hguarded => exact .inl hguarded

theorem not_touches (ht : Own db done t) (hfit : conflict t.held u.held = false)
    (hu : Guarded db u ch ∨ Creating db u ch) : ¬ Touches t.writes ch := by
  intro htouches
  rcases ht.touches htouches with ⟨hlock, hthere⟩ | ⟨hlock, hnone, -⟩
  · rcases hu with ⟨hlock', -⟩ | ⟨-, hnone, -⟩
    · exact not_exclusive_of_held hfit hlock' hlock
    · rw [hnone] at hthere
      cases hthere
  · rcases hu with ⟨-, hthere⟩ | ⟨hlock', -, -⟩
    · rw [hnone] at hthere
      cases hthere
    · exact not_exclusive_of_held hfit hlock' hlock

theorem members_commit (ht : Own db done t) (hfit : conflict t.held u.held = false)
    (hu : Guarded db u ch ∨ Creating db u ch) (pubkey : Bytes) :
    (store.seen db t).membersOf ch pubkey = db.membersOf ch pubkey :=
  membersOf_untouched (not_touches ht hfit hu) pubkey

theorem channel_commit (ht : Own db done t) (h : db.channels.get? ch = some row) :
    (store.seen db t).channels.get? ch = some row := by
  rw [← h]
  refine channel_spared ?_
  intro row' hrow'
  obtain ⟨⟨-, hnone, -⟩, -⟩ := ht.channels ch row' hrow'
  rw [h] at hnone
  cases hnone

theorem guarded_commit (ht : Own db done t) (h : Guarded db u ch) :
    Guarded (store.seen db t) u ch := by
  obtain ⟨row, hrow⟩ := Option.isSome_iff_exists.mp h.2
  exact ⟨h.1, by rw [channel_commit ht hrow]; rfl⟩

theorem creating_commit (ht : Own db done t) (hfit : conflict t.held u.held = false)
    (h : Creating db u ch) : Creating (store.seen db t) u ch := by
  obtain ⟨hlock, hnone, hwrite⟩ := h
  refine ⟨hlock, ?_, hwrite⟩
  rw [← hnone]
  refine channel_spared ?_
  intro row hrow
  obtain ⟨⟨hlock', -⟩, -⟩ := ht.channels ch row hrow
  exact not_exclusive_of_held hfit hlock hlock'

theorem activeRole_commit (ht : Own db done t) (hfit : conflict t.held u.held = false)
    (hu : Guarded db u ch) (pubkey : Bytes) :
    (store.seen db t).activeRole ch pubkey = db.activeRole ch pubkey := by
  unfold Db.activeRole
  rw [members_commit ht hfit (.inl hu)]

theorem inviterElevated_commit (ht : Own db done t) (hfit : conflict t.held u.held = false)
    (hu : Guarded db u args.channel) (h : InviterElevated db args) :
    InviterElevated (store.seen db t) args := by
  obtain ⟨inviter, role, hinviter, hrole, helevated⟩ := h
  exact ⟨inviter, role, hinviter, by rw [activeRole_commit ht hfit hu]; exact hrole, helevated⟩

theorem otherOwner_commit (ht : Own db done t) (hfit : conflict t.held u.held = false)
    (hu : Guarded db u ch) (h : OtherOwner db ch pubkey) :
    OtherOwner (store.seen db t) ch pubkey := by
  obtain ⟨other, hne, hrole⟩ := h
  exact ⟨other, hne, by rw [activeRole_commit ht hfit hu]; exact hrole⟩

theorem known_commit (ht : Own db done t) (hfit : conflict t.held u.held = false) {stmt : Sql}
    (h : Known db u stmt) : Known (store.seen db t) u stmt := by
  cases stmt with
  | insertChannel args idGiven => exact fun hcreated => creating_commit ht hfit (h hcreated)
  | getChannel args =>
    obtain ⟨hguarded, row, hvar, hrow⟩ := h
    exact ⟨guarded_commit ht hguarded, row, hvar, channel_commit ht hrow⟩
  | authorizeRole args =>
    obtain ⟨hguarded, row, hrow, hgrant⟩ := h
    refine ⟨guarded_commit ht hguarded, row, channel_commit ht hrow, ?_⟩
    rcases hgrant with hplain | hinviter | hcreator
    · exact .inl hplain
    · exact .inr (.inl (inviterElevated_commit ht hfit hguarded hinviter))
    · exact .inr (.inr hcreator)
  | currentRole args =>
    obtain ⟨hguarded, hrole⟩ := h
    exact ⟨guarded_commit ht hguarded, by rw [activeRole_commit ht hfit hguarded]; exact hrole⟩
  | authorizeChange args =>
    obtain ⟨hguarded, hchange⟩ := h
    refine ⟨guarded_commit ht hguarded, ?_⟩
    rw [activeRole_commit ht hfit hguarded]
    exact fun r hr hne => inviterElevated_commit ht hfit hguarded (hchange r hr hne)
  | checkDemotion args =>
    obtain ⟨hguarded, hother⟩ := h
    refine ⟨guarded_commit ht hguarded, ?_⟩
    rw [activeRole_commit ht hfit hguarded]
    exact fun howner hne => otherOwner_commit ht hfit hguarded (hother howner hne)
  | _ => exact h

theorem origin_commit (ht : Own db done t) (hfit : conflict t.held u.held = false)
    (h : Origin db done' u ch pubkey m) : Origin (store.seen db t) done' u ch pubkey m := by
  cases h with
  | created hdone hcreating hrole hactive =>
    exact .created hdone (creating_commit ht hfit hcreating) hrole hactive
  | added hdone hguarded hrole hactive =>
    exact .added hdone (guarded_commit ht hguarded) hrole hactive
  | removed hdone hguarded hremoved => exact .removed hdone (guarded_commit ht hguarded) hremoved

theorem own_commit (ht : Own db done t) (hu : Own db done' u)
    (hfit : conflict t.held u.held = false) : Own (store.seen db t) done' u where
  known stmt hstmt := known_commit ht hfit (hu.known stmt hstmt)
  members ch pubkey m hm := origin_commit ht hfit (hu.members ch pubkey m hm)
  channels ch row hrow := by
    obtain ⟨hcreating, hargs⟩ := hu.channels ch row hrow
    exact ⟨creating_commit ht hfit hcreating, hargs⟩
  silent := hu.silent
  added := hu.added

end Commit

/-! ## The transaction's own statements -/

variable {seen : Db}

section Exec

variable {db : Db} {done : List Sql} {t : ChannelTx} {stmt : Sql} {v' : Vars} {ws : List Write}
  {rest : List (Statement Db Lock Vars Write DbError)} {locks : List (Lock × Mode)}

theorem Guarded.after (h : Guarded db t ch) : Guarded db (t.after rest locks v' ws) ch :=
  ⟨List.mem_append_left _ h.1, h.2⟩

theorem Creating.after (h : Creating db t ch) : Creating db (t.after rest locks v' ws) ch := by
  obtain ⟨hlock, hnone, row, hrow⟩ := h
  exact ⟨List.mem_append_left _ hlock, hnone, row, List.mem_append_left _ hrow⟩

theorem known_old (heffect : Effect t.now t.vars seen stmt v' ws) (hneeds : Needs done stmt)
    {k : Sql} (hk : k ∈ done) (h : Known db t k) : Known db (t.after rest locks v' ws) k := by
  cases k with
  | lockMembership ch => exact List.mem_append_left _ h
  | insertChannel args idGiven =>
    intro hcreated
    refine Creating.after (h ?_)
    cases heffect with
    | insertChannel hnew => exact absurd (hneeds _ hk) (by simp [Sql.writer])
    | channelThere args' idGiven' => cases hcreated
    | _ => exact hcreated
  | getChannel args =>
    obtain ⟨hguarded, row, hvar, hrow⟩ := h
    refine ⟨hguarded.after, row, ?_, hrow⟩
    cases heffect with
    | readChannel args' row' => exact absurd hk (hneeds args)
    | getChannel hget => exact absurd hk (hneeds.2.2 args)
    | _ => exact hvar
  | authorizeRole args => exact ⟨h.1.after, h.2⟩
  | currentRole args =>
    obtain ⟨hguarded, hvar⟩ := h
    refine ⟨hguarded.after, ?_⟩
    cases heffect with
    | currentRole args' => exact absurd hk (hneeds.2.2.1 args)
    | targetRole args' => exact absurd hk (hneeds.2.2.1 args)
    | _ => exact hvar
  | authorizeChange args => exact ⟨h.1.after, h.2⟩
  | checkDemotion args => exact ⟨h.1.after, h.2⟩
  | _ => trivial

/-- A transaction that has written nothing reads the committed rows. -/
theorem seen_of_silent (hown : Own db done t) (h : Silent done) : store.seen db t = db := by
  unfold Planned.seen
  rw [hown.silent h]
  rfl

theorem otherOwner_of_count (pubkey : Bytes) (h : 1 < db.ownerCount ch) :
    OtherOwner db ch pubkey := by
  obtain ⟨key, m, hget, hp, hne⟩ := Table.exists_other_of_one_lt db.members _ (ch, pubkey) h
  simp only [Bool.and_eq_true, beq_iff_eq, Option.isNone_iff_eq_none] at hp
  obtain ⟨⟨hch, hrole⟩, hactive⟩ := hp
  refine ⟨key.2, ?_, ?_⟩
  · intro heq
    exact hne (Prod.ext hch heq)
  · unfold Db.activeRole Db.membersOf
    rw [← hch, hget]
    simp [hactive, hrole]

theorem inviterElevated_of_any
    (h : (args.invitedBy.bind (db.activeRole args.channel)).any MemberRole.isElevated = true) :
    InviterElevated db args := by
  rw [Option.any_eq_true] at h
  obtain ⟨role, hrole, helevated⟩ := h
  obtain ⟨inviter, hinviter, hrole⟩ := Option.bind_eq_some_iff.mp hrole
  exact ⟨inviter, role, hinviter, hrole, helevated⟩

theorem grants_of_authorizeRole (h : authorizeRole args row db = .ok ()) :
    args.role.isElevated = false ∨ InviterElevated db args ∨ CreatorAddsSelf args row := by
  by_cases helevated : args.role.isElevated = true
  · refine .inr ?_
    unfold authorizeRole at h
    split at h
    · rename_i hprivate
      split at h
      · cases h
      · rename_i inviter hinviter
        split at h
        · rename_i hcreator
          obtain ⟨rfl, hcreated⟩ := hcreator
          exact .inr ⟨hprivate, hinviter, hcreated⟩
        · split at h
          · cases h
          · rename_i role hrole
            have hgrant := require_ok.mp h
            rw [helevated] at hgrant
            exact .inl ⟨inviter, role, hinviter, hrole, by simpa using hgrant⟩
    · exact .inl (inviterElevated_of_any (require_ok.mp h))
  · exact .inl (by simpa using helevated)

theorem known_new (hown : Own db done t) (hneeds : Needs done stmt)
    (heffect : Effect t.now t.vars (store.seen db t) stmt v' ws) :
    Known db (t.after rest (stmt.locks t.now t.vars (store.seen db t)) v' ws) stmt := by
  cases heffect with
  | insertChannel hnew =>
    intro _
    rw [seen_of_silent hown hneeds] at hnew
    exact ⟨List.mem_append_right _ (by simp [Sql.locks]), hnew, _,
      List.mem_append_right _ List.mem_cons_self⟩
  | channelThere args idGiven => intro hcreated; cases hcreated
  | lockMembership ch => exact List.mem_append_right _ (by simp [Sql.locks])
  | getChannel hget =>
    rw [seen_of_silent hown hneeds.2.1] at hget
    exact ⟨⟨List.mem_append_left _ (hown.known _ hneeds.1), by simp [hget]⟩, _, rfl, hget⟩
  | authorizeRole hchannel hok =>
    obtain ⟨hguarded, row, hvar, hrow⟩ := hown.known _ hneeds.1
    rw [hvar] at hchannel
    cases hchannel
    rw [seen_of_silent hown hneeds.2] at hok
    exact ⟨hguarded.after, _, hrow, grants_of_authorizeRole hok⟩
  | currentRole args =>
    obtain ⟨hguarded, -⟩ := hown.known _ hneeds.1
    rw [seen_of_silent hown hneeds.2.1]
    exact ⟨hguarded.after, rfl⟩
  | authorizeChange hok =>
    obtain ⟨hguarded, hvar⟩ := hown.known _ hneeds.2.1
    rw [seen_of_silent hown hneeds.2.2] at hok
    refine ⟨hguarded.after, ?_⟩
    intro r hr hne
    exact inviterElevated_of_any (hok r (hvar.trans hr) hne)
  | checkDemotion hok =>
    obtain ⟨hguarded, hvar⟩ := hown.known _ hneeds.2.1
    rw [seen_of_silent hown hneeds.2.2] at hok
    refine ⟨hguarded.after, ?_⟩
    intro howner hne
    exact otherOwner_of_count _ (hok (hvar.trans howner) hne)
  | _ => trivial

theorem Origin.after (h : Origin db done t ch pubkey m) :
    Origin db (done ++ [stmt]) (t.after rest locks v' ws) ch pubkey m := by
  cases h with
  | created hdone hcreating hrole hactive =>
    exact .created (List.mem_append_left _ hdone) hcreating.after hrole hactive
  | added hdone hguarded hrole hactive =>
    exact .added (List.mem_append_left _ hdone) hguarded.after hrole hactive
  | removed hdone hguarded hremoved =>
    exact .removed (List.mem_append_left _ hdone) hguarded.after hremoved

@[simp]
theorem upsertRow_role (now : Int) (old : Option Member) (role : MemberRole)
    (invitedBy : Option Bytes) : (upsertRow now old role invitedBy).role = role := by
  cases old <;> rfl

@[simp]
theorem upsertRow_removedAt (now : Int) (old : Option Member) (role : MemberRole)
    (invitedBy : Option Bytes) : (upsertRow now old role invitedBy).removedAt = none := by
  cases old <;> rfl

theorem origin_new (hlinked : Linked db) (hown : Own db done t) (hneeds : Needs done stmt)
    (heffect : Effect t.now t.vars (store.seen db t) stmt v' ws) (hm : .member ch pubkey m ∈ ws) :
    Origin db (done ++ [stmt]) (t.after rest locks v' ws) ch pubkey m := by
  cases heffect with
  | insertOwner hcreated =>
    cases List.mem_singleton.mp hm
    obtain ⟨idGiven, hdone⟩ := hneeds
    exact .created (List.mem_append_right _ List.mem_cons_self)
      (Creating.after (hown.known _ hdone hcreated)) (by simp) (by simp)
  | upsertMember args =>
    cases List.mem_singleton.mp hm
    exact .added (List.mem_append_right _ List.mem_cons_self) (hown.known _ hneeds.2.1).1.after
      (by simp) (by simp)
  | markRemoved hactive =>
    cases List.mem_singleton.mp hm
    rw [seen_of_silent hown hneeds.2.2.2] at hactive
    have hthere := hlinked _ _ _ (Option.filter_eq_some_iff.mp hactive).1
    exact .removed (List.mem_append_right _ List.mem_cons_self)
      (Guarded.after ⟨hown.known _ hneeds.1, hthere⟩) rfl
  | insertChannel hnew => simp at hm
  | _ => exact absurd hm List.not_mem_nil

theorem wasCreated_kept (heffect : Effect t.now t.vars seen stmt v' ws) (hneeds : Needs done stmt)
    {args : CreateChannel} {idGiven : Bool} (hdone : .insertChannel args idGiven ∈ done) :
    v'.wasCreated = t.vars.wasCreated := by
  cases heffect with
  | insertChannel hnew => exact absurd (hneeds _ hdone) (by simp [Sql.writer])
  | channelThere args' idGiven' => exact absurd (hneeds _ hdone) (by simp [Sql.writer])
  | _ => rfl

theorem channel_new (heffect : Effect t.now t.vars seen stmt v' ws) (hrow : .channel ch row ∈ ws) :
    ∃ args idGiven, stmt = .insertChannel args idGiven ∧ args.channel = ch ∧
      v'.wasCreated = true := by
  cases heffect with
  | insertChannel hfree =>
    cases List.mem_singleton.mp hrow
    exact ⟨_, _, rfl, rfl, rfl⟩
  | insertOwner hcreated => simp at hrow
  | upsertMember args => simp at hrow
  | markRemoved hactive => simp at hrow
  | _ => exact absurd hrow List.not_mem_nil

theorem silent_effect (heffect : Effect t.now t.vars seen stmt v' ws) (h : stmt.writer = false) :
    ws = [] := by
  cases heffect <;> first | rfl | cases h

theorem own_exec (hlinked : Linked db) (hown : Own db done t) (hneeds : Needs done stmt)
    (heffect : Effect t.now t.vars (store.seen db t) stmt v' ws) :
    Own db (done ++ [stmt])
      (t.after rest (stmt.locks t.now t.vars (store.seen db t)) v' ws) where
  known k hk := by
    rcases List.mem_append.mp hk with hk | hk
    · exact known_old heffect hneeds hk (hown.known k hk)
    · rw [List.mem_singleton.mp hk]
      exact known_new hown hneeds heffect
  members ch pubkey m hm := by
    rcases List.mem_append.mp hm with hm | hm
    · exact (hown.members ch pubkey m hm).after
    · exact origin_new hlinked hown hneeds heffect hm
  channels ch row hrow := by
    rcases List.mem_append.mp hrow with hrow | hrow
    · obtain ⟨hcreating, args, idGiven, hdone, rfl, hcreated⟩ := hown.channels ch row hrow
      refine ⟨hcreating.after, args, idGiven, List.mem_append_left _ hdone, rfl, ?_⟩
      exact (wasCreated_kept heffect hneeds hdone).trans hcreated
    · have hnew : Known db (t.after rest _ v' ws) stmt := known_new hown hneeds heffect
      obtain ⟨args, idGiven, rfl, rfl, hcreated⟩ := channel_new heffect hrow
      exact ⟨hnew hcreated, args, idGiven, List.mem_append_right _ List.mem_cons_self, rfl,
        hcreated⟩
  silent h := by
    have hdone : Silent done := fun k hk => h k (List.mem_append_left _ hk)
    have hws := silent_effect heffect (h stmt (List.mem_append_right _ List.mem_cons_self))
    rw [Tx.after_writes, hown.silent hdone, hws]
    rfl
  added args hargs := by
    rcases List.mem_append.mp hargs with hargs | hargs
    · obtain ⟨m, hm⟩ := hown.added args hargs
      exact ⟨m, List.mem_append_left _ hm⟩
    · cases List.mem_singleton.mp hargs
      cases heffect with
      | upsertMember _ => exact ⟨_, List.mem_append_right _ List.mem_cons_self⟩

end Exec

/-! ## The rule -/

theorem linked_commit {db : Db} {done : List Sql} {t : ChannelTx} (hlinked : Linked db)
    (hown : Own db done t) : Linked (store.seen db t) := by
  intro ch pubkey m hm
  refine channel_written ?_
  rcases membersOf_view db t.writes ch pubkey with ⟨hsame, -⟩ | ⟨m', hm', -⟩
  · exact .inl (hlinked ch pubkey m (hsame.symm.trans hm))
  · rcases hown.touches ⟨pubkey, m', hm'⟩ with hguarded | hcreating
    · exact .inl hguarded.2
    · exact .inr hcreating.2.2

theorem membership_rule :
    PlanRule store .any (fun _ => True) (fun _ _ _ => True) (fun p => Linked p.db) Own where
  advance _ _ h := h
  refuse _ _ _ h := h
  begin p call _ :=
    ⟨fun _ h => absurd h List.not_mem_nil, fun _ _ _ h => absurd h List.not_mem_nil,
      fun _ _ h => absurd h List.not_mem_nil, fun _ => rfl, fun _ h => absurd h List.not_mem_nil⟩
  exec p done k todo t vars ws _ hlinked _ hown hplan _ hexec :=
    own_exec hlinked hown
      (needs_of_ordered (by rw [← hplan]; exact plan_ordered t.call)) (effect_of_exec hexec)
  commit p t _ hlinked _ hown _ _ _ := linked_commit hlinked hown
  ownCommit p t u done _ _ _ ht _ hu _ _ hfit _ := own_commit ht hu hfit

end Vingilot.Channels
