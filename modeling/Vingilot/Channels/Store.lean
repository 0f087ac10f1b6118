import Vingilot.Core
import Vingilot.Lib.Chars
import Vingilot.Lib.Plans

/-!
# Channels and their members (`buzz-db/src/channel.rs`)

`create_channel`, `create_channel_with_id`, `add_member` and `remove_member` as transactions. The
last two take the membership lock of the channel first. The other two take no such lock. Times
are in microseconds.
-/

namespace Vingilot.Channels

open Transactions

/-! ## Rows -/

abbrev Bytes := List UInt8

inductive ChannelType where
  | stream
  | forum
  | dm
  | workflow
deriving DecidableEq

inductive ChannelVisibility where
  | open_
  | private_
deriving DecidableEq

inductive MemberRole where
  | owner
  | admin
  | member
  | guest
  | bot
deriving DecidableEq

/-- Elevated roles that only existing owners/admins may grant. -/
def MemberRole.isElevated : MemberRole → Bool
  | owner | admin => true
  | member | guest | bot => false

/-- A row of `channels`, as far as a creation fills it in. -/
structure Channel where
  name : String
  channelType : ChannelType
  visibility : ChannelVisibility
  description : Option String
  createdBy : Bytes
  ttlSeconds : Option Int
  ttlDeadline : Option Int
  deletedAt : Option Int
deriving DecidableEq

structure Member where
  role : MemberRole
  joinedAt : Int
  invitedBy : Option Bytes
  removedAt : Option Int
  removedBy : Option Bytes
deriving DecidableEq

abbrev ChannelKey := CommunityId × Uuid

structure Db where
  channels : Table ChannelKey Channel
  members : Table (ChannelKey × Bytes) Member

def Db.membersOf (db : Db) (ch : ChannelKey) (pubkey : Bytes) : Option Member :=
  db.members.get? (ch, pubkey)

/-- `get_active_role_tx`. -/
def Db.activeRole (db : Db) (ch : ChannelKey) (pubkey : Bytes) : Option MemberRole :=
  ((db.membersOf ch pubkey).filter fun m => m.removedAt.isNone).map Member.role

/-- `SELECT COUNT(*) .. role = 'owner' AND removed_at IS NULL`. -/
def Db.ownerCount (db : Db) (ch : ChannelKey) : Nat :=
  (db.members.toList.filter fun (key, m) =>
    key.1 == ch && m.role == .owner && m.removedAt.isNone).length

/-! ## Calls -/

structure CreateChannel where
  channel : ChannelKey
  name : String
  channelType : ChannelType
  visibility : ChannelVisibility
  description : Option String
  createdBy : Bytes
  ttlSeconds : Option Int
deriving DecidableEq

structure AddMember where
  channel : ChannelKey
  pubkey : Bytes
  role : MemberRole
  invitedBy : Option Bytes
deriving DecidableEq

structure RemoveMember where
  channel : ChannelKey
  pubkey : Bytes
  actor : Bytes
  /-- The answer of `is_agent_owner`, which is asked before the transaction opens. -/
  actorIsAgentOwner : Bool
deriving DecidableEq

/-- The id that `create_channel` picks at random is an argument. -/
inductive Call where
  | createChannel (args : CreateChannel)
  | createChannelWithId (args : CreateChannel)
  | addMember (args : AddMember)
  | removeMember (args : RemoveMember)
deriving DecidableEq

inductive DbError where
  | invalidData (text : String)
  | accessDenied (text : String)
  | channelNotFound (id : Uuid)
  | memberNotFound (id : Uuid)
  | sqlx (text : String)

structure Vars where
  wasCreated : Bool
  channel : Option Channel
  currentRole : Option MemberRole
  record : Option Member

def Vars.init : Vars := ⟨false, none, none, none⟩

inductive Write where
  | channel (key : ChannelKey) (row : Channel)
  | member (key : ChannelKey) (pubkey : Bytes) (row : Member)
deriving DecidableEq

inductive Lock where
  /-- The advisory key `buzz_channel_membership:`. -/
  | membership (key : ChannelKey)
  | channelRow (key : ChannelKey)
  | memberRow (key : ChannelKey) (pubkey : Bytes)
deriving DecidableEq

def Write.lock : Write → Lock
  | channel key _ => .channelRow key
  | member key pubkey _ => .memberRow key pubkey

def Db.apply (db : Db) : Write → Db
  | .channel key row => { db with channels := db.channels.set key row }
  | .member key pubkey row => { db with members := db.members.set (key, pubkey) row }

/-! ## Statements -/

inductive Sql where
  | checkCreation (args : CreateChannel) (idGiven : Bool)
  | insertChannel (args : CreateChannel) (idGiven : Bool)
  | insertOwner (args : CreateChannel)
  | readChannel (args : CreateChannel)
  | checkPubkey (pubkey : Bytes)
  /-- `acquire_channel_membership_lock`. -/
  | lockMembership (channel : ChannelKey)
  /-- `get_channel_tx`. -/
  | getChannel (args : AddMember)
  | authorizeRole (args : AddMember)
  | currentRole (args : AddMember)
  | authorizeChange (args : AddMember)
  | checkDemotion (args : AddMember)
  | upsertMember (args : AddMember)
  | readMember (args : AddMember)
  | authorizeActor (args : RemoveMember)
  | targetRole (args : RemoveMember)
  | checkLastOwner (args : RemoveMember)
  | markRemoved (args : RemoveMember)

def require (b : Bool) (error : DbError) : Except DbError Unit :=
  if b then .ok () else .error error

def checkLength (pubkey : Bytes) : Except DbError Unit :=
  require (pubkey.length == 32) (.invalidData s!"pubkey must be 32 bytes, got {pubkey.length}")

/-- `canonical_channel_name`: without hash signs and spaces before it and spaces after it. -/
def canonicalChannelName (name : String) : String :=
  let start := name.toList.dropWhile fun c => c == '#' || Text.isWhitespace c
  String.ofList (start.reverse.dropWhile Text.isWhitespace).reverse

def checkCreation (args : CreateChannel) (idGiven : Bool) : Except DbError Unit := do
  checkLength args.createdBy
  require (!idGiven || args.channel.2 != 0)
    (.invalidData "channel_id must not be nil (reserved for global fan-out)")
  require (!(Text.trim (canonicalChannelName args.name).toList).isEmpty)
    (.invalidData "channel name is required")

def CreateChannel.row (args : CreateChannel) (now : Int) : Channel :=
  { name := canonicalChannelName args.name, channelType := args.channelType,
    visibility := args.visibility, description := args.description, createdBy := args.createdBy,
    ttlSeconds := args.ttlSeconds,
    ttlDeadline := args.ttlSeconds.map fun ttl => now + ttl * 1000000, deletedAt := none }

/-- The row that `INSERT .. ON CONFLICT DO UPDATE` leaves: a row that is there keeps who invited
it and when it joined. -/
def upsertRow (now : Int) (old : Option Member) (role : MemberRole) (invitedBy : Option Bytes) :
    Member :=
  match old with
  | some m => { m with role, removedAt := none, removedBy := none }
  | none => ⟨role, now, invitedBy, none, none⟩

/-- The role check of `add_member`, which lets the requested role through unchanged. -/
def authorizeRole (args : AddMember) (channel : Channel) (db : Db) : Except DbError Unit :=
  if channel.visibility = .private_ then
    match args.invitedBy with
    | none => .error (.accessDenied "private channel requires an invite")
    | some inviter =>
      if inviter = args.pubkey ∧ inviter = channel.createdBy then .ok ()
      else
        match db.activeRole args.channel inviter with
        | none => .error (.accessDenied "inviter is not an active member")
        | some inviterRole =>
          require (!args.role.isElevated || inviterRole.isElevated)
            (.accessDenied "only owners/admins may grant elevated roles")
  else if args.role.isElevated then
    require ((args.invitedBy.bind (db.activeRole args.channel)).any MemberRole.isElevated)
      (.accessDenied "only owners/admins may grant elevated roles")
  else .ok ()

def authorizeActor (args : RemoveMember) (db : Db) : Except DbError Unit :=
  if args.pubkey = args.actor then .ok ()
  else
    match db.activeRole args.channel args.actor with
    | none => .error (.accessDenied "actor is not an active member")
    | some actorRole =>
      require (actorRole.isElevated || args.actorIsAgentOwner)
        (.accessDenied "only owners/admins or the agent's owner may remove other members")

def duplicateKey : DbError := .sqlx "duplicate key value violates unique constraint"

def Db.activeMember (db : Db) (ch : ChannelKey) (pubkey : Bytes) : Option Member :=
  (db.membersOf ch pubkey).filter fun m => m.removedAt.isNone

def Sql.locks (stmt : Sql) (_now : Int) (v : Vars) (db : Db) : List (Lock × Mode) :=
  match stmt with
  | insertChannel args _ => [(.channelRow args.channel, .exclusive)]
  | insertOwner args =>
    if v.wasCreated then [(.memberRow args.channel args.createdBy, .exclusive)] else []
  | lockMembership channel => [(.membership channel, .exclusive)]
  | upsertMember args => [(.memberRow args.channel args.pubkey, .exclusive)]
  | markRemoved args =>
    if (db.activeMember args.channel args.pubkey).isSome then
      [(.memberRow args.channel args.pubkey, .exclusive)]
    else []
  | _ => []

def Sql.exec (stmt : Sql) (now : Int) (v : Vars) (db : Db) : Except DbError (Vars × List Write) :=
  match stmt with
  | checkCreation args idGiven => do
    Channels.checkCreation args idGiven
    return (v, [])
  | insertChannel args idGiven =>
    match db.channels.get? args.channel with
    | none => .ok ({ v with wasCreated := true }, [.channel args.channel (args.row now)])
    | some _ => if idGiven then .ok ({ v with wasCreated := false }, []) else .error duplicateKey
  | insertOwner args =>
    if v.wasCreated then
      .ok (v, [.member args.channel args.createdBy
        (upsertRow now (db.membersOf args.channel args.createdBy) .owner (some args.createdBy))])
    else .ok (v, [])
  | readChannel args =>
    match db.channels.get? args.channel with
    | some row => .ok ({ v with channel := some row }, [])
    | none => .error (.sqlx "row not found")
  | checkPubkey pubkey => do
    checkLength pubkey
    return (v, [])
  | lockMembership _ => .ok (v, [])
  | getChannel args =>
    match (db.channels.get? args.channel).filter fun row => row.deletedAt.isNone with
    | some row => .ok ({ v with channel := some row }, [])
    | none => .error (.channelNotFound args.channel.2)
  | authorizeRole args =>
    match v.channel with
    | some channel => do
      Channels.authorizeRole args channel db
      return (v, [])
    | none => .error (.channelNotFound args.channel.2)
  | currentRole args => .ok ({ v with currentRole := db.activeRole args.channel args.pubkey }, [])
  | authorizeChange args =>
    if v.currentRole.any fun r => r != args.role then do
      require ((args.invitedBy.bind (db.activeRole args.channel)).any MemberRole.isElevated)
        (.accessDenied "only owners/admins may change an active member's role")
      return (v, [])
    else .ok (v, [])
  | checkDemotion args =>
    if v.currentRole = some .owner ∧ args.role ≠ .owner then do
      require (decide (1 < db.ownerCount args.channel))
        (.accessDenied "cannot demote the last owner — transfer ownership first")
      return (v, [])
    else .ok (v, [])
  | upsertMember args =>
    .ok (v, [.member args.channel args.pubkey
      (upsertRow now (db.membersOf args.channel args.pubkey) args.role args.invitedBy)])
  | readMember args =>
    match db.membersOf args.channel args.pubkey with
    | some row => .ok ({ v with record := some row }, [])
    | none => .error (.sqlx "row not found")
  | authorizeActor args => do
    Channels.authorizeActor args db
    return (v, [])
  | targetRole args => .ok ({ v with currentRole := db.activeRole args.channel args.pubkey }, [])
  | checkLastOwner args =>
    if v.currentRole = some .owner then do
      require (decide (1 < db.ownerCount args.channel))
        (.accessDenied "cannot remove the last owner — transfer ownership first")
      return (v, [])
    else .ok (v, [])
  | markRemoved args =>
    match db.activeMember args.channel args.pubkey with
    | some m =>
      .ok (v, [.member args.channel args.pubkey
        { m with removedAt := some now, removedBy := some args.actor }])
    | none => .error (.memberNotFound args.channel.2)

def creationPlan (args : CreateChannel) (idGiven : Bool) : List Sql :=
  [.checkCreation args idGiven, .insertChannel args idGiven, .insertOwner args, .readChannel args]

def Call.plan : Call → List Sql
  | createChannel args => creationPlan args false
  | createChannelWithId args => creationPlan args true
  | addMember args =>
    [.checkPubkey args.pubkey, .lockMembership args.channel, .getChannel args, .authorizeRole args,
      .currentRole args, .authorizeChange args, .checkDemotion args, .upsertMember args,
      .readMember args]
  | removeMember args =>
    [.lockMembership args.channel, .authorizeActor args, .targetRole args, .checkLastOwner args,
      .markRemoved args]

def store : Planned Call Sql Db Lock Vars Write DbError where
  apply := Db.apply
  vars := .init
  plan := Call.plan
  locks := Sql.locks
  exec := Sql.exec
  lockOf := Write.lock

end Vingilot.Channels
