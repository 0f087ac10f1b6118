import Vingilot.Core
import Vingilot.Lib.Plans

/-!
# Communities and their owners (`buzz-db/src/relay_members.rs`, `buzz-db/src/lib.rs`)

The calls that give, move and take roles, as transactions. A statement that locks rows finds them in
its snapshot, waits for their locks, and then looks at each of them again as it is now. So it is two
steps here: one that reads the snapshot, and one that waits.
-/

namespace Vingilot.Communities

open Transactions

/-! ## Rows -/

inductive Role where
  | owner
  | admin
  | member
deriving DecidableEq

abbrev AssignableRole := { role : Role // role ≠ .owner }

/-- `rowId` tells a row from a later one with its key. -/
structure RelayMember where
  role : Role
  addedBy : Option String
  rowId : Nat

inductive DeletionState where
  | active
  | quiescing
  | fenced
  | tombstone
deriving DecidableEq

structure Community where
  host : String
  archivedAt : Option Int
  deletionState : DeletionState
  deletedAt : Option Int

abbrev MemberKey := CommunityId × String

structure Db where
  communities : Table CommunityId Community
  relayMembers : Table MemberKey RelayMember

def Db.role (db : Db) (key : MemberKey) : Option Role :=
  (db.relayMembers.get? key).map RelayMember.role

/-- `SELECT pubkey .. WHERE community_id = $1 AND role = 'owner'`. -/
def Db.owners (db : Db) (community : CommunityId) : List (String × Nat) :=
  (db.relayMembers.toList.filter fun (key, row) => key.1 == community && row.role == .owner).map
    fun (key, row) => (key.2, row.rowId)

/-- `SELECT count(*) .. WHERE pubkey = $1 AND role = 'owner'`. -/
def Db.ownedCount (db : Db) (pubkey : String) : Nat :=
  (db.relayMembers.toList.filter fun (key, row) => key.2 == pubkey && row.role == .owner).length

def Db.current (db : Db) (key : MemberKey) (rowId : Nat) : Option RelayMember :=
  (db.relayMembers.get? key).filter fun row => row.rowId == rowId

def toAsciiLowercase (s : String) : String := String.ofList (s.toList.map Char.toLower)

/-! ## Calls -/

structure CreateCommunity where
  community : CommunityId
  rowId : Nat
  normalizedHost : String
  ownerPubkey : String
deriving DecidableEq

structure TransferOwnership where
  community : CommunityId
  rowId : Nat
  newOwnerPubkey : String
  expectedOwnerPubkey : String
deriving DecidableEq

def CreateCommunity.owner (args : CreateCommunity) : String := toAsciiLowercase args.ownerPubkey

def TransferOwnership.pubkey (args : TransferOwnership) : String :=
  toAsciiLowercase args.newOwnerPubkey

def TransferOwnership.expectedOwner (args : TransferOwnership) : String :=
  toAsciiLowercase args.expectedOwnerPubkey

inductive Call where
  | createCommunityWithOwner (args : CreateCommunity)
  | transferOwnership (args : TransferOwnership)
  | addRelayMember (key : MemberKey) (role : AssignableRole) (addedBy : Option String) (rowId : Nat)
  | removeRelayMember (key : MemberKey)
  | removeRelayMemberIfRole (key : MemberKey) (expectedRole : AssignableRole)
  | updateRelayMemberRole (key : MemberKey) (newRole : AssignableRole)
deriving DecidableEq

inductive Stopped where
  | noOwner
  | ownerConflict
  | alreadyOwner
  | limitReached
  | hostExists
  | isOwner
  | notFound
  | roleMismatch
  | sqlx (text : String)
deriving DecidableEq

structure Vars where
  /-- The rows that `FOR UPDATE` has found. -/
  candidates : List (String × Nat)
  existingOwners : List String
  previousOwner : Option String
  others : List (String × Nat)
  matched : Option Nat
  affected : Bool
  created : Bool
  record : Option (CommunityId × String)

def Vars.init : Vars := ⟨[], [], none, [], none, false, false, none⟩

inductive Write where
  | community (id : CommunityId) (row : Community)
  | member (key : MemberKey) (row : Option RelayMember)

inductive Lock where
  /-- The advisory key of `owner_count_advisory_lock_key`. -/
  | advisory (key : Int64)
  /-- The unique index on `lower(host)`. -/
  | host (host : String)
  | communityRow (id : CommunityId)
  | memberRow (key : MemberKey)
deriving DecidableEq

def Write.lock : Write → Lock
  | community id _ => .communityRow id
  | member key _ => .memberRow key

def Db.apply (db : Db) : Write → Db
  | .community id row => { db with communities := db.communities.set id row }
  | .member key (some row) => { db with relayMembers := db.relayMembers.set key row }
  | .member key none => { db with relayMembers := db.relayMembers.remove key }

/-! ## Statements -/

inductive RoleTest where
  | notOwner
  | is (role : AssignableRole)

def RoleTest.holds : RoleTest → Role → Bool
  | .notOwner, role => role != .owner
  | .is expected, role => role == expected.1

inductive Sql where
  | lockRecipient (pubkey : String)
  | insertCommunity (args : CreateCommunity)
  | countForCreate (args : CreateCommunity)
  | insertOwner (args : CreateCommunity)
  | readExisting (args : CreateCommunity)
  /-- `SELECT .. FOR UPDATE`, the snapshot. -/
  | readOwners (args : TransferOwnership)
  /-- `SELECT .. FOR UPDATE`, the locks. -/
  | lockOwners (args : TransferOwnership)
  | checkOwners (args : TransferOwnership)
  | countForTransfer (args : TransferOwnership)
  | upsertOwner (args : TransferOwnership)
  | readOthers (args : TransferOwnership)
  | demoteOthers (args : TransferOwnership)
  | insertMember (key : MemberKey) (role : AssignableRole) (addedBy : Option String) (rowId : Nat)
  | matchRow (key : MemberKey) (test : RoleTest)
  | deleteRow (key : MemberKey) (test : RoleTest)
  | updateRole (key : MemberKey) (newRole : AssignableRole)
  | removalResult (key : MemberKey) (test : RoleTest)

/-- FNV-1a over the text of the pubkey. -/
def ownerCountAdvisoryLockKey (pubkeyHex : String) : Int64 :=
  ((pubkeyHex.toList.flatMap String.utf8EncodeChar).foldl
    (fun h b => (h ^^^ b.toUInt64) * 0x100000001b3) (0xcbf29ce484222325 : UInt64)).toInt64

def Db.hostTaken (db : Db) (host : String) : Bool :=
  db.communities.toList.any fun (_, row) => toAsciiLowercase row.host == toAsciiLowercase host

def Db.liveOwned (db : Db) (host owner : String) : Option (CommunityId × String) :=
  (db.communities.toList.find? fun (id, row) =>
    toAsciiLowercase row.host == toAsciiLowercase host && row.archivedAt.isNone &&
      row.deletionState == .active && row.deletedAt.isNone &&
      db.relayMembers.toList.any fun (key, member) =>
        key.1 == id && toAsciiLowercase key.2 == toAsciiLowercase owner &&
          member.role == .owner).map fun (id, row) => (id, row.host)

/-- The checks of `transfer_ownership` on the owners that it has locked. -/
def checkOwners (args : TransferOwnership) (v : Vars) : Except Stopped Vars :=
  if v.existingOwners = [] then .error .noOwner
  else if args.expectedOwner ∉ v.existingOwners then .error .ownerConflict
  else if v.existingOwners = [args.pubkey] then .error .alreadyOwner
  else
    .ok { v with
      previousOwner :=
        if v.existingOwners.length = 1 then v.existingOwners.head?
        else v.existingOwners.find? (· ≠ args.pubkey) }

def Db.present (db : Db) (community : CommunityId) (found : List (String × Nat)) :
    List (String × Nat) :=
  found.filter fun x => (db.current (community, x.1) x.2).isSome

/-- The row that `INSERT .. ON CONFLICT DO UPDATE SET role = 'owner'` leaves. -/
def ownerRow (old : Option RelayMember) (rowId : Nat) : RelayMember :=
  match old with
  | some row => { row with role := .owner }
  | none => ⟨.owner, none, rowId⟩

def Sql.locks (stmt : Sql) (_now : Int) (v : Vars) (db : Db) : List (Lock × Mode) :=
  match stmt with
  | lockRecipient pubkey => [(.advisory (ownerCountAdvisoryLockKey pubkey), .exclusive)]
  | insertCommunity args =>
    if db.hostTaken args.normalizedHost then []
    else
      [(.host (toAsciiLowercase args.normalizedHost), .exclusive),
        (.communityRow args.community, .exclusive)]
  | insertOwner args =>
    if v.created then [(.memberRow (args.community, args.owner), .exclusive)] else []
  | lockOwners args =>
    (db.present args.community v.candidates).map fun x =>
      (.memberRow (args.community, x.1), .exclusive)
  | upsertOwner args => [(.memberRow (args.community, args.pubkey), .exclusive)]
  | demoteOthers args =>
    (db.present args.community v.others).map fun x => (.memberRow (args.community, x.1), .exclusive)
  | insertMember key _ _ _ =>
    if (db.relayMembers.get? key).isSome then [] else [(.memberRow key, .exclusive)]
  | deleteRow key _ =>
    if (v.matched.bind (db.current key)).isSome then [(.memberRow key, .exclusive)] else []
  | updateRole key _ =>
    if (v.matched.bind (db.current key)).isSome then [(.memberRow key, .exclusive)] else []
  | _ => []

def Vars.writeRow (v : Vars) (db : Db) (key : MemberKey) (test : RoleTest)
    (new : RelayMember → Option RelayMember) : Vars × List Write :=
  match (v.matched.bind (db.current key)).filter fun row => test.holds row.role with
  | some row => ({ v with affected := true }, [.member key (new row)])
  | none => ({ v with affected := false }, [])

def Sql.exec (limit : Nat) (stmt : Sql) (_now : Int) (v : Vars) (db : Db) :
    Except Stopped (Vars × List Write) :=
  match stmt with
  | lockRecipient _ => .ok (v, [])
  | insertCommunity args =>
    if db.hostTaken args.normalizedHost then .ok ({ v with created := false }, [])
    else if (db.communities.get? args.community).isSome then
      .error (.sqlx "duplicate key value violates unique constraint")
    else
      .ok ({ v with created := true, record := some (args.community, args.normalizedHost) },
        [.community args.community ⟨args.normalizedHost, none, .active, none⟩])
  | countForCreate args =>
    if v.created ∧ limit ≤ db.ownedCount args.owner then .error .limitReached else .ok (v, [])
  | insertOwner args =>
    if v.created then
      if (db.relayMembers.get? (args.community, args.owner)).isSome then
        .error (.sqlx "duplicate key value violates unique constraint")
      else .ok (v, [.member (args.community, args.owner) (some ⟨.owner, none, args.rowId⟩)])
    else .ok (v, [])
  | readExisting args =>
    if v.created then .ok (v, [])
    else
      match db.liveOwned args.normalizedHost args.owner with
      | some record => .ok ({ v with record := some record }, [])
      | none => .error .hostExists
  | readOwners args => .ok ({ v with candidates := db.owners args.community }, [])
  | lockOwners args =>
    let owners := v.candidates.filter fun x =>
      (db.current (args.community, x.1) x.2).any fun row => row.role == .owner
    .ok ({ v with existingOwners := owners.map Prod.fst }, [])
  | checkOwners args => do
    let v ← Communities.checkOwners args v
    return (v, [])
  | countForTransfer args =>
    if limit ≤ db.ownedCount args.pubkey then .error .limitReached else .ok (v, [])
  | upsertOwner args =>
    .ok (v, [.member (args.community, args.pubkey)
      (some (ownerRow (db.relayMembers.get? (args.community, args.pubkey)) args.rowId))])
  | readOthers args =>
    .ok ({ v with others := (db.owners args.community).filter fun x => x.1 ≠ args.pubkey }, [])
  | demoteOthers args =>
    .ok (v, v.others.filterMap fun x =>
      ((db.current (args.community, x.1) x.2).filter fun row => row.role == .owner).map fun row =>
        .member (args.community, x.1) (some { row with role := .member }))
  | insertMember key role addedBy rowId =>
    if (db.relayMembers.get? key).isSome then .ok ({ v with affected := false }, [])
    else if (db.communities.get? key.1).isNone then
      .error (.sqlx "insert violates foreign key constraint")
    else .ok ({ v with affected := true }, [.member key (some ⟨role.1, addedBy, rowId⟩)])
  | matchRow key test =>
    let row := (db.relayMembers.get? key).filter fun row => test.holds row.role
    .ok ({ v with matched := row.map RelayMember.rowId }, [])
  | deleteRow key test => .ok (v.writeRow db key test fun _ => none)
  | updateRole key newRole =>
    .ok (v.writeRow db key .notOwner fun row => some { row with role := newRole.1 })
  | removalResult key test =>
    if v.affected then .ok (v, [])
    else
      match db.role key, test with
      | none, _ => .error .notFound
      | some .owner, _ => .error .isOwner
      | some _, .notOwner => .error .isOwner
      | some _, .is _ => .error .roleMismatch

def removalPlan (key : MemberKey) (test : RoleTest) : List Sql :=
  [.matchRow key test, .deleteRow key test, .removalResult key test]

def Call.plan : Call → List Sql
  | createCommunityWithOwner args =>
    [.lockRecipient args.owner, .insertCommunity args, .countForCreate args, .insertOwner args,
      .readExisting args]
  | transferOwnership args =>
    [.lockRecipient args.pubkey, .readOwners args, .lockOwners args, .checkOwners args,
      .countForTransfer args, .upsertOwner args, .readOthers args, .demoteOthers args]
  | addRelayMember key role addedBy rowId => [.insertMember key role addedBy rowId]
  | removeRelayMember key => removalPlan key .notOwner
  | removeRelayMemberIfRole key expectedRole => removalPlan key (.is expectedRole)
  | updateRelayMemberRole key newRole => [.matchRow key .notOwner, .updateRole key newRole]

/-- The tables with all of their callers. The limit is the one of `max_communities_per_owner`. -/
def store (limit : Nat) : Planned Call Sql Db Lock Vars Write Stopped where
  apply := Db.apply
  vars := .init
  plan := Call.plan
  locks := Sql.locks
  exec := Sql.exec limit
  lockOf := Write.lock

end Vingilot.Communities
