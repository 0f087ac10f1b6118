import Vingilot.Core
import Vingilot.Lib.Plans

/-!
# Use-limited invites (`buzz-db/src/relay_invite.rs`)

`claim_relay_invite` as a transaction of five statements. The checks that the code makes
between two statements belong to the first of them. What `Utc::now()` gives at the expiry
check is an argument of the call.
-/

namespace Vingilot.Invites

open Transactions

/-! ## Rows -/

abbrev InviteKey := CommunityId × Uuid

abbrev MemberKey := CommunityId × String

structure Invite where
  tokenHash : List UInt8
  maxUses : Option Nat
  useCount : Nat
  expiresAt : Int

structure RelayMember where
  role : String
  addedBy : Option String

structure Db where
  relayInvites : Table InviteKey Invite
  relayMembers : Table MemberKey RelayMember
  /-- `join_policy_acceptances`, by its primary key. -/
  acceptances : Table (MemberKey × String) Unit

/-! ## Calls -/

structure Claim where
  community : CommunityId
  tokenHash : List UInt8
  claimerPubkey : String
  policyVersion : Option String
  now : Int

def Claim.member (c : Claim) : MemberKey := (c.community, c.claimerPubkey)

/-- `WHERE community_id = $1 AND token_hash = $2`. -/
def Db.inviteFor (db : Db) (c : Claim) : Option (InviteKey × Invite) :=
  db.relayInvites.toList.find? fun (key, row) => key.1 == c.community && row.tokenHash == c.tokenHash

inductive Stopped where
  | invalid
  | expired
  | exhausted
  | sqlx (text : String)

structure Vars where
  invite : Option (InviteKey × Invite)
  existing : Option Bool
  inserted : Bool
  consumed : Bool
  accepted : Bool

def Vars.init : Vars := ⟨none, none, false, false, false⟩

inductive ClaimOutcome where
  | joined (useCount : Nat) (usesRemaining : Option Nat)
  | alreadyMember (useCount : Nat) (usesRemaining : Option Nat)

def Vars.outcome (v : Vars) : Option ClaimOutcome :=
  v.invite.map fun (_, row) =>
    if v.inserted then .joined (row.useCount + 1) (row.maxUses.map (· - (row.useCount + 1)))
    else .alreadyMember row.useCount (row.maxUses.map (· - row.useCount))

inductive Write where
  | member (key : MemberKey)
  | acceptance (key : MemberKey) (policyVersion : String)
  | useCount (key : InviteKey) (n : Nat)

inductive Lock where
  | invite (key : InviteKey)
  | member (key : MemberKey)
  | acceptance (key : MemberKey) (policyVersion : String)
deriving DecidableEq

def Db.apply (db : Db) : Write → Db
  | .member key => { db with relayMembers := db.relayMembers.set key ⟨"member", some "invite"⟩ }
  | .acceptance key version => { db with acceptances := db.acceptances.set (key, version) () }
  | .useCount key n =>
    { db with
      relayInvites := db.relayInvites.alter key fun row => row.map fun row => { row with useCount := n } }

/-! ## Statements -/

inductive Sql where
  | selectForUpdate (c : Claim)
  | selectMember (c : Claim)
  | insertMember (c : Claim)
  | insertAcceptance (c : Claim)
  | updateUseCount (c : Claim)

def Claim.plan (c : Claim) : List Sql :=
  [.selectForUpdate c, .selectMember c, .insertMember c, .insertAcceptance c, .updateUseCount c]

def i32Max : Nat := 2147483647

def Sql.locks (s : Sql) (_ : Int) (v : Vars) (db : Db) : List (Lock × Mode) :=
  match s with
  | .selectForUpdate c =>
    match db.inviteFor c with
    | some (key, _) => [(.invite key, .exclusive)]
    | none => []
  | .selectMember _ => []
  | .insertMember c =>
    -- an uncommitted insert of the same key is waited for, a committed one is just a conflict
    if v.existing = some false ∧ db.relayMembers.get? c.member = none then
      [(.member c.member, .exclusive)]
    else []
  | .insertAcceptance c =>
    match c.policyVersion with
    | some version => [(.acceptance c.member version, .exclusive)]
    | none => []
  | .updateUseCount _ =>
    match v.invite with
    | some (key, _) => [(.invite key, .exclusive)]
    | none => []

def Sql.exec (s : Sql) (_ : Int) (v : Vars) (db : Db) : Except Stopped (Vars × List Write) :=
  match s with
  | .selectForUpdate c =>
    match db.inviteFor c with
    | none => .error .invalid
    | some (key, row) =>
      if row.expiresAt ≤ c.now then .error .expired
      else .ok ({ v with invite := some (key, row) }, [])
  | .selectMember c =>
    match db.relayMembers.get? c.member, v.invite with
    | some _, _ => .ok ({ v with existing := some true }, [])
    | none, some (_, row) =>
      if row.maxUses.any fun maxUses => decide (maxUses ≤ row.useCount) then .error .exhausted
      else .ok ({ v with existing := some false }, [])
    | none, none => .error .invalid
  | .insertMember c =>
    if v.existing = some false ∧ db.relayMembers.get? c.member = none then
      .ok ({ v with inserted := true }, [.member c.member])
    else .ok (v, [])
  | .insertAcceptance c =>
    match c.policyVersion with
    | some version => .ok ({ v with accepted := true }, [.acceptance c.member version])
    | none => .ok (v, [])
  | .updateUseCount _ =>
    match v.invite with
    | none => .ok (v, [])
    | some (key, row) =>
      if !v.inserted then .ok (v, [])
      else if i32Max < row.useCount + 1 then .error (.sqlx "integer out of range")
      else .ok ({ v with consumed := true }, [.useCount key (row.useCount + 1)])

def lockOf : Write → Lock
  | .member key => .member key
  | .acceptance key version => .acceptance key version
  | .useCount key _ => .invite key

def store : Planned Claim Sql Db Lock Vars Write Stopped where
  apply := Db.apply
  vars := .init
  plan := Claim.plan
  locks := Sql.locks
  exec := Sql.exec
  lockOf := lockOf

theorem disciplined : store.Disciplined := by
  intro s now v db v' ws h w hw
  cases s with
  | selectForUpdate c =>
    simp only [store, Sql.exec] at h
    split at h
    · cases h
    · split_ifs at h
      cases h
      cases hw
  | selectMember c =>
    simp only [store, Sql.exec] at h
    split at h
    · cases h
      cases hw
    · split_ifs at h
      cases h
      cases hw
    · cases h
  | insertMember c =>
    simp only [store, Sql.exec] at h
    split_ifs at h with hnew
    · cases h
      simp only [List.mem_singleton] at hw
      subst hw
      simp [store, Sql.locks, hnew, lockOf]
    · cases h
      cases hw
  | insertAcceptance c =>
    simp only [store, Sql.exec] at h
    split at h
    · rename_i version hversion
      cases h
      simp only [List.mem_singleton] at hw
      subst hw
      simp [store, Sql.locks, hversion, lockOf]
    · cases h
      cases hw
  | updateUseCount c =>
    simp only [store, Sql.exec] at h
    split at h
    · cases h
      cases hw
    · rename_i key row hinvite
      split_ifs at h
      · cases h
        cases hw
      · cases h
        simp only [List.mem_singleton] at hw
        subst hw
        simp [store, Sql.locks, hinvite, lockOf]

end Vingilot.Invites
