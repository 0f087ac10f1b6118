import Mathlib.Data.List.Pairwise
import Vingilot.Lib.Machine
import Vingilot.Tunnel.Directory

/-!
# Leases fence each other off

The generation key of a session never expires, so the counter in it is at least the generation of
every lease that was ever written, and equal to that of the stored one.
-/

namespace Vingilot.Tunnel

open Vingilot.Text Machine

/-! ## Reading a lease back -/

theorem hexDecode_hexEncode (bytes : List UInt8) : hexDecode (hexEncode bytes) = some bytes := by
  induction bytes with
  | nil => rfl
  | cons b bytes ih =>
    have hb : b.toNat < 256 := b.toNat_lt
    have hhigh := Json.hexValue_hexDigit (b.toNat / 16) (by omega)
    have hlow := Json.hexValue_hexDigit (b.toNat % 16) (by omega)
    have hsum : b.toNat / 16 * 16 + b.toNat % 16 = b.toNat := by omega
    have hcons : hexEncode (b :: bytes) =
        Json.hexDigit (b.toNat / 16) :: Json.hexDigit (b.toNat % 16) :: hexEncode bytes := rfl
    rw [hcons, hexDecode]
    simp only [hhigh, hlow, ih, hsum, UInt8.ofNat_toNat]

theorem hexDigit_ne_bar : ∀ n < 16, Json.hexDigit n ≠ '|' := by decide

theorem bar_notMem_hexEncode (bytes : List UInt8) : '|' ∉ hexEncode bytes := by
  intro h
  obtain ⟨b, -, hb⟩ := List.mem_flatMap.mp h
  have hlt : b.toNat < 256 := b.toNat_lt
  simp only [List.mem_cons, List.not_mem_nil, or_false] at hb
  rcases hb with hb | hb
  · exact hexDigit_ne_bar _ (by omega) hb.symm
  · exact hexDigit_ne_bar _ (by omega) hb.symm

theorem RuntimeId.ofBytes_toHex (id : RuntimeId) :
    (hexDecode id.toHex).bind RuntimeId.ofBytes = some id := by
  rw [RuntimeId.toHex, hexDecode_hexEncode, Option.bind_some, RuntimeId.ofBytes,
    dif_pos id.length_eq]

theorem bar_notMem_profile (profile : Profile) : '|' ∉ profile.asWireStr := by
  cases profile <;> decide

theorem profileFromWire_asWireStr (profile : Profile) :
    profileFromWire profile.asWireStr = some profile := by
  cases profile <;> decide

variable {c : Char}

theorem digitValue_of_isDigit (h : c.isDigit = true) :
    digitValue c = some (c.toNat - '0'.toNat) := by
  rw [digitValue, if_pos]
  simpa [Char.isDigit, Char.le_def, UInt32.le_iff_toNat_le] using h

theorem parseDigits_eq {digits : List Char} {acc : Nat} (h : ∀ c ∈ digits, c.isDigit = true)
    (hlt : Nat.ofDigitChars 10 digits acc < 2 ^ 64) :
    parseDigits acc digits = some (Nat.ofDigitChars 10 digits acc) := by
  induction digits generalizing acc with
  | nil => rfl
  | cons c rest ih =>
    have hc := digitValue_of_isDigit (h c List.mem_cons_self)
    have hacc : 10 * acc + (c.toNat - '0'.toNat) = acc * 10 + (c.toNat - '0'.toNat) := by
      rw [Nat.mul_comm]
    rw [Nat.ofDigitChars_cons, hacc] at hlt ⊢
    have hle : acc * 10 + (c.toNat - '0'.toNat) < 2 ^ 64 := by
      rw [Nat.ofDigitChars_eq_ofDigitChars_zero] at hlt
      have hone : 1 ≤ 10 ^ rest.length := Nat.one_le_pow _ _ (by omega)
      have hmul := Nat.mul_le_mul_right (acc * 10 + (c.toNat - '0'.toNat)) hone
      omega
    rw [parseDigits, hc]
    simp only [if_pos hle]
    exact ih (fun d hd => h d (List.mem_cons_of_mem c hd)) hlt

variable {n : Nat}

theorem isDigit_of_mem_digits (h : c ∈ Nat.toDigits 10 n) :
    c.isDigit = true := Nat.isDigit_of_mem_toDigits (by omega) (by omega) h

theorem parseU64_digits (h : n < 2 ^ 64) : parseU64 (Nat.toDigits 10 n) = some n := by
  have hread : parseDigits 0 (Nat.toDigits 10 n) = some n := by
    rw [parseDigits_eq (fun c hc => isDigit_of_mem_digits hc), Nat.ofDigitChars_ten_toDigits]
    rwa [Nat.ofDigitChars_ten_toDigits]
  have hplus : '+' ∉ Nat.toDigits 10 n := by
    intro hmem
    exact absurd (isDigit_of_mem_digits hmem) (by decide)
  unfold parseU64
  split
  · next heq => exact absurd heq Nat.toDigits_ne_nil
  · next heq => exact absurd (heq ▸ List.mem_cons_self) hplus
  · next heq => exact absurd (heq ▸ List.mem_cons_self) hplus
  · exact hread

theorem parseDigits_of_mem (hc : digitValue c = none) {digits : List Char} {acc : Nat}
    (h : c ∈ digits) : parseDigits acc digits = none := by
  induction digits generalizing acc with
  | nil => cases h
  | cons d rest ih =>
    rw [parseDigits]
    cases hd : digitValue d with
    | none => rfl
    | some x =>
      have hrest : c ∈ rest := by
        rcases List.mem_cons.mp h with rfl | hrest
        · simp [hc] at hd
        · exact hrest
      change (if acc * 10 + x < 2 ^ 64 then parseDigits (acc * 10 + x) rest else none) = none
      rw [ih hrest, ite_self]

theorem parseU64_of_mem_e {text : List Char} (h : 'e' ∈ text) : parseU64 text = none := by
  have he : digitValue 'e' = none := by decide
  unfold parseU64
  split
  · rfl
  · rfl
  · next digits heq =>
    refine parseDigits_of_mem he ?_
    simpa using h
  · exact parseDigits_of_mem he h

/-- What `acquire` writes. -/
def leaseText (lua : Lua) (lease : SessionLease) : List Char :=
  lease.ownerRuntimeId.toHex ++ '|' ::
    (lua.tostring lease.generation ++ '|' :: lease.profile.asWireStr)

theorem bar_notMem_tostring (lua : Lua) (n : Nat) : '|' ∉ lua.tostring n := by
  intro h
  rcases Nat.lt_or_ge n (10 ^ 14) with hn | hn
  · rw [lua.small n hn] at h
    exact absurd (isDigit_of_mem_digits h) (by decide)
  · exact (lua.large n hn).2 h

theorem splitOn_leaseText (lua : Lua) (lease : SessionLease) :
    (leaseText lua lease).splitOn '|' =
      [lease.ownerRuntimeId.toHex, lua.tostring lease.generation, lease.profile.asWireStr] := by
  rw [leaseText, RuntimeId.toHex,
    List.splitOn_append_cons_self_of_not_mem (bar_notMem_hexEncode _),
    List.splitOn_append_cons_self_of_not_mem (bar_notMem_tostring lua _),
    List.splitOn_eq_singleton (bar_notMem_profile _)]

theorem leaseText_ne_nil (lua : Lua) (lease : SessionLease) :
    (leaseText lua lease).isEmpty = false := by
  simp [leaseText]

variable {lease : SessionLease}

theorem parseLease_leaseText (lua : Lua) (hpos : 0 < lease.generation) :
    parseLease lease.key (leaseText lua lease) =
      if lease.generation < 10 ^ 14 then .ok lease
      else .error (.malformedLease lease.key (leaseText lua lease)) := by
  rw [parseLease, splitOn_leaseText]
  split_ifs with h
  · simp only [lua.small _ h, parseU64_digits (show lease.generation < 2 ^ 64 by omega),
      profileFromWire_asWireStr, RuntimeId.ofBytes_toHex]
    rw [if_neg (by omega)]
    rfl
  · have he := parseU64_of_mem_e (lua.large lease.generation (by omega)).1
    simp only [he]

/-! ## What each call does -/

theorem told_error (e : DirectoryError) (finishes : Bool) : told (.error e) finishes = [] := by
  cases finishes <;> rfl

theorem told_existing (x : Except DirectoryError SessionLease) (finishes : Bool) :
    told (x.map .existing) finishes = [] := by
  cases x <;> cases finishes <;> rfl

theorem extended_error (e : DirectoryError) (finishes : Bool) :
    extended (.error e) finishes = [] := by
  cases finishes <;> rfl

theorem extended_lost (x : Except DirectoryError (Option SessionLease))
    (known : Except DirectoryError (Option Nat)) (finishes : Bool) :
    extended (do let current ← x; .ok (.lost current (← known))) finishes = [] := by
  cases x with
  | error e => exact extended_error e finishes
  | ok current =>
    cases known with
    | error e => exact extended_error e finishes
    | ok known => cases finishes <;> rfl

/-- The number in the generation key, 0 when there is none. -/
def Redis.counter (r : Redis) (k : Key) : Nat := (r.generations.get? k).getD 0

/-- The lease that `acquire` writes when there is none. -/
def nextLease (r : Redis) (k : Key) (owner : RuntimeId) (profile : Profile) : SessionLease :=
  ⟨k.1, k.2, owner, r.counter k + 1, profile⟩

def Redis.grant (lua : Lua) (r : Redis) (lease : SessionLease) (ttl : Nat) : Redis :=
  { r with
    generations := r.generations.set lease.key lease.generation
    leases := r.leases.set lease.key (leaseText lua lease, r.now + ttl) }

theorem acquire_cases (lua : Lua) (k : Key) (owner : RuntimeId) (profile : Profile) (ttl : Nat)
    (r : Redis) :
    ((acquire lua k owner profile ttl r).1 = r ∧
      ∀ finishes, told (acquire lua k owner profile ttl r).2 finishes = []) ∨
    (r.getLease k = none ∧ r.counter k + 1 < 2 ^ 63 ∧
      acquire lua k owner profile ttl r =
        (r.grant lua (nextLease r k owner profile) ttl,
          (parseLease k (leaseText lua (nextLease r k owner profile))).map .acquired)) := by
  unfold acquire ttlMs
  split_ifs with httl
  · unfold acquireScript
    cases hget : r.getLease k with
    | some current => exact Or.inl ⟨rfl, told_existing (parseLease k current)⟩
    | none =>
      rcases Nat.lt_or_ge (r.counter k + 1) (2 ^ 63) with hlt | hge
      · refine Or.inr ⟨rfl, hlt, ?_⟩
        have hnot : ¬ 2 ^ 63 ≤ (r.generations.get? k).getD 0 + 1 := by
          rw [Redis.counter] at hlt
          omega
        simp only [if_neg hnot]
        rfl
      · rw [Redis.counter] at hge
        simp only [if_pos hge]
        exact Or.inl ⟨trivial, told_error _⟩
  · exact Or.inl ⟨rfl, told_error _⟩

theorem renew_cases (lease : SessionLease) (ttl : Nat) (r : Redis) :
    ((renew lease ttl r).1 = r ∧ ∀ finishes, extended (renew lease ttl r).2 finishes = []) ∨
    ∃ current, r.getLease lease.key = some current ∧
      isOwn current lease.ownerRuntimeId.toHex (Nat.toDigits 10 lease.generation) = true ∧
      (renew lease ttl r).1 = { r with leases := r.leases.set lease.key (current, r.now + ttl) } ∧
      (renew lease ttl r).2 = (parseOptionalLease lease.key current).map .renewed := by
  unfold renew ttlMs
  split_ifs with httl
  · unfold renewScript
    cases hget : r.getLease lease.key with
    | none => exact Or.inl ⟨rfl, extended_lost (.ok none) _⟩
    | some current =>
      by_cases hown :
        isOwn current lease.ownerRuntimeId.toHex (Nat.toDigits 10 lease.generation) = true
      · simp only [if_pos hown]
        refine Or.inr ⟨current, rfl, hown, rfl, ?_⟩
        cases parseOptionalLease lease.key current <;> rfl
      · simp only [if_neg hown]
        exact Or.inl ⟨trivial, extended_lost (parseOptionalLease lease.key current) _⟩
  · exact Or.inl ⟨rfl, extended_error _⟩

theorem release_cases (lease : SessionLease) (r : Redis) :
    (release lease r).1 = r ∨
    ∃ current, r.getLease lease.key = some current ∧
      isOwn current lease.ownerRuntimeId.toHex (Nat.toDigits 10 lease.generation) = true ∧
      (release lease r).1 = { r with leases := r.leases.remove lease.key } := by
  unfold release releaseScript
  cases r.getLease lease.key with
  | none => exact Or.inl rfl
  | some current =>
    cases h : isOwn current lease.ownerRuntimeId.toHex (Nat.toDigits 10 lease.generation) with
    | true => exact Or.inr ⟨current, rfl, h, by simp [h]⟩
    | false => exact Or.inl (by simp [h])

theorem RuntimeId.toHex_injective {a b : RuntimeId} (h : a.toHex = b.toHex) : a = b := by
  have ha := RuntimeId.ofBytes_toHex a
  rw [h, RuntimeId.ofBytes_toHex] at ha
  exact (Option.some_inj.mp ha).symm

theorem toDigits_injective {m : Nat} (h : Nat.toDigits 10 m = Nat.toDigits 10 n) : m = n := by
  rw [← Nat.ofDigitChars_ten_toDigits (n := m), h, Nat.ofDigitChars_ten_toDigits]

variable {l : SessionLease}

theorem eq_of_isOwn (lua : Lua) (hsmall : l.generation < 10 ^ 14)
    (h : isOwn (leaseText lua l) lease.ownerRuntimeId.toHex (Nat.toDigits 10 lease.generation) =
      true) : l.ownerRuntimeId = lease.ownerRuntimeId ∧ l.generation = lease.generation := by
  rw [isOwn, splitOn_leaseText] at h
  simp only [Bool.and_eq_true, decide_eq_true_eq] at h
  obtain ⟨⟨-, howner⟩, hgeneration⟩ := h
  rw [lua.small _ hsmall] at hgeneration
  exact ⟨RuntimeId.toHex_injective howner, toDigits_injective hgeneration⟩

/-! ## The invariant -/

structure Inv (lua : Lua) (w : World) : Prop where
  counted : ∀ l ∈ w.issued, 0 < l.generation ∧ l.generation ≤ w.redis.counter l.key
  ascending : w.issued.Pairwise fun a b => a.key = b.key → a.generation < b.generation
  bounded : ∀ k g, w.redis.generations.get? k = some g → 0 < g ∧ g < 2 ^ 63
  stored : ∀ k value expiry, w.redis.leases.get? k = some (value, expiry) →
    ∃ l ∈ w.issued, l.key = k ∧ l.generation = w.redis.counter k ∧ value = leaseText lua l
  handed : w.handedOut.Sublist w.issued
  held : ∀ x ∈ w.held, x.1 ∈ w.issued ∧ x.1.generation < 10 ^ 14 ∧ (w.redis.now < x.2 →
    ∃ expiry, w.redis.leases.get? x.1.key = some (leaseText lua x.1, expiry) ∧ x.2 ≤ expiry)

theorem inv_init (lua : Lua) : Inv lua World.init where
  counted l h := by cases h
  ascending := List.Pairwise.nil
  bounded k g h := by cases h
  stored k value expiry h := by cases h
  handed := List.Sublist.refl _
  held x h := by cases h

variable {k : Key}

theorem getLease_eq_some {r : Redis} {value : List Char} :
    r.getLease k = some value ↔ ∃ expiry, r.leases.get? k = some (value, expiry) ∧ r.now < expiry := by
  rw [Redis.getLease]
  cases r.leases.get? k with
  | none => simp
  | some x =>
    obtain ⟨v, e⟩ := x
    rw [Option.bind_some]
    split_ifs with h
    · constructor
      · intro heq
        cases heq
        exact ⟨e, rfl, h⟩
      · rintro ⟨expiry, heq, -⟩
        cases heq
        rfl
    · constructor
      · intro heq
        cases heq
      · rintro ⟨expiry, heq, hlt⟩
        cases heq
        exact absurd hlt h

variable {lua : Lua} {w : World}

theorem inv_tick (hinv : Inv lua w) (ms : Nat) :
    Inv lua { w with redis := { w.redis with now := w.redis.now + ms } } where
  counted := hinv.counted
  ascending := hinv.ascending
  bounded := hinv.bounded
  stored := hinv.stored
  handed := hinv.handed
  held x hx := by
    obtain ⟨hmem, hsmall, hlive⟩ := hinv.held x hx
    refine ⟨hmem, hsmall, fun hnow => hlive ?_⟩
    exact Nat.lt_of_le_of_lt (Nat.le_add_right w.redis.now ms) hnow

theorem counter_grant (r : Redis) (k k' : Key) (owner : RuntimeId) (profile : Profile)
    (ttl : Nat) :
    (r.grant lua (nextLease r k owner profile) ttl).counter k' =
      if k' = k then r.counter k + 1 else r.counter k' := by
  have hkey : (nextLease r k owner profile).key = k := rfl
  rw [Redis.counter, Redis.grant, hkey, Table.get?_set]
  split_ifs with h
  · rfl
  · rfl

theorem leases_grant (r : Redis) (k k' : Key) (owner : RuntimeId) (profile : Profile)
    (ttl : Nat) :
    (r.grant lua (nextLease r k owner profile) ttl).leases.get? k' =
      if k' = k then some (leaseText lua (nextLease r k owner profile), r.now + ttl)
      else r.leases.get? k' := Table.get?_set ..

theorem inv_grant (hinv : Inv lua w) {owner : RuntimeId} {profile : Profile} {ttl : Nat}
    {handedOut : List SessionLease} (hfree : w.redis.getLease k = none)
    (hlt : w.redis.counter k + 1 < 2 ^ 63)
    (hhanded : handedOut = [] ∨ (handedOut = [nextLease w.redis k owner profile] ∧
      (nextLease w.redis k owner profile).generation < 10 ^ 14)) : Inv lua {
      redis := w.redis.grant lua (nextLease w.redis k owner profile) ttl
      issued := w.issued ++ [nextLease w.redis k owner profile]
      handedOut := w.handedOut ++ handedOut
      held := w.held ++ handedOut.map fun lease => (lease, w.redis.now + ttl) } where
  counted l hl := by
    rw [counter_grant]
    rcases List.mem_append.mp hl with hl | hl
    · obtain ⟨hpos, hle⟩ := hinv.counted l hl
      refine ⟨hpos, ?_⟩
      split_ifs with hk
      · rw [hk] at hle
        omega
      · exact hle
    · obtain rfl := List.mem_singleton.mp hl
      rw [if_pos (show (nextLease w.redis k owner profile).key = k from rfl)]
      exact ⟨Nat.succ_pos _, Nat.le_refl _⟩
  ascending := by
    rw [List.pairwise_append]
    refine ⟨hinv.ascending, List.pairwise_singleton _ _, fun a ha b hb hk => ?_⟩
    obtain rfl := List.mem_singleton.mp hb
    have hle := (hinv.counted a ha).2
    rw [hk] at hle
    exact Nat.lt_succ_of_le hle
  bounded k' g hget := by
    change Table.get? (Table.set w.redis.generations k (w.redis.counter k + 1)) k' = some g at hget
    rw [Table.get?_set] at hget
    split_ifs at hget with hk
    · cases hget
      exact ⟨Nat.succ_pos _, hlt⟩
    · exact hinv.bounded k' g hget
  stored k' value expiry hget := by
    rw [leases_grant] at hget
    split_ifs at hget with hk
    · cases hget
      refine ⟨_, List.mem_append_right _ (List.mem_singleton_self _), hk.symm, ?_, rfl⟩
      rw [counter_grant, if_pos hk]
      rfl
    · obtain ⟨l, hl, hkey, hgen, hvalue⟩ := hinv.stored k' value expiry hget
      refine ⟨l, List.mem_append_left _ hl, hkey, ?_, hvalue⟩
      rw [counter_grant, if_neg hk]
      exact hgen
  handed := by
    refine hinv.handed.append ?_
    rcases hhanded with rfl | ⟨rfl, -⟩
    · exact List.nil_sublist _
    · exact List.Sublist.refl _
  held x hx := by
    rcases List.mem_append.mp hx with hx | hx
    · obtain ⟨hmem, hsmall, hlive⟩ := hinv.held x hx
      refine ⟨List.mem_append_left _ hmem, hsmall, fun hnow => ?_⟩
      obtain ⟨expiry, hold, hle⟩ := hlive hnow
      have hk : x.1.key ≠ k := by
        rintro rfl
        have hsome := getLease_eq_some.mpr ⟨expiry, hold, Nat.lt_of_lt_of_le hnow hle⟩
        rw [hfree] at hsome
        cases hsome
      refine ⟨expiry, ?_, hle⟩
      rw [leases_grant, if_neg hk]
      exact hold
    · rcases hhanded with rfl | ⟨rfl, hsmall⟩
      · cases hx
      · obtain rfl := List.mem_singleton.mp hx
        refine ⟨List.mem_append_right _ (List.mem_singleton_self _), hsmall, fun _ => ?_⟩
        exact ⟨_, (leases_grant ..).trans (if_pos rfl), Nat.le_refl _⟩

variable {x : SessionLease × Nat}

theorem mem_letGo {held : List (SessionLease × Nat)} :
    x ∈ letGo lease held ↔ x ∈ held ∧ ¬ (x.1.key = lease.key ∧
      x.1.ownerRuntimeId = lease.ownerRuntimeId ∧ x.1.generation = lease.generation) := by
  rw [letGo, List.mem_filter, Bool.not_eq_true', Bool.eq_false_iff]
  simp only [ne_eq, Bool.and_eq_true, decide_eq_true_eq, and_assoc]

variable {current : List Char}

theorem Inv.held_other (hinv : Inv lua w) (hget : w.redis.getLease lease.key = some current)
    (hown : isOwn current lease.ownerRuntimeId.toHex (Nat.toDigits 10 lease.generation) = true)
    (hx : x ∈ letGo lease w.held) (hnow : w.redis.now < x.2) : x.1.key ≠ lease.key := by
  intro hkey
  obtain ⟨hx, hother⟩ := mem_letGo.mp hx
  obtain ⟨-, hsmall, hlive⟩ := hinv.held x hx
  obtain ⟨expiry, hold, hle⟩ := hlive hnow
  have htext := getLease_eq_some.mpr ⟨expiry, hold, Nat.lt_of_lt_of_le hnow hle⟩
  rw [hkey, hget] at htext
  obtain rfl := Option.some_inj.mp htext
  exact hother ⟨hkey, eq_of_isOwn lua hsmall hown⟩

theorem inv_letGo (hinv : Inv lua w) (lease : SessionLease) :
    Inv lua { w with held := letGo lease w.held } where
  counted := hinv.counted
  ascending := hinv.ascending
  bounded := hinv.bounded
  stored := hinv.stored
  handed := hinv.handed
  held x hx := hinv.held x (mem_letGo.mp hx).1

theorem inv_release (hinv : Inv lua w) (hget : w.redis.getLease lease.key = some current)
    (hown : isOwn current lease.ownerRuntimeId.toHex (Nat.toDigits 10 lease.generation) = true) :
    Inv lua { w with
      redis := { w.redis with leases := w.redis.leases.remove lease.key }
      held := letGo lease w.held } where
  counted := hinv.counted
  ascending := hinv.ascending
  bounded := hinv.bounded
  stored k value expiry h := by
    change Table.get? (Table.remove w.redis.leases lease.key) k = some (value, expiry) at h
    rw [Table.get?_remove] at h
    split_ifs at h
    exact hinv.stored k value expiry h
  handed := hinv.handed
  held x hx := by
    obtain ⟨hmem, hsmall, hlive⟩ := hinv.held x (mem_letGo.mp hx).1
    refine ⟨hmem, hsmall, fun hnow => ?_⟩
    obtain ⟨expiry, hold, hle⟩ := hlive hnow
    refine ⟨expiry, ?_, hle⟩
    change Table.get? (Table.remove w.redis.leases lease.key) x.1.key = _
    rw [Table.get?_remove, if_neg (hinv.held_other hget hown hx hnow)]
    exact hold

theorem Inv.parse_stored (hinv : Inv lua w) (hget : w.redis.getLease k = some current) :
    ∃ l ∈ w.issued, l.key = k ∧ l.generation = w.redis.counter k ∧ current = leaseText lua l ∧
      parseLease k current = if l.generation < 10 ^ 14 then .ok l
        else .error (.malformedLease k current) := by
  obtain ⟨expiry, hstored, -⟩ := getLease_eq_some.mp hget
  obtain ⟨l, hl, rfl, hgeneration, rfl⟩ := hinv.stored k current expiry hstored
  exact ⟨l, hl, rfl, hgeneration, rfl, parseLease_leaseText lua (hinv.counted l hl).1⟩

theorem parseOptionalLease_leaseText (k : Key) (l : SessionLease) :
    parseOptionalLease k (leaseText lua l) = (parseLease k (leaseText lua l)).map some := by
  rw [parseOptionalLease, leaseText_ne_nil]
  rfl

theorem inv_renew (hinv : Inv lua w) {ttl : Nat} (hget : w.redis.getLease lease.key = some current)
    (hown : isOwn current lease.ownerRuntimeId.toHex (Nat.toDigits 10 lease.generation) = true)
    (finishes : Bool) : Inv lua { w with
      redis := { w.redis with
        leases := w.redis.leases.set lease.key (current, w.redis.now + ttl) }
      held := letGo lease w.held ++
        (extended ((parseOptionalLease lease.key current).map .renewed) finishes).map
          fun lease => (lease, w.redis.now + ttl) } where
  counted := hinv.counted
  ascending := hinv.ascending
  bounded := hinv.bounded
  stored k value expiry h := by
    change Table.get? (Table.set w.redis.leases lease.key _) k = some (value, expiry) at h
    rw [Table.get?_set] at h
    split_ifs at h with hk
    · cases h
      obtain ⟨l, hl, hkey, hgeneration, htext, -⟩ := hinv.parse_stored hget
      exact ⟨l, hl, hkey.trans hk.symm, hk ▸ hgeneration, htext⟩
    · exact hinv.stored k value expiry h
  handed := hinv.handed
  held x hx := by
    rcases List.mem_append.mp hx with hx | hx
    · obtain ⟨hmem, hsmall, hlive⟩ := hinv.held x (mem_letGo.mp hx).1
      refine ⟨hmem, hsmall, fun hnow => ?_⟩
      obtain ⟨expiry, hold, hle⟩ := hlive hnow
      refine ⟨expiry, ?_, hle⟩
      change Table.get? (Table.set w.redis.leases lease.key _) x.1.key = _
      rw [Table.get?_set, if_neg (hinv.held_other hget hown hx hnow)]
      exact hold
    · obtain ⟨l, hl, hkey, -, htext, hparse⟩ := hinv.parse_stored hget
      obtain ⟨m, hm, rfl⟩ := List.mem_map.mp hx
      rw [htext, parseOptionalLease_leaseText, ← htext, hparse] at hm
      split_ifs at hm with hsmall
      · have hml : m = l := by
          cases finishes with
          | true => exact List.mem_singleton.mp hm
          | false => cases hm
        obtain rfl := hml
        refine ⟨hl, hsmall, fun _ => ⟨_, ?_, Nat.le_refl _⟩⟩
        change Table.get? (Table.set w.redis.leases lease.key _) m.key = _
        rw [Table.get?_set, if_pos hkey, htext]
      · cases finishes <;> cases hm

theorem written_self (r : Redis) (k : Key) (owner : RuntimeId) (profile : Profile) :
    written r r k owner profile = [] := if_pos rfl

theorem written_grant (r : Redis) (k : Key) (owner : RuntimeId) (profile : Profile) (ttl : Nat) :
    written r (r.grant lua (nextLease r k owner profile) ttl) k owner profile =
      [nextLease r k owner profile] := by
  have hafter : (r.grant lua (nextLease r k owner profile) ttl).generations.get? k =
      some (r.counter k + 1) := (Table.get?_set ..).trans (if_pos rfl)
  have hne : r.generations.get? k ≠ some (r.counter k + 1) := by
    intro h
    have hcounter : r.counter k = r.counter k + 1 := by
      conv_lhs => rw [Redis.counter, h, Option.getD_some]
    omega
  rw [written, hafter, if_neg hne]
  rfl

variable {w' : World}

theorem inv_step {a : Action} (hinv : Inv lua w) (h : step lua w a = some w') : Inv lua w' := by
  cases a with
  | tick ms =>
    cases h
    exact inv_tick hinv ms
  | acquire k owner profile ttl finishes =>
    simp only [step, Option.some.injEq] at h
    subst h
    rcases acquire_cases lua k owner profile ttl w.redis with ⟨hsame, htold⟩ | ⟨hfree, hlt, heq⟩
    · rw [hsame, htold, written_self, List.append_nil, List.map_nil, List.append_nil,
        List.append_nil]
      exact hinv
    · rw [heq, written_grant]
      refine inv_grant hinv hfree hlt ?_
      have hpos : 0 < (nextLease w.redis k owner profile).generation := Nat.succ_pos _
      have hparse := parseLease_leaseText lua hpos
      change parseLease k _ = _ at hparse
      rw [hparse]
      split_ifs with hsmall
      · cases finishes with
        | true => exact Or.inr ⟨rfl, hsmall⟩
        | false => exact Or.inl rfl
      · exact Or.inl (told_error _ _)
  | renew lease ttl finishes =>
    simp only [step, Option.some.injEq] at h
    subst h
    rcases renew_cases lease ttl w.redis with ⟨hsame, hnone⟩ | ⟨current, hget, hown, hredis, hres⟩
    · rw [hsame, hnone, List.map_nil, List.append_nil]
      exact inv_letGo hinv lease
    · rw [hredis, hres]
      exact inv_renew hinv hget hown finishes
  | release lease =>
    simp only [step, Option.some.injEq] at h
    subst h
    rcases release_cases lease w.redis with hsame | ⟨current, hget, hown, hredis⟩
    · rw [hsame]
      exact inv_letGo hinv lease
    · rw [hredis]
      exact inv_release hinv hget hown

/-! ## What the frames are checked against -/

def Live (r : Redis) (l : SessionLease) : Prop := lookup l.key r = .ok (some l)

theorem Inv.unique (hinv : Inv lua w) {l' : SessionLease} (hl : l ∈ w.issued) (hl' : l' ∈ w.issued)
    (hkey : l.key = l'.key) (hgeneration : l.generation = l'.generation) : l = l' := by
  have hdistinct : w.issued.Pairwise fun a b => a.key = b.key → a.generation ≠ b.generation :=
    hinv.ascending.imp fun h hk => (h hk).ne
  by_contra hne
  have : Std.Symm fun a b : SessionLease => a.key = b.key → a.generation ≠ b.generation :=
    ⟨fun a b h hk hg => h hk.symm hg.symm⟩
  exact hdistinct.forall hl hl' hne hkey hgeneration

theorem Inv.live_iff (hinv : Inv lua w) (l : SessionLease) :
    Live w.redis l ↔ (w.redis.getLease l.key).isSome ∧ l ∈ w.issued ∧
      l.generation = w.redis.counter l.key ∧ l.generation < 10 ^ 14 := by
  rw [Live, lookup]
  cases hget : w.redis.getLease l.key with
  | none => simp
  | some current =>
    obtain ⟨l', hl', hkey, hgeneration, -, hparse⟩ := hinv.parse_stored hget
    have hsame : l ∈ w.issued → l.generation = w.redis.counter l.key → l = l' := fun hl hg =>
      hinv.unique hl hl' hkey.symm (hg.trans hgeneration.symm)
    dsimp only
    rw [hparse]
    split_ifs with hsmall
    · constructor
      · intro h
        cases h
        exact ⟨rfl, hl', hgeneration, hsmall⟩
      · rintro ⟨-, hl, hg, -⟩
        rw [hsame hl hg]
        rfl
    · constructor
      · intro h
        cases h
      · rintro ⟨-, hl, hg, hlt⟩
        exact absurd (hsame hl hg ▸ hlt) hsmall

theorem Inv.live_of_held (hinv : Inv lua w) (hx : x ∈ w.held) (hnow : w.redis.now < x.2) :
    Live w.redis x.1 := by
  obtain ⟨hmem, hsmall, hlive⟩ := hinv.held x hx
  obtain ⟨expiry, hstored, hle⟩ := hlive hnow
  have hget := getLease_eq_some.mpr ⟨expiry, hstored, Nat.lt_of_lt_of_le hnow hle⟩
  rw [Live, lookup, hget]
  dsimp only
  rw [parseLease_leaseText lua (hinv.counted x.1 hmem).1, if_pos hsmall]
  rfl

theorem parseOptionalGeneration_counter (hinv : Inv lua w) (k : Key) :
    parseOptionalGeneration k (w.redis.getGeneration k) = .ok (w.redis.generations.get? k) := by
  rw [Redis.getGeneration]
  cases hget : w.redis.generations.get? k with
  | none => rfl
  | some g =>
    obtain ⟨hpos, hlt⟩ := hinv.bounded k g hget
    have hne : (Nat.toDigits 10 g).isEmpty = false := by
      rw [List.isEmpty_eq_false_iff]
      exact Nat.toDigits_ne_nil
    rw [Option.map_some, Option.getD_some, parseOptionalGeneration, hne,
      if_neg Bool.false_ne_true, parseU64_digits (by omega)]
    exact if_neg (by omega)

theorem Inv.validate_iff (hinv : Inv lua w) (communityId : CommunityId) (fenced : FencedHeader) :
    validateFencedHeader communityId fenced w.redis = .ok () ↔
      ∃ l, Live w.redis l ∧ l.communityId = communityId ∧ l.fencedHeader = fenced := by
  have hlive : ∀ l, Live w.redis l ∧ l.communityId = communityId ∧ l.fencedHeader = fenced →
      (w.redis.getLease (communityId, fenced.sessionId)).isSome ∧ l ∈ w.issued ∧
        l.key = (communityId, fenced.sessionId) ∧ l.generation < 10 ^ 14 ∧
        l.generation = w.redis.counter (communityId, fenced.sessionId) := by
    rintro l ⟨hl, rfl, rfl⟩
    obtain ⟨hsome, hmem, hgeneration, hsmall⟩ := (hinv.live_iff l).mp hl
    exact ⟨hsome, hmem, rfl, hsmall, hgeneration⟩
  rw [validateFencedHeader, validateScript]
  dsimp only
  rw [parseOptionalGeneration_counter hinv]
  cases hget : w.redis.getLease (communityId, fenced.sessionId) with
  | none =>
    have hnone : ¬ ∃ l, Live w.redis l ∧ l.communityId = communityId ∧ l.fencedHeader = fenced := by
      rintro ⟨l, hl⟩
      have hsome := (hlive l hl).1
      rw [hget] at hsome
      cases hsome
    simp only [hnone, iff_false]
    change (if _ then _ else _) ≠ _
    split_ifs <;> exact fun h => by cases h
  | some current =>
    obtain ⟨l', hl', hkey, hgeneration, htext, hparse⟩ := hinv.parse_stored hget
    have hsame : ∀ l, Live w.redis l ∧ l.communityId = communityId ∧ l.fencedHeader = fenced →
        l = l' := by
      intro l hl
      obtain ⟨-, hmem, hk, -, hg⟩ := hlive l hl
      exact hinv.unique hmem hl' (hk.trans hkey.symm) (hg.trans hgeneration.symm)
    rw [Option.getD_some, htext, parseOptionalLease_leaseText, ← htext, hparse]
    split_ifs with hsmall
    · have hl : Live w.redis l' := by
        rw [hinv.live_iff, hkey, hget]
        exact ⟨rfl, hl', hgeneration, hsmall⟩
      have hcounter : (w.redis.generations.get? (communityId, fenced.sessionId)).getD 0 =
          l'.generation := hgeneration.symm
      simp only [Except.map, Option.map_some, Option.getD_some, hcounter, Nat.max_self]
      constructor
      · intro h
        split_ifs at h with hstale hfuture howner
        refine ⟨l', hl, congrArg Prod.fst hkey, ?_⟩
        rw [SessionLease.fencedHeader, FencedHeader.mk.injEq]
        exact ⟨congrArg Prod.snd hkey, (not_not.mp hfuture).symm, (not_not.mp howner).symm⟩
      · rintro ⟨l, hpasses⟩
        obtain rfl := hsame l hpasses
        obtain ⟨-, -, rfl⟩ := hpasses
        rw [if_neg (fun h => Nat.lt_irrefl _ h.2)]
        exact (if_neg (not_not.mpr rfl)).trans (if_neg (not_not.mpr rfl))
    · constructor
      · intro h
        cases h
      · rintro ⟨l, hl⟩
        obtain ⟨-, -, -, hlt, -⟩ := hlive l hl
        exact absurd (hsame l hl ▸ hlt) hsmall

/-! ## Over whole runs -/

structure Fenced (w : World) : Prop where
  single : ∀ l l', Live w.redis l → Live w.redis l' → l.key = l'.key → l = l'
  held : ∀ x ∈ w.held, w.redis.now < x.2 → Live w.redis x.1
  increasing : w.handedOut.Pairwise fun a b => a.key = b.key → a.generation < b.generation
  passes : ∀ communityId fenced, validateFencedHeader communityId fenced w.redis = .ok () ↔
    ∃ l, Live w.redis l ∧ l.communityId = communityId ∧ l.fencedHeader = fenced

theorem live_unique {r : Redis} {l' : SessionLease} (hl : Live r l) (hl' : Live r l')
    (hkey : l.key = l'.key) : l = l' := by
  rw [Live, hkey, hl'] at hl
  cases hl
  rfl

theorem Inv.fenced (hinv : Inv lua w) : Fenced w where
  single _ _ hl hl' hkey := live_unique hl hl' hkey
  held _ hx hnow := hinv.live_of_held hx hnow
  increasing := hinv.ascending.sublist hinv.handed
  passes := hinv.validate_iff

theorem issued_step {a : Action} (h : step lua w a = some w') : w.issued ⊆ w'.issued := by
  cases a with
  | acquire k owner profile ttl finishes =>
    cases h
    exact List.subset_append_left ..
  | tick ms => cases h; exact List.Subset.refl _
  | renew lease ttl finishes => cases h; exact List.Subset.refl _
  | release lease => cases h; exact List.Subset.refl _

theorem issued_run {as : List Action} (h : run (step lua) w as = some w') : w.issued ⊆ w'.issued :=
  run_related (fun w w' => w.issued ⊆ w'.issued) (fun _ => List.Subset.refl _)
    (fun _ _ _ h h' => List.Subset.trans h h') (fun _ _ _ h => issued_step h) h

theorem inv_run {as : List Action} (h : run (step lua) World.init as = some w) : Inv lua w :=
  run_invariant (Inv lua) (fun _ _ _ hinv hstep => inv_step hinv hstep) (inv_init lua) h

/-- In every state of every run the leases of a session fence each other off, and a generation that
another has superseded never passes again. -/
theorem leases_fence (lua : Lua) {as bs : List Action} {w w' : World}
    (hrun : run (step lua) World.init as = some w) (hmore : run (step lua) w bs = some w') :
    Fenced w ∧ Fenced w' ∧ ∀ l ∈ w.issued, ∀ fenced : FencedHeader,
      fenced.sessionId = l.sessionId → fenced.generation < l.generation →
        validateFencedHeader l.communityId fenced w'.redis ≠ .ok () := by
  have hinv' : Inv lua w' :=
    run_invariant (Inv lua) (fun _ _ _ hinv hstep => inv_step hinv hstep) (inv_run hrun) hmore
  refine ⟨(inv_run hrun).fenced, hinv'.fenced, fun l hl fenced hsession hlt hpass => ?_⟩
  obtain ⟨l', hlive, hcommunity, rfl⟩ := (hinv'.validate_iff _ _).mp hpass
  have hkey : l'.key = l.key := Prod.ext hcommunity hsession
  have hcounter := ((hinv'.live_iff l').mp hlive).2.2.1
  have hle := (hinv'.counted l (issued_run hmore hl)).2
  change l'.generation < l.generation at hlt
  rw [hcounter, hkey] at hlt
  omega

def demoTostring (n : Nat) : List Char :=
  if n < 10 ^ 14 then Nat.toDigits 10 n else Nat.toDigits 10 n ++ ['e', '+', '1', '4']

theorem demoTostring_large (n : Nat) (h : 10 ^ 14 ≤ n) :
    'e' ∈ demoTostring n ∧ '|' ∉ demoTostring n := by
  rw [demoTostring, if_neg (Nat.not_lt.mpr h)]
  refine ⟨by simp, fun hbar => ?_⟩
  rcases List.mem_append.mp hbar with hbar | hbar
  · exact absurd (isDigit_of_mem_digits hbar) (by decide)
  · exact absurd hbar (by decide)

def demoLua : Lua := ⟨demoTostring, fun _ h => if_pos h, demoTostring_large⟩

def demoRuntime (b : UInt8) : RuntimeId := .ofByte b

def demoLease (b : UInt8) (generation : Nat) : SessionLease :=
  ⟨1, 1, demoRuntime b, generation, .reliableStream⟩

/-- An expired session goes to another runtime, which renews and releases it. -/
theorem leases_fence_takeover : ∃ w w', run (step demoLua) World.init
    [.acquire (1, 1) (demoRuntime 1) .reliableStream 1000 true, .tick 2000,
      .acquire (1, 1) (demoRuntime 2) .reliableStream 1000 true] = some w ∧
    run (step demoLua) w [.renew (demoLease 2 2) 1000 true, .release (demoLease 2 2),
      .acquire (1, 1) (demoRuntime 1) .reliableStream 1000 true] = some w' ∧
    w'.handedOut = [demoLease 1 1, demoLease 2 2, demoLease 1 3] ∧ Fenced w' ∧
    validateFencedHeader 1 (demoLease 1 1).fencedHeader w'.redis ≠ .ok () := by
  have hdemo : ((run (step demoLua) World.init
    [.acquire (1, 1) (demoRuntime 1) .reliableStream 1000 true, .tick 2000,
      .acquire (1, 1) (demoRuntime 2) .reliableStream 1000 true]).any fun w =>
      w.issued == [demoLease 1 1, demoLease 2 2] && (run (step demoLua) w
        [.renew (demoLease 2 2) 1000 true, .release (demoLease 2 2),
          .acquire (1, 1) (demoRuntime 1) .reliableStream 1000 true]).any fun w' =>
            w'.handedOut == [demoLease 1 1, demoLease 2 2, demoLease 1 3]) = true := by
    decide +kernel
  obtain ⟨w, hrun, h⟩ := (Option.any_eq_true _ _).mp hdemo
  obtain ⟨hissued, hrest⟩ := Bool.and_eq_true_iff.mp h
  obtain ⟨w', hmore, hhanded⟩ := (Option.any_eq_true _ _).mp hrest
  obtain ⟨-, hfenced, hnever⟩ := leases_fence demoLua hrun hmore
  have hmem : demoLease 2 2 ∈ w.issued := by
    rw [eq_of_beq hissued]
    simp
  exact ⟨w, w', hrun, hmore, eq_of_beq hhanded, hfenced,
    hnever (demoLease 2 2) hmem (demoLease 1 1).fencedHeader rfl (by decide)⟩

end Vingilot.Tunnel
