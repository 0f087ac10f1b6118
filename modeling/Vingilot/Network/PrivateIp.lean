import Mathlib.Algebra.Order.Ring.Int
import Mathlib.Data.List.Induction

/-!
# The address filter of webhook targets (`buzz-core/src/network.rs`)

`is_private_ip` masks octets and segments. What it blocks is a list of CIDR ranges.
-/

namespace Vingilot.Network

abbrev Ipv4Addr := BitVec 32
abbrev Ipv6Addr := BitVec 128

inductive IpAddr where
  | v4 (a : Ipv4Addr)
  | v6 (a : Ipv6Addr)

def octet4 (a : Ipv4Addr) (i : Nat) : BitVec 8 := a.extractLsb' (8 * (3 - i)) 8

def segment (a : Ipv6Addr) (i : Nat) : BitVec 16 := a.extractLsb' (16 * (7 - i)) 16

def octets (a : Ipv6Addr) : List (BitVec 8) :=
  (List.range 16).map fun i => a.extractLsb' (8 * (15 - i)) 8

def lastFour (a : Ipv6Addr) : Ipv4Addr := a.extractLsb' 0 32

/-! ## The functions of `std::net` -/

namespace Ipv4Addr

def isLoopback (a : Ipv4Addr) : Bool := octet4 a 0 == 127

/-- Whether the address is in `10.0.0.0/8`, `172.16.0.0/12` or `192.168.0.0/16`. -/
def isPrivate (a : Ipv4Addr) : Bool :=
  octet4 a 0 == 10 ||
    octet4 a 0 == 172 && decide (16 ≤ octet4 a 1) && decide (octet4 a 1 ≤ 31) ||
    octet4 a 0 == 192 && octet4 a 1 == 168

def isLinkLocal (a : Ipv4Addr) : Bool := octet4 a 0 == 169 && octet4 a 1 == 254

def isBroadcast (a : Ipv4Addr) : Bool := a == 0xffffffff

end Ipv4Addr

/-- `Ipv6Addr::to_ipv4`, of a compatible or a mapped address. -/
def toIpv4 (a : Ipv6Addr) : Option Ipv4Addr :=
  if segment a 0 = 0 ∧ segment a 1 = 0 ∧ segment a 2 = 0 ∧ segment a 3 = 0 ∧ segment a 4 = 0 ∧
      (segment a 5 = 0 ∨ segment a 5 = 0xffff) then some (lastFour a)
  else none

/-! ## The filter -/

def nat64WellKnownPrefix : List (BitVec 8) := [0x00, 0x64, 0xff, 0x9b, 0, 0, 0, 0, 0, 0, 0, 0]

def ipv4TranslatedPrefix : List (BitVec 8) := [0, 0, 0, 0, 0, 0, 0, 0, 0xff, 0xff, 0, 0]

def embeddedIpv4 (a : Ipv6Addr) (start : List (BitVec 8)) : Option Ipv4Addr :=
  if start.isPrefixOf (octets a) then some (lastFour a) else none

def isPrivateIpv4 (a : Ipv4Addr) : Bool :=
  Ipv4Addr.isLoopback a || Ipv4Addr.isPrivate a || Ipv4Addr.isLinkLocal a || octet4 a 0 == 0 ||
    Ipv4Addr.isBroadcast a ||
    (octet4 a 0 == 100 && octet4 a 1 &&& 0xC0 == 64) ||
    (octet4 a 0 == 198 && octet4 a 1 &&& 0xFE == 18)

def isPrivateIp : IpAddr → Bool
  | .v4 a => isPrivateIpv4 a
  | .v6 a =>
    match toIpv4 a with
    | some b => isPrivateIpv4 b
    | none =>
      match embeddedIpv4 a nat64WellKnownPrefix with
      | some b => isPrivateIpv4 b
      | none =>
        match embeddedIpv4 a ipv4TranslatedPrefix with
        | some b => isPrivateIpv4 b
        | none =>
          a == 1 || a == 0 ||
            segment a 0 &&& 0xfe00 == 0xfc00 ||
            segment a 0 &&& 0xffc0 == 0xfe80 ||
            segment a 0 &&& 0xff00 == 0xff00 ||
            (segment a 0 == 0x0064 && segment a 1 == 0xff9b && segment a 2 == 1) ||
            (segment a 0 == 0x2001 && segment a 1 == 0) ||
            segment a 0 == 0x2002 ||
            (segment a 0 == 0x2001 && segment a 1 == 0x0db8)

/-! ## The documented ranges -/

/-- `net/len`, of addresses of `w` bits. -/
structure Cidr (w : Nat) where
  net : BitVec w
  len : Nat

/-- The leading `len` bits are those of the network. -/
def Cidr.Contains {w : Nat} (r : Cidr w) (a : BitVec w) : Prop :=
  a >>> (w - r.len) = r.net >>> (w - r.len)

instance {w : Nat} (r : Cidr w) (a : BitVec w) : Decidable (r.Contains a) :=
  inferInstanceAs (Decidable (_ = _))

def v4 (a b c d : Nat) : Ipv4Addr := BitVec.ofNat 32 (((a * 256 + b) * 256 + c) * 256 + d)

def v6 (segments : List Nat) : Ipv6Addr :=
  BitVec.ofNat 128 (segments.foldl (fun n s => n * 65536 + s) 0)

def blockedV4 : List (Cidr 32) :=
  [⟨v4 127 0 0 0, 8⟩, ⟨v4 10 0 0 0, 8⟩, ⟨v4 172 16 0 0, 12⟩, ⟨v4 192 168 0 0, 16⟩,
    ⟨v4 169 254 0 0, 16⟩, ⟨v4 0 0 0 0, 8⟩, ⟨v4 255 255 255 255, 32⟩, ⟨v4 100 64 0 0, 10⟩,
    ⟨v4 198 18 0 0, 15⟩]

def blockedV6 : List (Cidr 128) :=
  [⟨v6 [0, 0, 0, 0, 0, 0, 0, 1], 128⟩, ⟨v6 [0, 0, 0, 0, 0, 0, 0, 0], 128⟩,
    ⟨v6 [0xfc00, 0, 0, 0, 0, 0, 0, 0], 7⟩, ⟨v6 [0xfe80, 0, 0, 0, 0, 0, 0, 0], 10⟩,
    ⟨v6 [0xff00, 0, 0, 0, 0, 0, 0, 0], 8⟩, ⟨v6 [0x64, 0xff9b, 1, 0, 0, 0, 0, 0], 48⟩,
    ⟨v6 [0x2001, 0, 0, 0, 0, 0, 0, 0], 32⟩, ⟨v6 [0x2002, 0, 0, 0, 0, 0, 0, 0], 16⟩,
    ⟨v6 [0x2001, 0xdb8, 0, 0, 0, 0, 0, 0], 32⟩]

/-- The prefixes of the addresses that stand for an IPv4 address: compatible, mapped, translated
and NAT64. -/
def embeddingV6 : List (Cidr 128) :=
  [⟨v6 [0, 0, 0, 0, 0, 0, 0, 0], 96⟩, ⟨v6 [0, 0, 0, 0, 0, 0xffff, 0, 0], 96⟩,
    ⟨v6 [0, 0, 0, 0, 0xffff, 0, 0, 0], 96⟩, ⟨v6 [0x64, 0xff9b, 0, 0, 0, 0, 0, 0], 96⟩]

def BlockedV4 (a : Ipv4Addr) : Prop := ∃ r ∈ blockedV4, r.Contains a

def Embeds (a : Ipv6Addr) : Prop := ∃ r ∈ embeddingV6, r.Contains a

instance (a : Ipv6Addr) : Decidable (Embeds a) := inferInstanceAs (Decidable (∃ r ∈ _, _))

def Blocked : IpAddr → Prop
  | .v4 a => BlockedV4 a
  | .v6 a => if Embeds a then BlockedV4 (lastFour a) else ∃ r ∈ blockedV6, r.Contains a

/-! ## Addresses as numbers -/

variable {w : Nat}

theorem contains_iff {r : Cidr w} {a : BitVec w} :
    r.Contains a ↔ a.toNat / 2 ^ (w - r.len) = r.net.toNat / 2 ^ (w - r.len) := by
  unfold Cidr.Contains
  rw [← BitVec.toNat_inj, BitVec.toNat_ushiftRight, BitVec.toNat_ushiftRight,
    Nat.shiftRight_eq_div_pow, Nat.shiftRight_eq_div_pow]

theorem toNat_and_mask {k : Nat} (x : BitVec w) :
    (x &&& (BitVec.allOnes w <<< k)).toNat = x.toNat / 2 ^ k * 2 ^ k := by
  have hshift : x &&& (BitVec.allOnes w <<< k) = (x >>> k) <<< k := by
    ext i hi
    by_cases hk : i < k
    · simp [hk]
    · have hadd : k + (i - k) = i := by omega
      simp [hk, hadd, hi]
  have hle : x.toNat / 2 ^ k * 2 ^ k < 2 ^ w :=
    lt_of_le_of_lt (Nat.div_mul_le_self _ _) x.isLt
  rw [hshift, BitVec.toNat_shiftLeft, BitVec.toNat_ushiftRight, Nat.shiftRight_eq_div_pow,
    Nat.shiftLeft_eq, Nat.mod_eq_of_lt hle]

theorem toNat_octet4 (a : Ipv4Addr) (i : Nat) :
    (octet4 a i).toNat = a.toNat / 2 ^ (8 * (3 - i)) % 256 := by
  unfold octet4
  rw [BitVec.extractLsb'_toNat, Nat.shiftRight_eq_div_pow]

theorem toNat_segment (a : Ipv6Addr) (i : Nat) :
    (segment a i).toNat = a.toNat / 2 ^ (16 * (7 - i)) % 65536 := by
  unfold segment
  rw [BitVec.extractLsb'_toNat, Nat.shiftRight_eq_div_pow]

theorem toNat_lastFour (a : Ipv6Addr) : (lastFour a).toNat = a.toNat % 2 ^ 32 := by
  unfold lastFour
  rw [BitVec.extractLsb'_toNat, Nat.shiftRight_eq_div_pow]
  simp

/-! ## IPv4 -/

structure Octets (a : Ipv4Addr) (x y : Nat) : Prop where
  first : (octet4 a 0).toNat = x
  second : (octet4 a 1).toNat = y
  lt : x < 256 ∧ y < 256
  value : ∃ low < 65536, a.toNat = (x * 256 + y) * 65536 + low

theorem octets_of (a : Ipv4Addr) :
    Octets a (a.toNat / 16777216) (a.toNat / 65536 % 256) := by
  have ha := a.isLt
  refine ⟨?_, ?_, ⟨by omega, by omega⟩, a.toNat % 65536, by omega, by omega⟩
  · rw [toNat_octet4]
    omega
  · rw [toNat_octet4]
    omega

theorem isPrivateIpv4_iff (a : Ipv4Addr) : isPrivateIpv4 a = true ↔ BlockedV4 a := by
  obtain ⟨hx, hy, ⟨hx256, hy256⟩, low, hlow, hvalue⟩ := octets_of a
  generalize a.toNat / 16777216 = x at *
  generalize a.toNat / 65536 % 256 = y at *
  have hcgnat := toNat_and_mask (k := 6) (octet4 a 1)
  have hbench := toNat_and_mask (k := 1) (octet4 a 1)
  rw [show BitVec.allOnes 8 <<< 6 = 0xC0 by decide, hy] at hcgnat
  rw [show BitVec.allOnes 8 <<< 1 = 0xFE by decide, hy] at hbench
  have h8 : a.toNat / 2 ^ (32 - 8) = x := by omega
  have h10 : a.toNat / 2 ^ (32 - 10) = x * 4 + y / 64 := by omega
  have h12 : a.toNat / 2 ^ (32 - 12) = x * 16 + y / 16 := by omega
  have h15 : a.toNat / 2 ^ (32 - 15) = x * 128 + y / 2 := by omega
  have h16 : a.toNat / 2 ^ (32 - 16) = x * 256 + y := by omega
  have h32 : a.toNat / 2 ^ (32 - 32) = a.toNat := by omega
  unfold isPrivateIpv4 BlockedV4 blockedV4 Ipv4Addr.isLoopback Ipv4Addr.isPrivate
    Ipv4Addr.isLinkLocal Ipv4Addr.isBroadcast
  simp only [Bool.or_eq_true, Bool.and_eq_true, beq_iff_eq, decide_eq_true_eq, ← BitVec.toNat_inj,
    BitVec.le_def, hcgnat, hbench, hx, hy, List.mem_cons, List.not_mem_nil, or_false,
    exists_eq_or_imp, exists_eq_left, contains_iff, h8, h10, h12, h15, h16, h32, or_assoc]
  -- One range after the other, in the order of the source.
  refine or_congr ?_ (or_congr ?_ (or_congr ?_ (or_congr ?_ (or_congr ?_ (or_congr ?_ (or_congr ?_
    (or_congr ?_ ?_)))))))
  all_goals
    simp only [v4, BitVec.toNat_ofNat, BitVec.reduceToNat, Nat.reduceSub, Nat.reduceMul,
      Nat.reducePow, Nat.reduceAdd, Nat.reduceMod, Nat.reduceDiv] <;> omega

/-! ## IPv6 -/

theorem toIpv4_eq (a : Ipv6Addr) :
    toIpv4 a = if a.toNat / 2 ^ 32 = 0 ∨ a.toNat / 2 ^ 32 = 0xffff then some (lastFour a)
      else none := by
  have ha := a.isLt
  have hsegments : (segment a 0 = 0 ∧ segment a 1 = 0 ∧ segment a 2 = 0 ∧ segment a 3 = 0 ∧
      segment a 4 = 0 ∧ (segment a 5 = 0 ∨ segment a 5 = 0xffff)) ↔
      a.toNat / 2 ^ 32 = 0 ∨ a.toNat / 2 ^ 32 = 0xffff := by
    simp only [← BitVec.toNat_inj, toNat_segment, BitVec.reduceToNat, Nat.reduceSub, Nat.reduceMul,
      Nat.reducePow]
    generalize a.toNat = n at *
    constructor
    · rintro ⟨h0, h1, h2, h3, h4, h5 | h5⟩
      · omega
      · omega
    · rintro (h | h)
      · refine ⟨?_, ?_, ?_, ?_, ?_, Or.inl ?_⟩ <;> omega
      · refine ⟨?_, ?_, ?_, ?_, ?_, Or.inr ?_⟩ <;> omega
  unfold toIpv4
  simp only [hsegments]

def octetsValue (bs : List (BitVec 8)) : Nat := bs.foldl (fun n b => n * 256 + b.toNat) 0

theorem octetsValue_append (bs : List (BitVec 8)) (b : BitVec 8) :
    octetsValue (bs ++ [b]) = octetsValue bs * 256 + b.toNat := by
  unfold octetsValue
  simp

theorem octetsValue_injective {bs cs : List (BitVec 8)} (hlength : bs.length = cs.length)
    (h : octetsValue bs = octetsValue cs) : bs = cs := by
  induction bs using List.reverseRecOn generalizing cs with
  | nil => exact (List.eq_nil_of_length_eq_zero hlength.symm).symm
  | append_singleton bs b ih =>
    rcases List.eq_nil_or_concat cs with rfl | ⟨cs, c, rfl⟩
    · simp at hlength
    · rw [List.concat_eq_append] at *
      rw [octetsValue_append, octetsValue_append] at h
      have hb := b.isLt
      have hc := c.isLt
      rw [ih (by simpa using hlength) (by omega), BitVec.eq_of_toNat_eq (by omega : b.toNat = c.toNat)]

theorem octetsValue_take (a : Ipv6Addr) {k : Nat} (hk : k ≤ 16) :
    octetsValue ((octets a).take k) = a.toNat / 2 ^ (128 - 8 * k) := by
  induction k with
  | zero => exact (Nat.div_eq_of_lt a.isLt).symm
  | succ k ih =>
    have hlength : k < (octets a).length := by
      rw [show (octets a).length = 16 by simp [octets]]
      exact hk
    rw [List.take_succ_eq_append_getElem hlength, octetsValue_append, ih (by omega)]
    have hnext : (octets a)[k] = a.extractLsb' (8 * (15 - k)) 8 := by simp [octets]
    rw [hnext, BitVec.extractLsb'_toNat, Nat.shiftRight_eq_div_pow,
      show 128 - 8 * k = 8 * (15 - k) + 8 by omega, show 128 - 8 * (k + 1) = 8 * (15 - k) by omega,
      pow_add, ← Nat.div_div_eq_div_mul]
    generalize a.toNat / 2 ^ (8 * (15 - k)) = n
    omega

theorem embeddedIpv4_eq (a : Ipv6Addr) {start : List (BitVec 8)} (hstart : start.length = 12) :
    embeddedIpv4 a start =
      if a.toNat / 2 ^ 32 = octetsValue start then some (lastFour a) else none := by
  have hstarts : start.isPrefixOf (octets a) = true ↔ a.toNat / 2 ^ 32 = octetsValue start := by
    rw [List.isPrefixOf_iff_prefix, List.prefix_iff_eq_take, hstart,
      ← octetsValue_take a (by decide : 12 ≤ 16)]
    constructor
    · intro h
      rw [← h]
    · intro h
      refine octetsValue_injective ?_ h.symm
      rw [hstart, List.length_take]
      simp [octets]
  unfold embeddedIpv4
  simp only [hstarts]

theorem embeds_iff (a : Ipv6Addr) :
    Embeds a ↔ a.toNat / 2 ^ 32 = 0 ∨ a.toNat / 2 ^ 32 = 0xffff ∨
      a.toNat / 2 ^ 32 = octetsValue ipv4TranslatedPrefix ∨
      a.toNat / 2 ^ 32 = octetsValue nat64WellKnownPrefix := by
  have htranslated : octetsValue ipv4TranslatedPrefix = 0xffff0000 := by decide
  have hnat64 : octetsValue nat64WellKnownPrefix = 0x64ff9b0000000000000000 := by decide
  unfold Embeds embeddingV6
  simp only [List.mem_cons, List.not_mem_nil, or_false, exists_eq_or_imp, exists_eq_left,
    contains_iff, htranslated, hnat64, v6, List.foldl_cons, List.foldl_nil, BitVec.toNat_ofNat,
    Nat.reduceSub, Nat.reduceMul, Nat.reducePow, Nat.reduceAdd, Nat.reduceMod, Nat.reduceDiv]

theorem isPrivateIpv6_iff (a : Ipv6Addr) :
    (a == 1 || a == 0 || segment a 0 &&& 0xfe00 == 0xfc00 || segment a 0 &&& 0xffc0 == 0xfe80 ||
      segment a 0 &&& 0xff00 == 0xff00 ||
      (segment a 0 == 0x0064 && segment a 1 == 0xff9b && segment a 2 == 1) ||
      (segment a 0 == 0x2001 && segment a 1 == 0) || segment a 0 == 0x2002 ||
      (segment a 0 == 0x2001 && segment a 1 == 0x0db8)) = true ↔
      ∃ r ∈ blockedV6, r.Contains a := by
  have ha := a.isLt
  have hula := toNat_and_mask (k := 9) (segment a 0)
  have hlink := toNat_and_mask (k := 6) (segment a 0)
  have hmulticast := toNat_and_mask (k := 8) (segment a 0)
  rw [show BitVec.allOnes 16 <<< 9 = 0xfe00 by decide] at hula
  rw [show BitVec.allOnes 16 <<< 6 = 0xffc0 by decide] at hlink
  rw [show BitVec.allOnes 16 <<< 8 = 0xff00 by decide] at hmulticast
  unfold blockedV6
  simp only [Bool.or_eq_true, Bool.and_eq_true, beq_iff_eq, ← BitVec.toNat_inj, hula, hlink,
    hmulticast, toNat_segment, List.mem_cons, List.not_mem_nil, or_false, exists_eq_or_imp,
    exists_eq_left, contains_iff, or_assoc]
  -- One range after the other, in the order of the source.
  refine or_congr ?_ (or_congr ?_ (or_congr ?_ (or_congr ?_ (or_congr ?_ (or_congr ?_ (or_congr ?_
    (or_congr ?_ ?_)))))))
  all_goals
    simp only [v6, List.foldl_cons, List.foldl_nil, BitVec.toNat_ofNat, BitVec.reduceToNat,
      Nat.reduceSub, Nat.reduceMul, Nat.reducePow, Nat.reduceAdd, Nat.reduceMod, Nat.reduceDiv,
      Nat.div_one] <;> omega

/-! ## What the filter blocks -/

theorem isPrivateIp_iff (ip : IpAddr) : isPrivateIp ip = true ↔ Blocked ip := by
  rcases ip with a | a
  · exact isPrivateIpv4_iff a
  · have htranslated : octetsValue ipv4TranslatedPrefix = 0xffff0000 := by decide
    have hnat64 : octetsValue nat64WellKnownPrefix = 0x64ff9b0000000000000000 := by decide
    have hembeds := embeds_iff a
    simp only [isPrivateIp, Blocked, toIpv4_eq, embeddedIpv4_eq a (rfl : ipv4TranslatedPrefix.length = 12),
      embeddedIpv4_eq a (rfl : nat64WellKnownPrefix.length = 12), hembeds, htranslated, hnat64,
      ← isPrivateIpv4_iff, ← isPrivateIpv6_iff]
    generalize a.toNat / 2 ^ 32 = start
    by_cases hcompatible : start = 0 ∨ start = 0xffff
    · rcases hcompatible with rfl | rfl <;> simp
    · by_cases hwell : start = 0x64ff9b0000000000000000
      · simp [hwell]
      · by_cases hsiit : start = 0xffff0000
        · simp [hsiit]
        · simp only [not_or] at hcompatible
          simp [hcompatible, hwell, hsiit]

def embed (r : Cidr 128) (b : Ipv4Addr) : Ipv6Addr := r.net + b.setWidth 128

theorem embed_spec {r : Cidr 128} (hr : r ∈ embeddingV6) (b : Ipv4Addr) :
    Embeds (embed r b) ∧ lastFour (embed r b) = b := by
  have hb := b.isLt
  have hvalue : ∃ start < 2 ^ 96, r.net.toNat = start * 2 ^ 32 ∧ r.len = 96 := by
    unfold embeddingV6 at hr
    simp only [List.mem_cons, List.not_mem_nil, or_false] at hr
    rcases hr with rfl | rfl | rfl | rfl
    · exact ⟨0, by decide, by decide, rfl⟩
    · exact ⟨0xffff, by decide, by decide, rfl⟩
    · exact ⟨0xffff0000, by decide, by decide, rfl⟩
    · exact ⟨0x64ff9b0000000000000000, by decide, by decide, rfl⟩
  obtain ⟨start, hstart, hnet, hlen⟩ := hvalue
  have hsum : (embed r b).toNat = start * 2 ^ 32 + b.toNat := by
    unfold embed
    rw [BitVec.toNat_add, BitVec.toNat_setWidth, hnet]
    omega
  constructor
  · refine ⟨r, hr, contains_iff.mpr ?_⟩
    rw [hlen, hsum, hnet]
    omega
  · apply BitVec.eq_of_toNat_eq
    rw [toNat_lastFour, hsum]
    omega

/-- The filter blocks just the documented ranges, and it judges every spelling of an IPv4 address
behind one of the prefixes as the address itself. -/
theorem is_private_ip_exact :
    (∀ ip, isPrivateIp ip = true ↔ Blocked ip) ∧
      ∀ r ∈ embeddingV6, ∀ b : Ipv4Addr,
        isPrivateIp (.v6 (embed r b)) = isPrivateIp (.v4 b) := by
  refine ⟨isPrivateIp_iff, fun r hr b => ?_⟩
  obtain ⟨hembeds, hlast⟩ := embed_spec hr b
  rw [Bool.eq_iff_iff, isPrivateIp_iff, isPrivateIp_iff]
  unfold Blocked
  simp only [if_pos hembeds, hlast]

end Vingilot.Network
