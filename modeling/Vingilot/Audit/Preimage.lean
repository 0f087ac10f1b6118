import Vingilot.Audit.Entry

/-!
# What the hash of an audit entry binds

The fields in front are read back from the bytes one by one. The actor, the object, the detail and
the previous hash have no length, so the same bytes can be cut at other places.
-/

namespace Vingilot.Audit

open Codes

/-! ## Times are read back -/

variable {w n : Nat} {c : Char} {r s : List Char}

namespace DateTime

@[simp]
theorem ofDigitChars_pad (w n : Nat) : Nat.ofDigitChars 10 (pad w n) 0 = n := by
  rw [pad, List.leftpad, Nat.ofDigitChars_append, Nat.ofDigitChars_replicate_zero, Nat.mul_zero,
    Nat.ofDigitChars_ten_toDigits]

theorem pad_injective (w : Nat) : Function.Injective (pad w) := by
  intro n m h
  rw [← ofDigitChars_pad w n, h, ofDigitChars_pad]

theorem isDigit_of_mem_pad (h : c ∈ pad w n) : c.isDigit = true := by
  rw [pad, List.leftpad, List.mem_append] at h
  rcases h with hzero | hdigit
  · rw [(List.mem_replicate.mp hzero).2]
    rfl
  · exact Nat.isDigit_of_mem_toDigits (by decide) (by decide) hdigit

theorem notMem_pad (h : c.isDigit = false) : c ∉ pad w n := by
  intro hmem
  rw [isDigit_of_mem_pad hmem] at h
  cases h

theorem length_pad (hw : 0 < w) (hn : n < 10 ^ w) : (pad w n).length = w := by
  rw [pad, List.length_leftpad]
  have := (Nat.length_toDigits_le_iff (by decide) hw).mpr hn
  omega

theorem pad_append {m : Nat} (hw : 0 < w) (hn : n < 10 ^ w) (hm : m < 10 ^ w)
    (h : pad w n ++ r = pad w m ++ s) : n = m ∧ r = s := by
  obtain ⟨hpad, hrest⟩ := List.append_inj h (by rw [length_pad hw hn, length_pad hw hm])
  exact ⟨pad_injective w hpad, hrest⟩

theorem pad_two_cons {m : Nat} (hn : n < 100) (hm : m < 100)
    (h : pad 2 n ++ c :: r = pad 2 m ++ c :: s) : n = m ∧ r = s := by
  obtain ⟨hnm, hrest⟩ := pad_append (by decide) (by simpa using hn) (by simpa using hm) h
  exact ⟨hnm, (List.cons.inj hrest).2⟩

theorem pad_ne_cons (hw : 0 < w) (hc : c.isDigit = false) : pad w n ++ r ≠ c :: s := by
  intro h
  cases hpad : pad w n with
  | nil =>
    have hlen : (pad w n).length = max w (Nat.toDigits 10 n).length := List.length_leftpad
    rw [hpad, List.length_nil] at hlen
    omega
  | cons d ds =>
    rw [hpad, List.cons_append] at h
    have hmem : d ∈ pad w n := by simp [hpad]
    rw [(List.cons.inj h).1] at hmem
    exact notMem_pad hc hmem

theorem isDigit_sign (y : Int) : (sign y).isDigit = false := by
  unfold sign
  split_ifs <;> rfl

theorem yearText_append {y z : Int} (h : yearText y ++ '-' :: r = yearText z ++ '-' :: s) :
    y = z ∧ r = s := by
  unfold yearText at h
  split_ifs at h with hy hz hz
  · simp only [List.append_assoc] at h
    obtain ⟨hhigh, hrest⟩ := pad_append (by decide) (by omega) (by omega) h
    obtain ⟨hlow, hrest⟩ := pad_two_cons (by omega) (by omega) hrest
    exact ⟨by omega, hrest⟩
  · rw [List.append_assoc, List.cons_append] at h
    exact absurd h (pad_ne_cons (by decide) (isDigit_sign z))
  · rw [List.append_assoc, List.cons_append] at h
    exact absurd h.symm (pad_ne_cons (by decide) (isDigit_sign y))
  · rw [List.cons_append, List.cons_append] at h
    obtain ⟨hsame, hdigits⟩ := List.cons.inj h
    obtain ⟨hpad, hrest⟩ := split_at_separator (notMem_pad rfl) (notMem_pad rfl) hdigits
    have habs := pad_injective 4 hpad
    refine ⟨?_, hrest⟩
    unfold sign at hsame
    split_ifs at hsame with hy0 hz0 hz0
    · omega
    · cases hsame
    · cases hsame
    · omega

theorem notMem_fraction : '+' ∉ fraction n := by
  unfold fraction
  have hpad : ∀ w m, '+' ∉ '.' :: pad w m := by
    intro w m hmem
    rcases List.mem_cons.mp hmem with heq | hmem
    · cases heq
    · exact notMem_pad rfl hmem
  split_ifs
  · exact List.not_mem_nil
  · exact hpad _ _
  · exact hpad _ _
  · exact hpad _ _

def nanosOf (text : List Char) : Nat :=
  Nat.ofDigitChars 10 text.tail 0 * 10 ^ (10 - text.length)

theorem nanosOf_fraction (hn : n < 1000000000) : nanosOf (fraction n) = n := by
  have hpoint : ∀ w k, 0 < w → w ≤ 9 → k < 10 ^ w →
      nanosOf ('.' :: pad w k) = k * 10 ^ (9 - w) := by
    intro w k hw hle hk
    rw [nanosOf, List.tail_cons, ofDigitChars_pad, List.length_cons, length_pad hw hk,
      show 10 - (w + 1) = 9 - w by omega]
  unfold fraction
  split_ifs with hzero hmillis hmicros
  · rw [hzero]
    rfl
  · rw [hpoint 3 _ (by decide) (by decide) (by omega)]
    omega
  · rw [hpoint 6 _ (by decide) (by decide) (by omega)]
    omega
  · rw [hpoint 9 _ (by decide) (by decide) (by omega)]
    omega

def written (t : DateTime) : Nat × Nat :=
  if 1000000000 ≤ t.nanosecond then (t.second + 1, t.nanosecond - 1000000000)
  else (t.second, t.nanosecond)

theorem written_lt (t : DateTime) : t.written.1 < 100 ∧ t.written.2 < 1000000000 := by
  have hsecond := t.second_lt
  have hnano := t.nanosecond_lt
  unfold written
  split_ifs with hleap
  · exact ⟨by omega, by omega⟩
  · exact ⟨by omega, by omega⟩

theorem written_injective {t u : DateTime} (h : t.written = u.written) :
    t.second = u.second ∧ t.nanosecond = u.nanosecond := by
  have ht := t.leap
  have hu := u.leap
  have hts := t.second_lt
  have hus := u.second_lt
  unfold written at h
  split_ifs at h with htleap huleap huleap <;> rw [Prod.mk.injEq] at h
  · omega
  · omega
  · omega
  · exact h

theorem toRfc3339_eq (t : DateTime) : t.toRfc3339 = yearText t.year ++ '-' :: (pad 2 t.month ++
    '-' :: (pad 2 t.day ++ 'T' :: (pad 2 t.hour ++ ':' :: (pad 2 t.minute ++ ':' ::
      (pad 2 t.written.1 ++ (fraction t.written.2 ++ '+' :: "00:00".toList)))))) := by
  have hzone : "+00:00".toList = '+' :: "00:00".toList := rfl
  unfold toRfc3339 written
  rw [hzone]
  split_ifs <;> simp only [List.append_assoc, List.cons_append]

theorem selfDelimiting_toRfc3339 : SelfDelimiting toRfc3339 := by
  intro t u r s h
  simp only [toRfc3339_eq, List.append_assoc, List.cons_append] at h
  have hday : ∀ v : DateTime, v.day < 100 := by
    intro v
    have := v.day_range.2
    unfold daysIn at this
    split_ifs at this <;> omega
  obtain ⟨hyear, h⟩ := yearText_append h
  obtain ⟨hmonth, h⟩ := pad_two_cons (by have := t.month_range; omega)
    (by have := u.month_range; omega) h
  obtain ⟨hday, h⟩ := pad_two_cons (hday t) (hday u) h
  obtain ⟨hhour, h⟩ := pad_two_cons (by have := t.hour_lt; omega) (by have := u.hour_lt; omega) h
  obtain ⟨hminute, h⟩ := pad_two_cons (by have := t.minute_lt; omega)
    (by have := u.minute_lt; omega) h
  obtain ⟨hsecond, h⟩ := pad_append (by decide) (by have := t.written_lt; omega)
    (by have := u.written_lt; omega) h
  obtain ⟨hfraction, h⟩ := split_at_separator notMem_fraction notMem_fraction h
  have hnano : t.written.2 = u.written.2 := by
    rw [← nanosOf_fraction t.written_lt.2, hfraction, nanosOf_fraction u.written_lt.2]
  obtain ⟨hsec, hnanos⟩ := written_injective (Prod.ext hsecond hnano)
  refine ⟨?_, List.append_cancel_left h⟩
  cases t
  cases u
  simp only at hyear hmonth hday hhour hminute hsec hnanos
  subst hyear hmonth hday hhour hminute hsec hnanos
  rfl

end DateTime

/-! ## The fields in front -/

theorem AuditAction.selfDelimiting : SelfDelimiting fun a : AuditAction => a.asStr.toList := by
  rw [selfDelimiting_iff]
  have hall : ∀ a ∈ AuditAction.all, ∀ b ∈ AuditAction.all,
      a.asStr.toList <+: b.asStr.toList → a = b := by decide +kernel
  have hmem : ∀ a : AuditAction, a ∈ AuditAction.all := by
    intro a
    cases a <;> decide
  exact fun a b => hall a (hmem a) b (hmem b)

theorem selfDelimiting_community : SelfDelimiting fun c : Uuid => beBytes 16 c.toNat := by
  refine SelfDelimiting.of_length 16 (fun c => length_beBytes 16 _) ?_
  intro c d h
  exact BitVec.eq_of_toNat_eq (beBytes_inj (by have := c.isLt; omega) (by have := d.isLt; omega) h)

theorem selfDelimiting_seq : SelfDelimiting fun n : Int64 => beBytes 8 n.toBitVec.toNat := by
  refine SelfDelimiting.of_length 8 (fun n => length_beBytes 8 _) ?_
  intro n m h
  have hn := n.toBitVec.isLt
  have hm := m.toBitVec.isLt
  exact Int64.toBitVec_inj.mp (BitVec.eq_of_toNat_eq (beBytes_inj (by omega) (by omega) h))

structure SameHead (a b : AuditEntry) : Prop where
  communityId : a.communityId = b.communityId
  seq : a.seq = b.seq
  createdAt : toStoragePrecision a.createdAt = toStoragePrecision b.createdAt
  action : a.action = b.action

structure SameFields (a b : AuditEntry) : Prop extends SameHead a b where
  actorPubkey : a.actorPubkey = b.actorPubkey
  objectId : a.objectId = b.objectId
  detail : a.detail = b.detail
  prevHash : a.prevHash = b.prevHash

def objectPart (e : AuditEntry) : List UInt8 := tagged (e.objectId.map fun id => utf8 id.toList)

def detailPart (e : AuditEntry) : List UInt8 := utf8 (canonicalJson e.detail.value)

def prevPart (e : AuditEntry) : List UInt8 := e.prevHash.getD genesisHash

def tail (e : AuditEntry) : List UInt8 :=
  tagged e.actorPubkey ++ (objectPart e ++ (detailPart e ++ prevPart e))

theorem hashed_eq_iff (a b : AuditEntry) :
    hashed a = hashed b ↔ SameHead a b ∧ tail a = tail b := by
  have hparts : ∀ e, hashed e = beBytes 16 e.communityId.toNat ++ (beBytes 8 e.seq.toBitVec.toNat ++
      (utf8 (toStoragePrecision e.createdAt).toRfc3339 ++ (utf8 e.action.asStr.toList ++
        tail e))) := by
    intro e
    simp only [hashed, tail, objectPart, detailPart, prevPart, List.append_assoc]
  constructor
  · intro h
    rw [hparts, hparts] at h
    obtain ⟨hcommunity, h⟩ := selfDelimiting_community _ _ _ _ h
    obtain ⟨hseq, h⟩ := selfDelimiting_seq _ _ _ _ h
    obtain ⟨htime, h⟩ := DateTime.selfDelimiting_toRfc3339.utf8 _ _ _ _ h
    obtain ⟨haction, h⟩ := AuditAction.selfDelimiting.utf8 _ _ _ _ h
    exact ⟨⟨hcommunity, hseq, htime, haction⟩, h⟩
  · rintro ⟨⟨hcommunity, hseq, htime, haction⟩, htail⟩
    rw [hparts, hparts, hcommunity, hseq, htime, haction, htail]

/-! ## The other fields -/

theorem tagged_injective : Function.Injective tagged := by
  intro x y h
  cases x with
  | none =>
    cases y with
    | none => rfl
    | some y => cases (List.cons.inj h).1
  | some x =>
    cases y with
    | none => cases (List.cons.inj h).1
    | some y => rw [(List.cons.inj h).2]

variable {a b : AuditEntry}

theorem objectPart_inj : objectPart a = objectPart b ↔ a.objectId = b.objectId := by
  constructor
  · intro h
    have htext : Function.Injective fun id : String => utf8 id.toList := by
      intro x y hxy
      exact String.toList_injective (utf8_injective hxy)
    exact Option.map_injective htext (tagged_injective h)
  · intro h
    rw [objectPart, h, objectPart]

theorem sortKeys_of_ascending {v : Json.Value} (h : Ascending v) : sortKeys v = v := by
  induction h with
  | null => rw [sortKeys]
  | bool b => rw [sortKeys]
  | num text => rw [sortKeys]
  | str s => rw [sortKeys]
  | arr items hitems ih =>
    have hsame : sortItems items = items := by
      clear hitems
      induction items with
      | nil => rw [sortItems]
      | cons v vs ihs =>
        rw [sortItems, ih v List.mem_cons_self, ihs fun w hw => ih w (List.mem_cons_of_mem _ hw)]
    rw [sortKeys, hsame]
  | obj members hmembers hkeys ih =>
    have hsame : sortMembers members = members := by
      clear hmembers hkeys
      induction members with
      | nil => rw [sortMembers]
      | cons m ms ihs =>
        obtain ⟨key, v⟩ := m
        rw [sortMembers, ih (key, v) List.mem_cons_self,
          ihs fun w hw => ih w (List.mem_cons_of_mem _ hw)]
    rw [sortKeys, hsame, (hkeys.imp fun h => le_of_lt h).insertionSort_eq]

theorem detailPart_inj : detailPart a = detailPart b ↔ a.detail = b.detail := by
  constructor
  · intro h
    have htext : Json.render a.detail.value = Json.render b.detail.value := by
      have hcanonical := utf8_injective h
      rw [canonicalJson, canonicalJson, sortKeys_of_ascending a.detail.ascending,
        sortKeys_of_ascending b.detail.ascending] at hcanonical
      exact hcanonical
    have hvalue : some a.detail.value = some b.detail.value := by
      rw [← Json.parse_render a.detail.valid, htext, Json.parse_render b.detail.valid]
    cases ha : a.detail
    cases hb : b.detail
    rw [ha, hb] at hvalue
    cases hvalue
    rfl
  · intro h
    rw [detailPart, h, detailPart]

/-- Bytes at a border between two fields are in the first of them in one entry and in the second in
the other, or one entry stores the genesis hash where the other stores none. -/
inductive BorderMoved (a b : AuditEntry) : Prop where
  | actor (h : Recut (tagged a.actorPubkey) (objectPart a ++ (detailPart a ++ prevPart a))
      (tagged b.actorPubkey) (objectPart b ++ (detailPart b ++ prevPart b)))
  | object (hactor : a.actorPubkey = b.actorPubkey)
      (h : Recut (objectPart a) (detailPart a ++ prevPart a)
        (objectPart b) (detailPart b ++ prevPart b))
  | detail (hactor : a.actorPubkey = b.actorPubkey) (hobject : a.objectId = b.objectId)
      (h : Recut (detailPart a) (prevPart a) (detailPart b) (prevPart b))
  | genesis (hactor : a.actorPubkey = b.actorPubkey) (hobject : a.objectId = b.objectId)
      (hdetail : a.detail = b.detail)
      (h : a.prevHash = none ∧ b.prevHash = some genesisHash ∨
        a.prevHash = some genesisHash ∧ b.prevHash = none)

theorem prevPart_eq_iff : prevPart a = prevPart b ↔
    a.prevHash = b.prevHash ∨ a.prevHash = none ∧ b.prevHash = some genesisHash ∨
      a.prevHash = some genesisHash ∧ b.prevHash = none := by
  unfold prevPart
  cases ha : a.prevHash with
  | none =>
    cases hb : b.prevHash with
    | none => simp
    | some y => simp [eq_comm]
  | some x =>
    cases hb : b.prevHash with
    | none => simp
    | some y => simp

theorem tail_eq_iff (a b : AuditEntry) : tail a = tail b ↔
    (a.actorPubkey = b.actorPubkey ∧ a.objectId = b.objectId ∧ a.detail = b.detail ∧
      a.prevHash = b.prevHash) ∨ BorderMoved a b := by
  constructor
  · intro h
    rcases append_eq_append_iff_recut.mp h with ⟨hactor, h⟩ | hmoved
    · have hactor := tagged_injective hactor
      rcases append_eq_append_iff_recut.mp h with ⟨hobject, h⟩ | hmoved
      · have hobject := objectPart_inj.mp hobject
        rcases append_eq_append_iff_recut.mp h with ⟨hdetail, h⟩ | hmoved
        · have hdetail := detailPart_inj.mp hdetail
          rcases prevPart_eq_iff.mp h with hprev | hgenesis
          · exact .inl ⟨hactor, hobject, hdetail, hprev⟩
          · exact .inr (.genesis hactor hobject hdetail hgenesis)
        · exact .inr (.detail hactor hobject hmoved)
      · exact .inr (.object hactor hmoved)
    · exact .inr (.actor hmoved)
  · unfold tail
    rintro (⟨hactor, hobject, hdetail, hprev⟩ | hmoved)
    · rw [hactor, objectPart_inj.mpr hobject, detailPart_inj.mpr hdetail, prevPart, hprev, prevPart]
    · cases hmoved with
      | actor h => exact append_eq_append_iff_recut.mpr (.inr h)
      | object hactor h => rw [hactor, append_eq_append_iff_recut.mpr (.inr h)]
      | detail hactor hobject h =>
        rw [hactor, objectPart_inj.mpr hobject, append_eq_append_iff_recut.mpr (.inr h)]
      | genesis hactor hobject hdetail h =>
        rw [hactor, objectPart_inj.mpr hobject, detailPart_inj.mpr hdetail,
          prevPart_eq_iff.mpr (.inr h)]

theorem not_sameFields_of_borderMoved (h : BorderMoved a b) : ¬ SameFields a b := by
  intro hsame
  cases h with
  | actor h => exact ne_of_recut h (by rw [hsame.actorPubkey])
  | object _ h => exact ne_of_recut h (objectPart_inj.mpr hsame.objectId)
  | detail _ _ h => exact ne_of_recut h (detailPart_inj.mpr hsame.detail)
  | genesis _ _ _ h =>
    have hprev := hsame.prevHash
    rcases h with ⟨ha, hb⟩ | ⟨ha, hb⟩
    · rw [ha, hb] at hprev
      cases hprev
    · rw [ha, hb] at hprev
      cases hprev

/-- Two entries that differ are hashed as different bytes, unless they agree in the fields in front
and the bytes after them are cut at other borders. -/
theorem hash_binds_iff (a b : AuditEntry) :
    (¬ SameFields a b → hashed a ≠ hashed b) ↔ ¬ (SameHead a b ∧ BorderMoved a b) := by
  constructor
  · rintro h ⟨hhead, hmoved⟩
    exact h (not_sameFields_of_borderMoved hmoved)
      ((hashed_eq_iff a b).mpr ⟨hhead, (tail_eq_iff a b).mpr (.inr hmoved)⟩)
  · intro h hdiffer heq
    obtain ⟨hhead, htail⟩ := (hashed_eq_iff a b).mp heq
    rcases (tail_eq_iff a b).mp htail with ⟨hactor, hobject, hdetail, hprev⟩ | hmoved
    · exact hdiffer ⟨hhead, hactor, hobject, hdetail, hprev⟩
    · exact h ⟨hhead, hmoved⟩

def countDetail (text : List Char) (hnumber : Json.isNumber text = true)
    (hchars : ∀ c ∈ text, Json.isNumberChar c = true) : Detail :=
  ⟨.num text, .num text hnumber hchars, .num text⟩

theorem isNumberChar_one (n : Nat) : ∀ c ∈ List.replicate n '1', Json.isNumberChar c = true := by
  intro c hc
  rw [List.eq_of_mem_replicate hc]
  rfl

def demoEntry (objectId : String) (detail : Detail) : AuditEntry :=
  ⟨1, 1, [], none, .eventCreated, none, some objectId, detail, demoTime⟩

/-- The digit at the end of the object goes to the front of the detail. -/
theorem moved_digit_hashes_alike :
    ¬ ∀ a b : AuditEntry, ¬ SameFields a b → hashed a ≠ hashed b := by
  intro hall
  have hbytes : hashed (demoEntry "a" (countDetail ['1', '1'] rfl (isNumberChar_one 2))) =
      hashed (demoEntry "a1" (countDetail ['1'] rfl (isNumberChar_one 1))) := by
    decide +kernel
  refine hall _ _ ?_ hbytes
  intro hsame
  have hobject : some "a" = some "a1" := hsame.objectId
  exact absurd hobject (by decide)

end Vingilot.Audit
