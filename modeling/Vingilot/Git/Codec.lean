import Vingilot.Git.Manifest

/-!
# The bytes of a manifest tell the manifest

Up to the order and the repeats of its packs, for a manifest of any version. The reader takes only
the versions it knows.
-/

namespace Vingilot.Git

/-! ## Equal bytes -/

theorem parentJson_injective {p p' : Option String}
    (h : (match p with
      | none => Json.Value.null
      | some p => .str p) = match p' with
      | none => Json.Value.null
      | some p => .str p) : p = p' := by
  rcases p with _ | p <;> rcases p' with _ | p' <;> simp_all

theorem toJson_injective : Function.Injective Manifest.toJson := by
  intro m m' h
  obtain ⟨version, head, refs, packs, parent⟩ := m
  obtain ⟨version', head', refs', packs', parent'⟩ := m'
  unfold Manifest.toJson at h
  simp only [Json.Value.obj.injEq, List.cons.injEq, Prod.mk.injEq, Json.Value.num.injEq,
    Json.Value.str.injEq, Json.Value.arr.injEq, true_and, and_true] at h
  obtain ⟨hversion, hhead, hrefs, hpacks, hparent⟩ := h
  have hnumber : version = version' := by
    rw [← Nat.ofDigitChars_ten_toDigits (n := version), hversion, Nat.ofDigitChars_ten_toDigits]
  have hentries : refs = refs' := by
    apply OrdMap.ext
    refine List.map_injective_iff.mpr ?_ hrefs
    rintro ⟨name, oid⟩ ⟨name', oid'⟩ heq
    simpa using heq
  have hkeys : packs = packs' := by
    refine List.map_injective_iff.mpr ?_ hpacks
    intro key key' heq
    simpa using heq
  rw [hnumber, hhead, hentries, hkeys, parentJson_injective hparent]

theorem canonicalBytes_eq_iff {m m' : Manifest} :
    m.canonicalBytes = m'.canonicalBytes ↔ m.canonical = m'.canonical := by
  constructor
  · intro h
    have htext : String.ofList (Json.render m.canonical.toJson) =
        String.ofList (Json.render m'.canonical.toJson) := by
      have hread := congrArg String.fromUTF8? h
      unfold Manifest.canonicalBytes at hread
      rw [Text.fromUTF8?_toUTF8, Text.fromUTF8?_toUTF8] at hread
      exact Option.some.inj hread
    have hvalue := congrArg Json.parse (String.ofList_injective htext)
    rw [Json.parse_render (toJson_valid _), Json.parse_render (toJson_valid _)] at hvalue
    exact toJson_injective (Option.some.inj hvalue)
  · intro h
    unfold Manifest.canonicalBytes
    rw [h]

/-! ## Equal up to the packs -/

structure Manifest.SameUpToPacks (m m' : Manifest) : Prop where
  version : m.version = m'.version
  head : m.head = m'.head
  refs : m.refs = m'.refs
  packs : ∀ key, key ∈ m.packs ↔ key ∈ m'.packs
  parent : m.parent = m'.parent

theorem sortDedup_eq_iff {xs ys : List String} :
    sortDedup xs = sortDedup ys ↔ ∀ x, x ∈ xs ↔ x ∈ ys := by
  constructor
  · intro h x
    rw [← mem_sortDedup, h, mem_sortDedup]
  · intro h
    have hxs := sorted_sortDedup xs
    have hys := sorted_sortDedup ys
    have hnodup : ∀ {zs : List String}, zs.Pairwise (· < ·) → zs.Nodup :=
      fun h => h.imp ne_of_lt
    have hperm : (sortDedup xs).Perm (sortDedup ys) := by
      refine (List.perm_ext_iff_of_nodup (hnodup hxs) (hnodup hys)).mpr fun x => ?_
      rw [mem_sortDedup, mem_sortDedup, h]
    exact hperm.eq_of_pairwise (fun _ _ _ _ hlt hgt => absurd hgt (lt_asymm hlt)) hxs hys

theorem canonical_eq_iff {m m' : Manifest} :
    m.canonical = m'.canonical ↔ m.SameUpToPacks m' := by
  unfold Manifest.canonical
  rw [Manifest.mk.injEq, sortDedup_eq_iff]
  constructor
  · rintro ⟨hversion, hhead, hrefs, hpacks, hparent⟩
    exact ⟨hversion, hhead, hrefs, hpacks, hparent⟩
  · rintro ⟨hversion, hhead, hrefs, hpacks, hparent⟩
    exact ⟨hversion, hhead, hrefs, hpacks, hparent⟩

/-! ## The codec -/

/-- What is written is read back just when the version is the known one, and equal bytes are those
of manifests that are equal up to their packs. -/
theorem manifest_codec :
    (∀ m : Manifest, Manifest.fromBytes m.canonicalBytes = .ok m.canonical ↔
        m.version = manifestVersion) ∧
      (∀ m : Manifest, m.version < 2 ^ 32 → m.version ≠ manifestVersion →
        Manifest.fromBytes m.canonicalBytes =
          .error (.unsupportedVersion m.version manifestVersion)) ∧
      ∀ m m' : Manifest, m.canonicalBytes = m'.canonicalBytes ↔ m.SameUpToPacks m' := by
  refine ⟨fun m => ?_, fun m hu32 hversion => ?_, fun m m' => ?_⟩
  · constructor
    · intro h
      rw [fromBytes_canonicalBytes_eq] at h
      split_ifs at h with hu32 hversion
      exact hversion
    · exact fromBytes_canonicalBytes m
  · rw [fromBytes_canonicalBytes_eq, if_pos hu32, if_neg hversion]
  · rw [canonicalBytes_eq_iff, canonical_eq_iff]

/-- The checks of a manifest leave its version alone. -/
theorem manifest_codec_version_two :
    ¬ ∀ m : Manifest, m.validate = .ok () →
      Manifest.fromBytes m.canonicalBytes = .ok m.canonical := by
  intro h
  have hread := h ⟨2, "refs/heads/main", .empty, [], none⟩ (by decide)
  rw [fromBytes_canonicalBytes_eq] at hread
  simp [manifestVersion] at hread

end Vingilot.Git
