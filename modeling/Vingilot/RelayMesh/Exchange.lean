import Vingilot.RelayMesh.Convergence

/-!
# A full exchange of digests and deltas

Each side answers the other's digest and takes all records of the answer to its own. Nothing else
happens in between, so both end with the newest that either had.
-/

namespace Vingilot.RelayMesh

open Machine
open Tunnel (RuntimeId)

variable {i k : Nat} {r s : RuntimeId} {p : GossipRecord}

namespace Gossip

variable {v : String → String → List Char → Bool} {w w' : Gossip} {a : GossipAction}
  {bs : List GossipAction}

/-- The digest of `x` goes to `y`, which answers it, and `x` takes all records of the answer. -/
def Answered (v : String → String → List Char → Bool) (w : Gossip) (x y : RuntimeId)
    (bs : List GossipAction) (w' : Gossip) : Prop :=
  ∃ b₀ b₁ b₂ w₀ w₁ records,
    bs = b₀ ++ GossipAction.sendDigest x y :: (b₁ ++ GossipAction.answer w₀.sent.length :: b₂) ∧
    run (gossipStep v) w b₀ = some w₀ ∧
    run (gossipStep v) w (b₀ ++ GossipAction.sendDigest x y :: b₁) = some w₁ ∧
    w'.sent[w₁.sent.length]? = some ⟨y, x, .delta records⟩ ∧
    ∀ j < records.length, .apply w₁.sent.length j ∈ b₂

/-- A step of an exchange between `x` and `y` that has begun when `n` frames had been sent. -/
inductive ExchangeStep (n : Nat) (x y : RuntimeId) : GossipAction → Prop where
  | there : ExchangeStep n x y (.sendDigest x y)
  | back : ExchangeStep n x y (.sendDigest y x)
  | answer {i : Nat} (h : n ≤ i) : ExchangeStep n x y (.answer i)
  | apply {i : Nat} (j : Nat) (h : n ≤ i) : ExchangeStep n x y (.apply i j)

structure FullExchange (v : String → String → List Char → Bool) (w : Gossip) (x y : RuntimeId)
    (bs : List GossipAction) (w' : Gossip) : Prop where
  run : run (gossipStep v) w bs = some w'
  only : ∀ a ∈ bs, ExchangeStep w.sent.length x y a
  there : Answered v w x y bs w'
  back : Answered v w y x bs w'

/-! ## What only grows -/

theorem sent_step (hstep : gossipStep v w a = some w') : w.sent <+: w'.sent := by
  rcases gossipStep_cases hstep with ⟨x, pubkey, sig, addrs, proto, caps, now, rfl, -, rfl⟩ |
    ⟨q, mq, m', -, -, rfl⟩ | ⟨q, u, now, mq, rfl, -, rfl⟩ | ⟨_, _, message, _, -, -, rfl⟩
  · exact List.prefix_rfl
  · exact List.prefix_rfl
  · exact List.prefix_rfl
  · exact List.prefix_append _ _

theorem sent_run (hrun : run (gossipStep v) w bs = some w') {f : GossipFrame}
    (hf : w.sent[i]? = some f) : w'.sent[i]? = some f := by
  obtain ⟨later, hlater⟩ := run_related (fun w w' : Gossip => w.sent <+: w'.sent)
    (fun _ => List.prefix_rfl) (fun _ _ _ h h' => h.trans h')
    (fun _ _ _ hstep => sent_step hstep) hrun
  rw [← hlater, List.getElem?_append_left (List.getElem?_eq_some_iff.mp hf).1, hf]

theorem record_eq {x : RuntimeId} : w.record r x = some p ↔
    ∃ m, w.members.get? r = some m ∧ m.record x = some p := by
  rw [record, Option.bind_eq_some_iff]

theorem Inv.rises (h : w.Inv) (hrun : run (gossipStep v) w bs = some w') {x : RuntimeId}
    (hp : w.record r x = some p) : ∃ p', w'.record r x = some p' ∧ p.version ≤ p'.version := by
  induction bs generalizing w p with
  | nil =>
    cases hrun
    exact ⟨p, hp, Nat.le_refl _⟩
  | cons a bs ih =>
    obtain ⟨t, ht, hrest⟩ := run_cons_some.mp hrun
    obtain ⟨m, hm, hp⟩ := record_eq.mp hp
    obtain ⟨m', hm', -, hrises, -⟩ := h.member_step ht hm
    obtain ⟨q, hq, hle⟩ := hrises x p hp
    obtain ⟨p', hp', hle'⟩ := ih (inv_step h ht) hrest (record_eq.mpr ⟨m', hm', hq⟩)
    exact ⟨p', hp', Nat.le_trans hle hle'⟩

theorem Inv.own (h : w.Inv) (hrun : run (gossipStep v) w bs = some w')
    (hno : ∀ u now, GossipAction.update r u now ∉ bs) (hp : w.record r r = some p) :
    w'.record r r = some p := by
  induction bs generalizing w with
  | nil =>
    cases hrun
    exact hp
  | cons a bs ih =>
    obtain ⟨t, ht, hrest⟩ := run_cons_some.mp hrun
    obtain ⟨m, hm, hp⟩ := record_eq.mp hp
    obtain ⟨m', hm', hid, -, hown⟩ := h.member_step ht hm
    have hlocal := hown fun u now ha => hno u now (ha ▸ List.mem_cons_self)
    refine ih (inv_step h ht) hrest (fun u now hmem => hno u now (List.mem_cons_of_mem _ hmem))
      (record_eq.mpr ⟨m', hm', ?_⟩)
    have hr := (h.member r m hm).1
    rw [← hr, m.record_own] at hp
    rw [← hr, ← hid, m'.record_own, hlocal, hp]

/-! ## One direction -/

theorem Inv.apply (h : w.Inv) {j : Nat} {records : List GossipRecord}
    (hstep : gossipStep v w (.apply i j) = some w')
    (hframe : w.sent[i]? = some ⟨s, r, .delta records⟩) (hp : records[j]? = some p) :
    ∃ p', w'.record r p.runtimeId = some p' ∧ p.version ≤ p'.version := by
  simp only [gossipStep, hframe, hp] at hstep
  split at hstep
  · next m q hm hq =>
    cases hq
    cases hstep
    have hget := (get?_setMember (w := w) r r (m.applyGossipRecord p).1).trans (if_pos rfl)
    have hrecord := m.record_applyGossipRecord p p.runtimeId
    by_cases hown : p.runtimeId = m.localRuntimeId
    · rw [if_neg (fun htake => htake.2.1 hown)] at hrecord
      have haround : w.Around p :=
        Or.inr (Or.inl ⟨_, List.mem_of_getElem? hframe, List.mem_of_getElem? hp⟩)
      obtain ⟨m', hm', -, hle⟩ := h.reached p haround
      rw [hown, (h.member r m hm).1, hm] at hm'
      cases hm'
      refine ⟨m.localRecord, record_eq.mpr ⟨_, hget, ?_⟩, hle⟩
      rw [hrecord, hown, m.record_own]
    · by_cases hnewer : (m.record p.runtimeId).all (fun q => q.version < p.version) = true
      · rw [if_pos ⟨rfl, hown, hnewer⟩] at hrecord
        exact ⟨p, record_eq.mpr ⟨_, hget, hrecord⟩, Nat.le_refl _⟩
      · rw [if_neg (fun htake => hnewer htake.2.2)] at hrecord
        cases hold : m.record p.runtimeId with
        | none =>
          rw [hold] at hnewer
          exact absurd rfl hnewer
        | some q =>
          rw [hold] at hnewer hrecord
          simp only [Option.all_some, decide_eq_true_eq, Nat.not_lt] at hnewer
          exact ⟨q, record_eq.mpr ⟨_, hget, hrecord⟩, hnewer⟩
  · cases hstep

theorem Inv.answered (h : w.Inv) {x y : RuntimeId} (hrun : run (gossipStep v) w bs = some w')
    (hanswered : Answered v w x y bs w') {z : RuntimeId} (hp : w.record y z = some p) :
    ∃ p', w'.record x z = some p' ∧ p.version ≤ p'.version := by
  obtain ⟨b₀, b₁, b₂, w₀, w₁, records, rfl, hrun₀, hrun₁, hframe, happly⟩ := hanswered
  have hsplit : b₀ ++ GossipAction.sendDigest x y :: (b₁ ++ GossipAction.answer w₀.sent.length :: b₂) =
      (b₀ ++ GossipAction.sendDigest x y :: b₁) ++ (GossipAction.answer w₀.sent.length :: b₂) := by simp
  rw [hsplit] at hrun
  obtain ⟨t, ht, hrest⟩ := run_append_some.mp hrun
  cases hrun₁.symm.trans ht
  obtain ⟨w₂, hanswer, htail⟩ := run_cons_some.mp hrest
  obtain ⟨t, ht, hmiddle⟩ := run_append_some.mp hrun₁
  cases hrun₀.symm.trans ht
  obtain ⟨u, hsend, hwait⟩ := run_cons_some.mp hmiddle
  have hinv₀ : w₀.Inv := run_invariant Inv (fun _ _ _ hi hs => inv_step hi hs) h hrun₀
  have hinv₁ : w₁.Inv := run_invariant Inv (fun _ _ _ hi hs => inv_step hi hs) h hrun₁
  have hinv₂ : w₂.Inv := inv_step hinv₁ hanswer
  -- The digest that is answered is the one that `x` has sent.
  simp only [gossipStep] at hsend
  split at hsend
  · next m hm =>
    cases hsend
    have hdigest : w₁.sent[w₀.sent.length]? = some ⟨x, y, .digest m.digest⟩ :=
      sent_run hwait List.getElem?_concat_length
    simp only [gossipStep, hdigest] at hanswer
    split at hanswer
    · next n hn =>
      cases hanswer
      have hdelta : w'.sent[w₁.sent.length]? = some ⟨y, x, .delta (n.deltaFor m.digest)⟩ :=
        sent_run htail List.getElem?_concat_length
      rw [hframe] at hdelta
      cases hdelta
      obtain ⟨q, hq, hle⟩ := h.rises hrun₁ hp
      obtain ⟨n', hn', hq⟩ := record_eq.mp hq
      cases hn.symm.trans hn'
      have hid := (hinv₁.member y n hn).2.record hq
      by_cases hsent : q ∈ n.deltaFor m.digest
      · -- The record is in the answer, and `x` takes it.
        obtain ⟨j, hj, hget⟩ := List.getElem_of_mem hsent
        obtain ⟨c, d, rfl⟩ := List.append_of_mem (happly j hj)
        obtain ⟨w₃, hrun₃, hlast⟩ := run_append_some.mp htail
        obtain ⟨w₄, hstep₄, hrun₄⟩ := run_cons_some.mp hlast
        have hinv₃ : w₃.Inv := run_invariant Inv (fun _ _ _ hi hs => inv_step hi hs) hinv₂ hrun₃
        have hframe₃ : w₃.sent[w₁.sent.length]? = some ⟨y, x, .delta (n.deltaFor m.digest)⟩ :=
          sent_run hrun₃ List.getElem?_concat_length
        obtain ⟨q', hq', hle'⟩ := hinv₃.apply hstep₄ hframe₃
          ((List.getElem?_eq_getElem hj).trans (congrArg some hget))
        rw [hid] at hq'
        obtain ⟨p', hp', hle''⟩ := (inv_step hinv₃ hstep₄).rises hrun₄ hq'
        exact ⟨p', hp', by omega⟩
      · -- The digest has said that `x` knows it.
        rw [MeshMembership.mem_deltaFor, (hinv₁.member y n hn).2.mem_records,
          (hinv₀.member x m hm).2.get?_digest, hid, hq] at hsent
        simp only [true_and] at hsent
        cases hknown : m.record z with
        | none => simp [hknown] at hsent
        | some q₀ =>
          simp only [hknown, Option.map_some, Option.all_some, decide_eq_true_eq,
            Nat.not_lt] at hsent
          have hstart : w₀.record x z = some q₀ := record_eq.mpr ⟨m, hm, hknown⟩
          have hrunAll : run (gossipStep v) w₀ (.sendDigest x y :: (b₁ ++
              .answer w₀.sent.length :: b₂)) = some w' := by
            rw [← hsplit] at hrun
            obtain ⟨t, ht, hall⟩ := run_append_some.mp hrun
            cases hrun₀.symm.trans ht
            exact hall
          obtain ⟨p', hp', hle'⟩ := hinv₀.rises hrunAll hstart
          exact ⟨p', hp', by omega⟩
    · cases hanswer
  · cases hsend

/-! ## Both directions -/

/-- What both sides and their frames carry is no newer than `bound`. -/
structure Within (n : Nat) (x y : RuntimeId) (bound : RuntimeId → Nat) (w : Gossip) : Prop where
  frames : ∀ i, n ≤ i → ∀ f, w.sent[i]? = some f → (f.sender = x ∨ f.sender = y) ∧
    (f.receiver = x ∨ f.receiver = y) ∧ ∀ p ∈ f.records, p.version ≤ bound p.runtimeId
  known : ∀ r, r = x ∨ r = y → ∀ z p, w.record r z = some p → p.version ≤ bound z

variable {n : Nat} {x y : RuntimeId} {bound : RuntimeId → Nat}

theorem Within.send (h : w.Within n x y bound) {message : GossipMessage} (hs : s = x ∨ s = y)
    (hr : r = x ∨ r = y)
    (hrecords : ∀ p ∈ GossipFrame.records ⟨s, r, message⟩, p.version ≤ bound p.runtimeId) :
    (w.send s r message).Within n x y bound := by
  refine ⟨fun i hi f hf => ?_, h.known⟩
  rw [Gossip.send, List.getElem?_append] at hf
  split_ifs at hf with hlt
  · exact h.frames i hi f hf
  · rw [List.getElem?_singleton] at hf
    split_ifs at hf
    cases hf
    exact ⟨hs, hr, hrecords⟩

theorem Within.step (h : w.Within n x y bound) (hinv : w.Inv) (ha : ExchangeStep n x y a)
    (hstep : gossipStep v w a = some w') : w'.Within n x y bound := by
  cases ha with
  | there =>
    simp only [gossipStep] at hstep
    split at hstep
    · cases hstep
      exact h.send (Or.inl rfl) (Or.inr rfl) fun p hp => by cases hp
    · cases hstep
  | back =>
    simp only [gossipStep] at hstep
    split at hstep
    · cases hstep
      exact h.send (Or.inr rfl) (Or.inl rfl) fun p hp => by cases hp
    · cases hstep
  | @answer i hi =>
    simp only [gossipStep] at hstep
    split at hstep
    · next sender receiver entries hframe =>
      split at hstep
      · next m hm =>
        cases hstep
        obtain ⟨hsender, hreceiver, -⟩ := h.frames i hi _ hframe
        refine h.send hreceiver hsender fun p hp => ?_
        have hmem := (MeshMembership.mem_deltaFor.mp hp).1
        have hrecord := (hinv.member receiver m hm).2.mem_records.mp hmem
        exact h.known receiver hreceiver _ p (record_eq.mpr ⟨m, hm, hrecord⟩)
      · cases hstep
    · cases hstep
  | @apply i j hi =>
    simp only [gossipStep] at hstep
    split at hstep
    · next sender receiver records hframe =>
      split at hstep
      · next m q hm hq =>
        cases hstep
        obtain ⟨-, hreceiver, hbound⟩ := h.frames i hi _ hframe
        refine ⟨h.frames, fun r hr z p hp => ?_⟩
        obtain ⟨m', hm', hp⟩ := record_eq.mp hp
        rw [get?_setMember] at hm'
        split_ifs at hm' with heq
        · cases hm'
          rw [m.record_applyGossipRecord] at hp
          split_ifs at hp with htake
          · cases hp
            rw [htake.1]
            exact hbound q (List.mem_of_getElem? hq)
          · exact h.known receiver hreceiver z p (record_eq.mpr ⟨m, hm, hp⟩)
        · exact h.known r hr z p (record_eq.mpr ⟨m', hm', hp⟩)
      · cases hstep
    · cases hstep

theorem Within.run (h : w.Within n x y bound) (hinv : w.Inv) (hsame : w.Same)
    (honly : ∀ a ∈ bs, ExchangeStep n x y a) (hrun : Machine.run (gossipStep v) w bs = some w') :
    w'.Within n x y bound ∧ w'.Same := by
  induction bs generalizing w with
  | nil =>
    cases hrun
    exact ⟨h, hsame⟩
  | cons a bs ih =>
    obtain ⟨t, ht, hrest⟩ := run_cons_some.mp hrun
    have ha := honly a List.mem_cons_self
    have hcond : w.spare a = true := by
      cases ha with
      | there => rfl
      | back => rfl
      | answer _ => rfl
      | apply _ _ => rfl
    exact ih (h.step hinv ha ht) (inv_step hinv ht) (hinv.same_step hsame hcond ht)
      (fun a' ha' => honly a' (List.mem_cons_of_mem _ ha')) hrest

/-- The version that the runtime knows of `z`, with 0 for none. -/
def version (w : Gossip) (r z : RuntimeId) : Nat := ((w.record r z).map (·.version)).getD 0

theorem Inv.agree (h : w.Inv) (hsame : w.Same) (hfull : FullExchange v w x y bs w')
    {z : RuntimeId} (hknown : (w.record x z).isSome ∨ (w.record y z).isSome) :
    ∃ p q, w'.record x z = some p ∧ w'.record y z = some q ∧ p.contents = q.contents := by
  have hstart : w.Within w.sent.length x y fun z => max (w.version x z) (w.version y z) := by
    refine ⟨fun i hi f hf => ?_, fun r hr z p hp => ?_⟩
    · rw [List.getElem?_eq_none hi] at hf
      cases hf
    · rcases hr with rfl | rfl
      · refine Nat.le_trans (Nat.le_of_eq ?_) (Nat.le_max_left _ _)
        rw [version, hp]
        rfl
      · refine Nat.le_trans (Nat.le_of_eq ?_) (Nat.le_max_right _ _)
        rw [version, hp]
        rfl
  obtain ⟨hwithin, hsame'⟩ := hstart.run h hsame hfull.only hfull.run
  -- Each side ends with at least what either has had.
  have hboth : ∀ c, c = x ∨ c = y → ∀ p, w.record c z = some p →
      ∃ p₁ p₂, w'.record x z = some p₁ ∧ w'.record y z = some p₂ ∧
        p.version ≤ p₁.version ∧ p.version ≤ p₂.version := by
    rintro c (rfl | rfl) p hp
    · obtain ⟨p₁, hp₁, hle₁⟩ := h.rises hfull.run hp
      obtain ⟨p₂, hp₂, hle₂⟩ := h.answered hfull.run hfull.back hp
      exact ⟨p₁, p₂, hp₁, hp₂, hle₁, hle₂⟩
    · obtain ⟨p₂, hp₂, hle₂⟩ := h.rises hfull.run hp
      obtain ⟨p₁, hp₁, hle₁⟩ := h.answered hfull.run hfull.there hp
      exact ⟨p₁, p₂, hp₁, hp₂, hle₁, hle₂⟩
  obtain ⟨c, hc, p, hp, hmax⟩ : ∃ c, (c = x ∨ c = y) ∧ ∃ p, w.record c z = some p ∧
      max (w.version x z) (w.version y z) ≤ p.version := by
    cases hx : w.record x z with
    | none =>
      rw [hx] at hknown
      obtain ⟨q, hq⟩ := Option.isSome_iff_exists.mp (hknown.resolve_left (by simp))
      exact ⟨y, Or.inr rfl, q, hq, by simp [version, hx, hq]⟩
    | some p =>
      cases hy : w.record y z with
      | none => exact ⟨x, Or.inl rfl, p, hx, by simp [version, hx, hy]⟩
      | some q =>
        rcases Nat.le_total p.version q.version with hle | hle
        · exact ⟨y, Or.inr rfl, q, hy, by simp [version, hx, hy, hle]⟩
        · exact ⟨x, Or.inl rfl, p, hx, by simp [version, hx, hy, hle]⟩
  obtain ⟨p₁, p₂, hp₁, hp₂, hle₁, hle₂⟩ := hboth c hc p hp
  have hbound₁ := hwithin.known x (Or.inl rfl) z p₁ hp₁
  have hbound₂ := hwithin.known y (Or.inr rfl) z p₂ hp₂
  obtain ⟨m₁, hm₁, hrecord₁⟩ := record_eq.mp hp₁
  obtain ⟨m₂, hm₂, hrecord₂⟩ := record_eq.mp hp₂
  have hinv' : w'.Inv := run_invariant Inv (fun _ _ _ hi hs => inv_step hi hs) h hfull.run
  have hid₁ := (hinv'.member x m₁ hm₁).2.record hrecord₁
  have hid₂ := (hinv'.member y m₂ hm₂).2.record hrecord₂
  refine ⟨p₁, p₂, hp₁, hp₂, hsame' p₁ p₂ ?_ ?_ (hid₁.trans hid₂.symm) (by omega)⟩
  · exact Or.inl ⟨x, m₁, hm₁, by rw [hid₁, hrecord₁]⟩
  · exact Or.inl ⟨y, m₂, hm₂, by rw [hid₂, hrecord₂]⟩

/-! ## Runs -/

/-- What a runtime knows of another gets newer only, and is never ahead of it. Its own record is its
own to change. -/
structure Monotone (v : String → String → List Char → Bool) (w : Gossip) : Prop where
  reached : ∀ r z p, w.record r z = some p →
    ∃ own, w.record z z = some own ∧ p.version ≤ own.version
  rises : ∀ bs w', Machine.run (gossipStep v) w bs = some w' → ∀ r z p, w.record r z = some p →
    ∃ p', w'.record r z = some p' ∧ p.version ≤ p'.version
  own : ∀ bs w', Machine.run (gossipStep v) w bs = some w' →
    ∀ r, (∀ u now, GossipAction.update r u now ∉ bs) → ∀ p, w.record r r = some p →
      w'.record r r = some p

theorem Inv.monotone (h : w.Inv) : w.Monotone v := by
  refine ⟨fun r z p hp => ?_, fun bs w' hrun r z p hp => h.rises hrun hp,
    fun bs w' hrun r hno p hp => h.own hrun hno hp⟩
  obtain ⟨m, hm, hrecord⟩ := record_eq.mp hp
  have hid := (h.member r m hm).2.record hrecord
  obtain ⟨own, hown, -, hle⟩ := h.reached p (Or.inl ⟨r, m, hm, by rw [hid, hrecord]⟩)
  rw [hid] at hown
  refine ⟨own.localRecord, record_eq.mpr ⟨own, hown, ?_⟩, hle⟩
  rw [← (h.member z own hown).1, own.record_own]

/-- The tables only move forward, and without an update at the last version a full exchange leaves
both sides with the same records. -/
theorem membership_converges {as : List GossipAction} {w : Gossip}
    (hrun : Machine.run (gossipStep v) init as = some w) : w.Monotone v ∧
      (Meets (gossipStep v) (fun w a => w.spare a = true) init as →
        ∀ x y bs w', FullExchange v w x y bs w' →
          ∀ z, ((w.record x z).isSome ∨ (w.record y z).isSome) →
            ∃ p q, w'.record x z = some p ∧ w'.record y z = some q ∧
              p.contents = q.contents) :=
  ⟨(inv_run hrun).monotone, fun hmeets _ _ _ _ hfull _ hknown =>
    (inv_run hrun).agree (same_run hmeets hrun) hfull hknown⟩

/-! ## One direction after the other -/

def exchange (x y : RuntimeId) (n k : Nat) : List GossipAction :=
  .sendDigest x y :: .answer n :: (List.range k).map (.apply (n + 1))

theorem sent_sendDigest {x y : RuntimeId} (hstep : gossipStep v w (.sendDigest x y) = some w') :
    w'.sent.length = w.sent.length + 1 := by
  simp only [gossipStep] at hstep
  split at hstep
  · cases hstep
    exact List.length_append
  · cases hstep

theorem sent_answer (hstep : gossipStep v w (.answer i) = some w') :
    w'.sent.length = w.sent.length + 1 := by
  simp only [gossipStep] at hstep
  split at hstep
  · split at hstep
    · cases hstep
      exact List.length_append
    · cases hstep
  · cases hstep

theorem sent_apply {j : Nat} (hstep : gossipStep v w (.apply i j) = some w') :
    w'.sent = w.sent := by
  simp only [gossipStep] at hstep
  split at hstep
  · split at hstep
    · cases hstep
      rfl
    · cases hstep
  · cases hstep

theorem sent_exchange {x y : RuntimeId} {n : Nat}
    (hrun : Machine.run (gossipStep v) w (exchange x y n k) = some w') :
    w'.sent.length = w.sent.length + 2 := by
  obtain ⟨t, ht, hrest⟩ := run_cons_some.mp hrun
  obtain ⟨u, hu, happlies⟩ := run_cons_some.mp hrest
  have hkeep : ∀ (js : List Nat) (s s' : Gossip),
      Machine.run (gossipStep v) s (js.map (.apply (n + 1))) = some s' → s'.sent = s.sent := by
    intro js
    induction js with
    | nil =>
      intro s s' hs
      cases hs
      rfl
    | cons j js ih =>
      intro s s' hs
      obtain ⟨s₁, hs₁, hs₂⟩ := run_cons_some.mp hs
      exact (ih s₁ s' hs₂).trans (sent_apply hs₁)
  rw [hkeep _ u w' happlies, sent_answer hu, sent_sendDigest ht]

theorem fullExchange_inTurn {x y : RuntimeId} {n k' : Nat} {records records' : List GossipRecord}
    (hn : w.sent.length = n)
    (hrun : Machine.run (gossipStep v) w (exchange x y n k ++ exchange y x (n + 2) k') = some w')
    (hdelta : w'.sent[n + 1]? = some ⟨y, x, .delta records⟩) (hk : records.length = k)
    (hdelta' : w'.sent[n + 3]? = some ⟨x, y, .delta records'⟩) (hk' : records'.length = k') :
    FullExchange v w x y (exchange x y n k ++ exchange y x (n + 2) k') w' := by
  obtain ⟨u, hu, hsecond⟩ := run_append_some.mp hrun
  obtain ⟨t, ht, hfirst⟩ := run_cons_some.mp hu
  obtain ⟨t', ht', hrest⟩ := run_cons_some.mp hsecond
  have hlength := sent_exchange hu
  refine ⟨hrun, fun a ha => ?_, ?_, ?_⟩
  · simp only [exchange, List.mem_append, List.mem_cons, List.mem_map] at ha
    rw [hn]
    rcases ha with (rfl | rfl | ⟨j, -, rfl⟩) | rfl | rfl | ⟨j, -, rfl⟩
    · exact .there
    · exact .answer (Nat.le_refl _)
    · exact .apply j (Nat.le_add_right _ _)
    · exact .back
    · exact .answer (Nat.le_add_right _ _)
    · exact .apply j (by omega)
  · have hstart : Machine.run (gossipStep v) w [.sendDigest x y] = some t := by
      rw [run_cons_some]
      exact ⟨t, ht, rfl⟩
    refine ⟨[], [], (List.range k).map (.apply (n + 1)) ++ exchange y x (n + 2) k', w, t, records,
      ?_, rfl, hstart, ?_, fun j hj => ?_⟩
    · rw [hn]
      rfl
    · rw [sent_sendDigest ht, hn, hdelta]
    · rw [sent_sendDigest ht, hn]
      refine List.mem_append_left _ (List.mem_map.mpr ⟨j, ?_, rfl⟩)
      rw [List.mem_range, ← hk]
      exact hj
  · have hstart : Machine.run (gossipStep v) w (exchange x y n k ++ [GossipAction.sendDigest y x]) =
        some t' := by
      rw [run_append_some]
      refine ⟨u, hu, ?_⟩
      rw [run_cons_some]
      exact ⟨t', ht', rfl⟩
    refine ⟨exchange x y n k, [], (List.range k').map (.apply (n + 3)), u, t', records', ?_, hu,
      hstart, ?_, fun j hj => ?_⟩
    · rw [hlength, hn]
      rfl
    · rw [sent_sendDigest ht', hlength, hn, hdelta']
    · rw [sent_sendDigest ht', hlength, hn]
      refine List.mem_map.mpr ⟨j, ?_, rfl⟩
      rw [List.mem_range, ← hk']
      exact hj

/-! ## A runtime that drains -/

def demoMember (n : UInt8) : RuntimeId := .ofByte n

def demoVerify (relayPubkey relaySig : String) (_ : List Char) : Bool :=
  relayPubkey = "relay" && relaySig = "signature"

def demoBoot (n : UInt8) : GossipAction :=
  .boot (demoMember n) "relay" "signature" ["127.0.0.1:3478"] 1 ["huddle-control"] 0

/-- A frame from `s` to `r` with so many records. -/
def isDelta (f : GossipFrame) (s r : RuntimeId) (k : Nat) : Bool :=
  match f.message with
  | .delta records => f.sender = s && f.receiver = r && records.length = k
  | .digest _ => false

theorem delta_of_isDelta {f : Option GossipFrame} (h : f.any (fun f => isDelta f s r k) = true) :
    ∃ records, f = some ⟨s, r, .delta records⟩ ∧ records.length = k := by
  obtain ⟨⟨s', r', message⟩, rfl, h⟩ := (Option.any_eq_true _ _).mp h
  cases message with
  | digest _ => cases h
  | delta records =>
    change (decide (s' = s) && decide (r' = r) && decide (records.length = k)) = true at h
    rw [Bool.and_eq_true, Bool.and_eq_true, decide_eq_true_eq, decide_eq_true_eq,
      decide_eq_true_eq] at h
    obtain ⟨⟨rfl, rfl⟩, hk⟩ := h
    exact ⟨records, rfl, hk⟩

def drains : List GossipAction :=
  [demoBoot 1, demoBoot 2, .seed (demoMember 1) 1 5, .update (demoMember 2) .heartbeat 6,
    .update (demoMember 2) .beginDrain 7]

theorem converges_after_drain : ∃ w w' p q,
    Machine.run (gossipStep demoVerify) init drains = some w ∧
    Machine.run (gossipStep demoVerify) w (exchange (demoMember 1) (demoMember 2) 0 1 ++
      exchange (demoMember 2) (demoMember 1) 2 1) = some w' ∧
    w'.record (demoMember 1) (demoMember 2) = some p ∧
    w'.record (demoMember 2) (demoMember 2) = some q ∧ q.draining = true ∧
      p.contents = q.contents := by
  have hmeets : Meets (gossipStep demoVerify) (fun w a => w.spare a = true) init drains := by
    decide +kernel
  have hdemo : ((Machine.run (gossipStep demoVerify) init drains).any fun w =>
      decide (w.sent.length = 0) &&
      (w.record (demoMember 2) (demoMember 2)).isSome &&
      (Machine.run (gossipStep demoVerify) w (exchange (demoMember 1) (demoMember 2) 0 1 ++
        exchange (demoMember 2) (demoMember 1) 2 1)).any fun w' =>
          w'.sent[1]?.any (fun f => isDelta f (demoMember 2) (demoMember 1) 1) &&
          w'.sent[3]?.any (fun f => isDelta f (demoMember 1) (demoMember 2) 1) &&
          (w'.record (demoMember 2) (demoMember 2)).all (·.draining)) = true := by decide +kernel
  obtain ⟨w, hrun, h⟩ := (Option.any_eq_true _ _).mp hdemo
  rw [Bool.and_eq_true, Bool.and_eq_true, decide_eq_true_eq] at h
  obtain ⟨⟨hn, hknown⟩, hbs⟩ := h
  obtain ⟨w', hrun', h'⟩ := (Option.any_eq_true _ _).mp hbs
  rw [Bool.and_eq_true, Bool.and_eq_true] at h'
  obtain ⟨⟨hfirst, hsecond⟩, hdraining⟩ := h'
  obtain ⟨records, hdelta, hk⟩ := delta_of_isDelta hfirst
  obtain ⟨records', hdelta', hk'⟩ := delta_of_isDelta hsecond
  obtain ⟨p, q, hp, hq, hsame⟩ := (membership_converges hrun).2 hmeets _ _ _ _
    (fullExchange_inTurn hn hrun' hdelta hk hdelta' hk') (demoMember 2) (Or.inr hknown)
  rw [hq] at hdraining
  exact ⟨w, w', p, q, hrun, hrun', hp, hq, hdraining, hsame⟩

/-! ## The last version -/

theorem run_heartbeats (w : Gossip) (r : RuntimeId) (m : MeshMembership) (n : Nat)
    (hmillis : m.localRecord.heartbeatMillis = 0) (hbound : m.localRecord.version ≤ u64Max) :
    Machine.run (gossipStep v) (w.setMember r m) (List.replicate n (.update r .heartbeat 0)) =
      some (w.setMember r { m with localRecord :=
        { m.localRecord with version := min (m.localRecord.version + n) u64Max } }) := by
  induction n generalizing m with
  | zero =>
    rw [List.replicate_zero, run_nil, Nat.add_zero, Nat.min_eq_left hbound]
  | succ n ih =>
    rw [List.replicate_succ, run_cons_some]
    have hget := (get?_setMember (w := w) r r m).trans (if_pos rfl)
    refine ⟨w.setMember r (m.updateLocal .heartbeat 0), ?_, ?_⟩
    · simp only [gossipStep, hget]
      congr 1
      exact congrArg (fun t => ({ w with members := t } : Gossip)) (AList.insert_insert _)
    · have hversion : (m.updateLocal .heartbeat 0).localRecord.version =
          min (m.localRecord.version + 1) u64Max := rfl
      rw [ih _ rfl (by rw [hversion]; exact Nat.min_le_right _ _), hversion]
      have hsum : min (min (m.localRecord.version + 1) u64Max + n) u64Max =
          min (m.localRecord.version + (n + 1)) u64Max := by omega
      rw [hsum]
      simp only [MeshMembership.updateLocal, LocalUpdate.heartbeat, id, ← hmillis]

def atVersion (version : Nat) : MeshMembership :=
  (MeshMembership.new { GossipRecord.new (demoMember 1) ["127.0.0.1:3478"] 1 0 with
    capabilities := ["huddle-control"], version }).withExpectedRelayPubkey "relay"

def alone : Gossip :=
  { init with published := [⟨demoMember 1, (demoMember 1).toHex, "relay", "signature",
    ["127.0.0.1:3478"], 1, ["huddle-control"]⟩] }

def drainsUnseen : List GossipAction :=
  [demoBoot 2, .sendDigest (demoMember 2) (demoMember 1), .answer 0, .apply 1 0,
    .update (demoMember 1) .beginDrain 0]

theorem last_version_diverges : ∃ as w bs w' p q,
    Machine.run (gossipStep demoVerify) init as = some w ∧
    FullExchange demoVerify w (demoMember 1) (demoMember 2) bs w' ∧
    w'.record (demoMember 1) (demoMember 1) = some p ∧
    w'.record (demoMember 2) (demoMember 1) = some q ∧ p.contents ≠ q.contents := by
  have hboot : gossipStep demoVerify init (demoBoot 1) =
      some (alone.setMember (demoMember 1) (atVersion 1)) := rfl
  have hrises := run_heartbeats (v := demoVerify) alone (demoMember 1) (atVersion 1) (u64Max - 1)
    rfl one_le_u64Max
  have hlast : min ((atVersion 1).localRecord.version + (u64Max - 1)) u64Max = u64Max := by
    decide +kernel
  rw [hlast] at hrises
  have hdemo : ((Machine.run (gossipStep demoVerify)
      (alone.setMember (demoMember 1) (atVersion u64Max)) drainsUnseen).any fun w =>
      decide (w.sent.length = 2) &&
      (Machine.run (gossipStep demoVerify) w (exchange (demoMember 1) (demoMember 2) 2 1 ++
        exchange (demoMember 2) (demoMember 1) 4 0)).any fun w' =>
          w'.sent[3]?.any (fun f => isDelta f (demoMember 2) (demoMember 1) 1) &&
          w'.sent[5]?.any (fun f => isDelta f (demoMember 1) (demoMember 2) 0) &&
          (w'.record (demoMember 1) (demoMember 1)).any (fun p => p.draining) &&
          (w'.record (demoMember 2) (demoMember 1)).any (fun q => !q.draining)) = true := by
    decide +kernel
  obtain ⟨w, hrun, h⟩ := (Option.any_eq_true _ _).mp hdemo
  rw [Bool.and_eq_true, decide_eq_true_eq] at h
  obtain ⟨hn, hbs⟩ := h
  obtain ⟨w', hrun', h'⟩ := (Option.any_eq_true _ _).mp hbs
  rw [Bool.and_eq_true, Bool.and_eq_true, Bool.and_eq_true] at h'
  obtain ⟨⟨⟨hfirst, hsecond⟩, hdraining⟩, hstale⟩ := h'
  obtain ⟨records, hdelta, hk⟩ := delta_of_isDelta hfirst
  obtain ⟨records', hdelta', hk'⟩ := delta_of_isDelta hsecond
  obtain ⟨p, hp, hpd⟩ := (Option.any_eq_true _ _).mp hdraining
  obtain ⟨q, hq, hqd⟩ := (Option.any_eq_true _ _).mp hstale
  refine ⟨demoBoot 1 :: (List.replicate (u64Max - 1) (.update (demoMember 1) .heartbeat 0) ++
    drainsUnseen), w, _, w', p, q, ?_, fullExchange_inTurn hn hrun' hdelta hk hdelta' hk', hp, hq,
    fun heq => ?_⟩
  · rw [run_cons_some]
    refine ⟨_, hboot, ?_⟩
    rw [run_append_some]
    exact ⟨_, hrises, hrun⟩
  · have hsame : p.contents.draining = q.contents.draining := congrArg GossipRecord.draining heq
    change p.draining = q.draining at hsame
    rw [hpd] at hsame
    rw [← hsame] at hqd
    cases hqd

end Gossip

end Vingilot.RelayMesh
