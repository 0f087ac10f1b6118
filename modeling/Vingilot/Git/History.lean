import Vingilot.Git.Requests

/-! # The history of a pointer is linear

A push composes its manifest on the pointer it loaded, and its CAS succeeds only while that
pointer is the current one. So each manifest names the one before it, and none comes back.
-/

namespace Vingilot.Git

open Machine Program

variable {pid' : Pid} {m : Manifest} {base : Base} {fault : Option Fault} {ms : List Manifest}
  {op : Op} {actions : List Action}

section

variable (sha : Sha256) (git : GitTool) (etag : ByteArray → ETag)

/-! ## What a party knows -/

def World.NoInstall (s : World) (pid : Pid) : Prop := ∀ i ∈ s.installs, i.pid ≠ pid

structure Written (s : World) (m : Manifest) : Prop where
  version : m.version = manifestVersion
  canonical : m.canonical = m
  put : (contentKey sha "manifests" m.canonicalBytes, m.canonicalBytes) ∈ s.puts

def Observed (s : World) (pkey : String) (base : Base) : Prop :=
  match base.ifMatch with
  | none => base.digest = none
  | some e => ∃ body ∈ s.bodiesAt pkey, etag body = e ∧ base.digest = pointerDigest body

inductive PushOk (s : World) (pid : Pid) (pkey : String) : StoreM PushOutcome → Prop
  | loading (k : (Op.getPointer pkey).Reply → StoreM PushOutcome) (hnone : s.NoInstall pid)
      (hload : ∀ r, AfterLoad sha pkey (k r) r) : PushOk s pid pkey (.call (.getPointer pkey) k)
  | composing (p : StoreM PushOutcome) (base : Base) (hnone : s.NoInstall pid)
      (hbase : Observed etag s pkey base) (hp : Publishing sha pkey base .published p) :
      PushOk s pid pkey p
  | committing (p : StoreM PushOutcome) (base : Base) (m : Manifest) (hnone : s.NoInstall pid)
      (hbase : Observed etag s pkey base) (hparent : m.parent = base.digest)
      (hm : Written sha s m) (hp : Commits sha pkey base .published m p) : PushOk s pid pkey p
  | lost (p : StoreM PushOutcome) (hnone : s.NoInstall pid) (hp : Lost .published p) :
      PushOk s pid pkey p
  | won (m : Manifest) (hm : Written sha s m) (hinstall : ⟨pid, pkey, m.body sha⟩ ∈ s.installs) :
      PushOk s pid pkey
        (.ret (.published (.ok ⟨m, contentKey sha "manifests" m.canonicalBytes⟩)))
  | unknown (e : StoreError) : PushOk s pid pkey (.ret (.published (.error (.backend e))))

def Addressed (x : String × ByteArray) : Prop :=
  "manifests/".toList.isPrefixOf x.1.toList → x.1 = contentKey sha "manifests" x.2

structure ObjectsOk (s : World) : Prop where
  fromPuts : ∀ key bytes, s.store.objects.get? key = some bytes → (key, bytes) ∈ s.puts
  stored : ∀ x ∈ s.puts, (s.store.objects.get? x.1).isSome
  addressed : ∀ x ∈ s.puts, Addressed sha x

structure Chain (s : World) (pkey : String) (ms : List Manifest) : Prop where
  bodies : s.bodiesAt pkey = ms.map (Manifest.body sha)
  written : ∀ m ∈ ms, Written sha s m
  first : ∀ m ∈ ms.head?, m.parent = none
  linked : ms.IsChain fun m m' => m'.parent = some (sha.hex m.canonicalBytes)
  pointer : s.store.pointers.get? pkey = ms.getLast?.map (Manifest.body sha)

structure Inv (s : World) : Prop where
  objects : ObjectsOk sha s
  chain : ∀ pkey, ∃ ms, Chain sha s pkey ms
  pushes : ∀ pid pkey p, s.procs.get? pid = some (.push pkey p) → PushOk sha etag s pid pkey p
  reads : ∀ pid p, s.procs.get? pid = some (.read p) → Quiet p
  unstarted : ∀ pid, s.procs.get? pid = none → s.NoInstall pid

/-! ## Growing records -/

/-- Only `pid` has changed the record. -/
structure Grows (pid : Pid) (s s' : World) : Prop where
  puts : s.puts ⊆ s'.puts
  installs : s.installs ⊆ s'.installs
  others : ∀ i ∈ s'.installs, i ∈ s.installs ∨ i.pid = pid

variable {sha etag} {s s' : World} {pid : Pid} {pkey : String}

theorem mem_bodiesAt {body : ByteArray} :
    body ∈ s.bodiesAt pkey ↔ ∃ i ∈ s.installs, i.pkey = pkey ∧ i.body = body := by
  simp [World.bodiesAt, and_assoc]

theorem Grows.bodies (h : Grows pid s s') : s.bodiesAt pkey ⊆ s'.bodiesAt pkey := by
  intro body hbody
  obtain ⟨i, hi, hkey, heq⟩ := mem_bodiesAt.mp hbody
  exact mem_bodiesAt.mpr ⟨i, h.installs hi, hkey, heq⟩

theorem Grows.noInstall (h : Grows pid s s') (hne : pid' ≠ pid) (hnone : s.NoInstall pid') :
    s'.NoInstall pid' := by
  intro i hi
  rcases h.others i hi with hold | hnew
  · exact hnone i hold
  · exact fun heq => hne (heq.symm.trans hnew)

theorem Written.mono (h : Written sha s m) (hputs : s.puts ⊆ s'.puts) : Written sha s' m :=
  ⟨h.version, h.canonical, hputs h.put⟩

theorem Observed.mono (h : Observed etag s pkey base) (hbodies : s.bodiesAt pkey ⊆ s'.bodiesAt pkey) :
    Observed etag s' pkey base := by
  obtain ⟨ifMatch, digest⟩ := base
  cases ifMatch with
  | none => exact h
  | some e =>
    obtain ⟨body, hbody, hrest⟩ := h
    exact ⟨body, hbodies hbody, hrest⟩

theorem PushOk.mono {p : StoreM PushOutcome} (h : PushOk sha etag s pid' pkey p)
    (hgrows : Grows pid s s') (hnone : s.NoInstall pid' → s'.NoInstall pid') :
    PushOk sha etag s' pid' pkey p := by
  cases h with
  | loading k hnone' hload => exact .loading k (hnone hnone') hload
  | composing _ base hnone' hbase hp =>
    exact .composing p base (hnone hnone') (hbase.mono hgrows.bodies) hp
  | committing _ base m hnone' hbase hparent hm hp =>
    exact .committing p base m (hnone hnone') (hbase.mono hgrows.bodies) hparent
      (hm.mono hgrows.puts) hp
  | lost _ hnone' hp => exact .lost p (hnone hnone') hp
  | won m hm hinstall => exact .won m (hm.mono hgrows.puts) (hgrows.installs hinstall)
  | unknown e => exact .unknown e

/-! ## What a request does to the record -/

theorem serve_installs (op : Op) (fault : Option Fault) :
    ∃ new, (s.serve etag pid op fault).installs = s.installs ++ new ∧ ∀ i ∈ new, i.pid = pid := by
  unfold World.serve
  split_ifs
  · exact ⟨[], by simp, by simp⟩
  · refine ⟨_, rfl, ?_⟩
    intro i hi
    cases op with
    | putPointer key body precond =>
      simp only [Op.installs] at hi
      split_ifs at hi
      · rw [List.mem_singleton] at hi
        rw [hi]
      · cases hi
    | _ => cases hi

theorem serve_grows (op : Op) (fault : Option Fault) :
    Grows pid s (s.serve etag pid op fault) := by
  obtain ⟨new, hinstalls, hpid⟩ := serve_installs op fault
  refine ⟨?_, ?_, ?_⟩
  · unfold World.serve
    split_ifs
    · exact fun _ h => h
    · exact List.subset_append_left _ _
  · rw [hinstalls]
    exact List.subset_append_left _ _
  · intro i hi
    rw [hinstalls] at hi
    exact (List.mem_append.mp hi).imp_right (hpid i)

theorem handle_objects (store : Store) (op : Op) :
    (∀ key bytes, (store.handle etag op).2.objects.get? key = some bytes →
      store.objects.get? key = some bytes ∨ (key, bytes) ∈ op.puts) ∧
    (∀ key, (store.objects.get? key).isSome →
      ((store.handle etag op).2.objects.get? key).isSome) ∧
    ∀ x ∈ op.puts, ((store.handle etag op).2.objects.get? x.1).isSome := by
  cases op with
  | head key => simp [Op.puts]
  | get key => simp [Op.puts]
  | getPointer key => simp [Op.puts]
  | putPointer key body precond =>
    rw [handle_putPointer]
    split_ifs <;> simp [Op.puts]
  | putNew key bytes =>
    rw [handle_putNew_store]
    split_ifs with htaken
    · refine ⟨fun _ _ h => Or.inl h, fun _ h => h, ?_⟩
      intro x hx
      rw [List.mem_singleton.mp hx]
      exact htaken
    · refine ⟨?_, ?_, ?_⟩
      · intro key' bytes' h
        rw [Table.get?_set] at h
        split_ifs at h with hkey
        · right
          cases h
          rw [hkey]
          exact List.mem_singleton.mpr rfl
        · exact Or.inl h
      · intro key' h
        rw [Table.get?_set]
        split_ifs
        · rfl
        · exact h
      · intro x hx
        rw [List.mem_singleton.mp hx, Table.get?_set, if_pos rfl]
        rfl

theorem attempt_store (store : Store) (op : Op) (hfault : fault ≠ some .before) :
    (store.attempt etag op fault).2 = (store.handle etag op).2 := by
  rcases fault with _ | _ | _
  · rfl
  · exact absurd rfl hfault
  · rfl

theorem serve_objectsOk (h : ObjectsOk sha s) (op : Op) (fault : Option Fault)
    (hop : ∀ x ∈ op.puts, Addressed sha x) : ObjectsOk sha (s.serve etag pid op fault) := by
  unfold World.serve
  split_ifs with hfault
  · exact h
  · obtain ⟨hnew, hkept, hput⟩ := @handle_objects etag s.store op
    rw [attempt_store s.store op hfault]
    refine ⟨?_, ?_, ?_⟩
    · intro key bytes hget
      rcases hnew key bytes hget with hold | hput'
      · exact List.mem_append_left _ (h.fromPuts key bytes hold)
      · exact List.mem_append_right _ hput'
    · intro x hx
      rcases List.mem_append.mp hx with hold | hput'
      · exact hkept x.1 (h.stored x hold)
      · exact hput x hput'
    · intro x hx
      rcases List.mem_append.mp hx with hold | hput'
      · exact h.addressed x hold
      · exact hop x hput'

theorem serve_pointers (op : Op) (fault : Option Fault)
    (hop : ∀ key body precond, op ≠ .putPointer key body precond) :
    (s.serve etag pid op fault).store.pointers = s.store.pointers ∧
      (s.serve etag pid op fault).installs = s.installs := by
  unfold World.serve
  split_ifs with hfault
  · exact ⟨rfl, rfl⟩
  · rw [attempt_store s.store op hfault]
    cases op with
    | head key => simp [Op.installs]
    | get key => simp [Op.installs]
    | getPointer key => simp [Op.installs]
    | putNew key bytes =>
      rw [handle_putNew_store]
      split_ifs <;> simp [Op.installs]
    | putPointer key body precond => exact absurd rfl (hop key body precond)

theorem serve_cas_lost (key : String) (body : ByteArray) (precond : Precond)
    (fault : Option Fault)
    (hlost : fault = some .before ∨ precond.holds etag (s.store.pointers.get? key) = false) :
    s.serve etag pid (.putPointer key body precond) fault = s := by
  unfold World.serve
  split_ifs with hfault
  · rfl
  · have hholds := hlost.resolve_left hfault
    rw [attempt_store s.store _ hfault, handle_putPointer, if_neg (by simp [hholds])]
    simp [Op.puts, Op.installs, hholds]

theorem serve_cas_won (key : String) (body : ByteArray) (precond : Precond)
    (fault : Option Fault) (hfault : fault ≠ some .before)
    (hholds : precond.holds etag (s.store.pointers.get? key) = true) :
    s.serve etag pid (.putPointer key body precond) fault =
      { s with
        store := { s.store with pointers := s.store.pointers.set key body }
        installs := s.installs ++ [⟨pid, key, body⟩] } := by
  unfold World.serve
  rw [if_neg hfault, attempt_store s.store _ hfault, handle_putPointer, if_pos hholds]
  simp [Op.puts, Op.installs, hholds]

/-! ## The chain -/

theorem Chain.mono (h : Chain sha s pkey ms) (hputs : s.puts ⊆ s'.puts)
    (hbodies : s'.bodiesAt pkey = s.bodiesAt pkey)
    (hpointer : s'.store.pointers.get? pkey = s.store.pointers.get? pkey) :
    Chain sha s' pkey ms where
  bodies := hbodies.trans h.bodies
  written m hm := (h.written m hm).mono hputs
  first := h.first
  linked := h.linked
  pointer := hpointer.trans h.pointer

theorem Chain.pointer_mem (h : Chain sha s pkey ms) {body : ByteArray}
    (hbody : s.store.pointers.get? pkey = some body) : body ∈ s.bodiesAt pkey := by
  rw [h.pointer, Option.map_eq_some_iff] at hbody
  obtain ⟨m, hlast, rfl⟩ := hbody
  rw [h.bodies]
  exact List.mem_map_of_mem (List.mem_of_getLast? hlast)

theorem Chain.follows (h : Chain sha s pkey ms) (htags : ETagsDiffer etag s)
    (hbase : Observed etag s pkey base) (hparent : m.parent = base.digest)
    (hholds : base.precond.holds etag (s.store.pointers.get? pkey) = true) :
    m.parent = ms.getLast?.map fun last => sha.hex last.canonicalBytes := by
  obtain ⟨ifMatch, digest⟩ := base
  rw [hparent]
  cases ifMatch with
  | none =>
    have hmissing : s.store.pointers.get? pkey = none := by
      simpa [Base.precond, Precond.holds] using hholds
    rw [h.pointer, Option.map_eq_none_iff] at hmissing
    rw [hmissing]
    exact hbase
  | some e =>
    obtain ⟨seen, hseen, hetag, hdigest⟩ := hbase
    obtain ⟨current, hcurrent, hcurrentTag⟩ : ∃ current,
        s.store.pointers.get? pkey = some current ∧ etag current = e := by
      simpa [Base.precond, Precond.holds, Option.any_eq_true] using hholds
    -- The pointer may have moved since it was seen, but it has the body that was seen.
    have hsame : seen = current :=
      htags pkey seen hseen current (h.pointer_mem hcurrent) (hetag.trans hcurrentTag.symm)
    rw [h.pointer, Option.map_eq_some_iff] at hcurrent
    obtain ⟨last, hlast, hbody⟩ := hcurrent
    rw [hlast, hdigest, hsame, ← hbody, pointerDigest_body]
    rfl

theorem Chain.extend (h : Chain sha s pkey ms) (hm : Written sha s m)
    (hparent : m.parent = ms.getLast?.map fun last => sha.hex last.canonicalBytes)
    (hputs : s'.puts = s.puts) (hbodies : s'.bodiesAt pkey = s.bodiesAt pkey ++ [m.body sha])
    (hpointer : s'.store.pointers.get? pkey = some (m.body sha)) :
    Chain sha s' pkey (ms ++ [m]) where
  bodies := by rw [hbodies, h.bodies, List.map_append, List.map_singleton]
  written := by
    intro m' hm'
    have hsub : s.puts ⊆ s'.puts := by rw [hputs]; exact fun _ hx => hx
    rcases List.mem_append.mp hm' with hold | hnew
    · exact (h.written m' hold).mono hsub
    · rw [List.mem_singleton.mp hnew]
      exact hm.mono hsub
  first := by
    cases ms with
    | nil =>
      rintro m' ⟨⟩
      exact hparent
    | cons m₀ ms => exact h.first
  linked := by
    rw [List.isChain_append]
    refine ⟨h.linked, List.isChain_singleton m, ?_⟩
    intro last hlast m' hm'
    rw [Option.mem_def.mp hlast] at hparent
    cases hm'
    exact hparent
  pointer := by rw [hpointer, List.getLast?_concat]; rfl

/-! ## A request of a push -/

theorem not_putPointer_of_not_publishes (h : op.publishes = false) :
    ∀ key body precond, op ≠ .putPointer key body precond := by
  rintro key body precond rfl
  cases h

variable (sha etag) in
structure CasRequest (s : World) (pkey : String) (base : Base) (m : Manifest) (op : Op) : Prop where
  op_eq : op = .putPointer pkey (m.body sha) base.precond
  observed : Observed etag s pkey base
  parent : m.parent = base.digest
  written : Written sha s m

theorem PushOk.op_cases {k : op.Reply → StoreM PushOutcome}
    (h : PushOk sha etag s pid pkey (.call op k)) :
    (∀ key body precond, op ≠ .putPointer key body precond) ∨
      ∃ base m, CasRequest sha etag s pkey base m op := by
  cases h with
  | loading _ _ _ => exact Or.inl fun _ _ _ h => by cases h
  | composing _ base _ _ hp =>
    simp only [Publishing, Before] at hp
    split_ifs at hp with hpub
    · left
      cases op with
      | putPointer _ _ _ => exact hp.elim
      | _ => exact fun _ _ _ h => by cases h
    · exact Or.inl (not_putPointer_of_not_publishes (by simpa using hpub))
  | committing _ base m _ hbase hparent hm hp =>
    obtain ⟨k', heq, -⟩ := hp
    cases heq
    exact Or.inr ⟨base, m, rfl, hbase, hparent, hm⟩
  | lost _ _ hp =>
    simp only [Lost, Never, Before] at hp
    split_ifs at hp with hpub
    exact Or.inl (not_putPointer_of_not_publishes (by simpa using hpub))

theorem bodiesAt_append (s : World) (pkey : String) (store : Store) (i : Install) :
    { s with store := store, installs := s.installs ++ [i] }.bodiesAt pkey =
      s.bodiesAt pkey ++ if i.pkey = pkey then [i.body] else [] := by
  simp only [World.bodiesAt, List.filter_append, List.map_append]
  split_ifs with hkey <;> simp [hkey]

theorem serve_chain_quiet (hop : ∀ key body precond, op ≠ .putPointer key body precond)
    {key : String} (h : Chain sha s key ms) : Chain sha (s.serve etag pid op fault) key ms := by
  obtain ⟨hpointers, hinstalls⟩ :
      (s.serve etag pid op fault).store.pointers = s.store.pointers ∧
        (s.serve etag pid op fault).installs = s.installs := serve_pointers op fault hop
  refine h.mono (serve_grows op fault).puts ?_ (by rw [hpointers])
  simp only [World.bodiesAt, hinstalls]

theorem serve_chain_cas (htags : ETagsDiffer etag s) (hcas : CasRequest sha etag s pkey base m op)
    (h : ∀ key, ∃ ms, Chain sha s key ms) (key : String) :
    ∃ ms, Chain sha (s.serve etag pid op fault) key ms := by
  obtain ⟨rfl, hbase, hparent, hm⟩ := hcas
  obtain ⟨ms, hms⟩ := h key
  by_cases hlost : fault = some .before ∨
      base.precond.holds etag (s.store.pointers.get? pkey) = false
  · rw [serve_cas_lost pkey _ _ fault hlost]
    exact ⟨ms, hms⟩
  · rw [not_or, Bool.not_eq_false] at hlost
    obtain ⟨hfault, hholds⟩ := hlost
    rw [serve_cas_won pkey _ _ fault hfault hholds]
    by_cases hkey : key = pkey
    · subst hkey
      refine ⟨ms ++ [m], hms.extend hm (hms.follows htags hbase hparent hholds) rfl ?_ ?_⟩
      · rw [bodiesAt_append, if_pos rfl]
      · exact (Table.get?_set _ _ _ _).trans (if_pos rfl)
    · refine ⟨ms, hms.mono (fun _ hx => hx) ?_ ?_⟩
      · rw [bodiesAt_append, if_neg (fun heq => hkey heq.symm), List.append_nil]
      · exact (Table.get?_set _ _ _ _).trans (if_neg hkey)

theorem serve_noInstall (hop : ∀ key body precond, op ≠ .putPointer key body precond)
    (h : s.NoInstall pid') : (s.serve etag pid op fault).NoInstall pid' := by
  rw [World.NoInstall, (serve_pointers op fault hop).2]
  exact h

theorem attempt_failed (store : Store) (op : Op) (hfault : fault ≠ none) :
    (store.attempt etag op fault).1 = op.failed := by
  rcases fault with _ | _ | _
  · exact absurd rfl hfault
  · rfl
  · rfl

theorem pushOk_loaded (hchain : Chain sha s pkey ms)
    {k : (Op.getPointer pkey).Reply → StoreM PushOutcome} (hnone : s.NoInstall pid)
    (hload : ∀ r, AfterLoad sha pkey (k r) r) :
    PushOk sha etag (s.serve etag pid (.getPointer pkey) fault) pid pkey
      (k (s.store.attempt etag (.getPointer pkey) fault).1) := by
  have hop : ∀ key body precond, Op.getPointer pkey ≠ .putPointer key body precond := nofun
  have hnone' : (s.serve etag pid (.getPointer pkey) fault).NoInstall pid := serve_noInstall hop hnone
  have hgrows : Grows pid s (s.serve etag pid (.getPointer pkey) fault) := serve_grows _ fault
  by_cases hfault : fault = none
  · subst hfault
    cases hpointer : s.store.pointers.get? pkey with
    | none =>
      have hp : Publishing sha pkey ⟨none, none⟩ .published
          (k (s.store.attempt etag (.getPointer pkey) none).1) := by
        rw [Store.attempt, handle_getPointer, hpointer]
        exact hload (.ok none)
      exact .composing _ ⟨none, none⟩ hnone' rfl hp
    | some body =>
      have hp : Publishing sha pkey ⟨some (etag body), pointerDigest body⟩ .published
          (k (s.store.attempt etag (.getPointer pkey) none).1) := by
        rw [Store.attempt, handle_getPointer, hpointer]
        exact hload (.ok (some (etag body, body)))
      refine .composing _ _ hnone' ?_ hp
      exact ⟨body, hgrows.bodies (hchain.pointer_mem hpointer), rfl, rfl⟩
  · rw [attempt_failed s.store _ hfault]
    exact .lost _ hnone' (hload (.error _))

theorem pushOk_put {k : op.Reply → StoreM PushOutcome} (hnone : s.NoInstall pid)
    (hbase : Observed etag s pkey base) (hnext : Publishes sha pkey base .published op k) :
    PushOk sha etag (s.serve etag pid op fault) pid pkey (k (s.store.attempt etag op fault).1) := by
  have hgrows : Grows pid s (s.serve etag pid op fault) := serve_grows op fault
  rcases op with _ | _ | _ | ⟨key, bytes⟩ | _
  · exact hnext.elim
  · exact hnext.elim
  · exact hnext.elim
  · obtain ⟨m, hm, rfl, rfl, hcommits, hlost⟩ := hnext
    have hnone' : (s.serve etag pid (.putNew (contentKey sha "manifests" m.canonicalBytes)
        m.canonicalBytes) fault).NoInstall pid :=
      serve_noInstall (fun _ _ _ => Op.noConfusion) hnone
    by_cases hfault : fault = none
    · subst hfault
      have hp : Commits sha pkey base .published m (k (s.store.attempt etag
          (.putNew (contentKey sha "manifests" m.canonicalBytes) m.canonicalBytes) none).1) := by
        simpa only [Store.attempt, handle_putNew_reply] using hcommits
      refine .committing _ base m hnone' (hbase.mono hgrows.bodies) hm.parent ?_ hp
      refine ⟨hm.version, hm.canonical, ?_⟩
      simp [World.serve, Op.puts]
    · rw [attempt_failed s.store _ hfault]
      exact .lost _ hnone' (hlost _)
  · exact hnext.elim

theorem pushOk_cas {k : op.Reply → StoreM PushOutcome} (hnone : s.NoInstall pid)
    (hm : Written sha s m) (hcommits : Commits sha pkey base .published m (.call op k)) :
    PushOk sha etag (s.serve etag pid op fault) pid pkey (k (s.store.attempt etag op fault).1) := by
  obtain ⟨k', heq, hwon, hlost, herror⟩ := hcommits
  cases heq
  by_cases hfault : fault = none
  · subst hfault
    cases hholds : base.precond.holds etag (s.store.pointers.get? pkey) with
    | true =>
      have hreply : (s.store.attempt etag (.putPointer pkey (m.body sha) base.precond) none).1 =
          .ok (.won (etag (m.body sha))) := by
        rw [Store.attempt, handle_putPointer, if_pos hholds]
      rw [hreply, serve_cas_won pkey _ _ none nofun hholds]
      refine (hwon _).symm ▸ .won m (hm.mono fun _ hx => hx) ?_
      exact List.mem_append_right _ (List.mem_singleton.mpr rfl)
    | false =>
      have hreply : (s.store.attempt etag (.putPointer pkey (m.body sha) base.precond) none).1 =
          .ok .lostRace := by
        rw [Store.attempt, handle_putPointer, if_neg (by simp [hholds])]
      rw [hreply, serve_cas_lost pkey _ _ none (Or.inr hholds)]
      exact .lost _ hnone hlost
  · rw [attempt_failed s.store _ hfault]
    exact (herror _).symm ▸ .unknown _

theorem PushOk.request (hchain : Chain sha s pkey ms) {k : op.Reply → StoreM PushOutcome}
    (h : PushOk sha etag s pid pkey (.call op k)) :
    PushOk sha etag (s.serve etag pid op fault) pid pkey (k (s.store.attempt etag op fault).1) := by
  have hgrows : Grows pid s (s.serve etag pid op fault) := serve_grows op fault
  cases h with
  | loading _ hnone hload => exact pushOk_loaded hchain hnone hload
  | composing _ base hnone hbase hp =>
    simp only [Publishing, Before] at hp
    split_ifs at hp with hpub
    · exact pushOk_put hnone hbase hp
    · have hop := not_putPointer_of_not_publishes (by simpa using hpub)
      exact .composing _ base (serve_noInstall hop hnone) (hbase.mono hgrows.bodies) (hp _)
  | committing _ base m hnone hbase hparent hm hp => exact pushOk_cas hnone hm hp
  | lost _ hnone hp =>
    simp only [Lost, Never, Before] at hp
    split_ifs at hp with hpub
    have hop := not_putPointer_of_not_publishes (by simpa using hpub)
    exact .lost _ (serve_noInstall hop hnone) (hp _)

theorem addressed_of_not_publishes (h : op.publishes = false) : ∀ x ∈ op.puts, Addressed sha x := by
  intro x hx hmanifest
  cases op with
  | putNew key bytes =>
    rw [List.mem_singleton.mp hx] at hmanifest
    exact absurd hmanifest (Bool.eq_false_iff.mp h)
  | _ => cases hx

theorem PushOk.addressed {k : op.Reply → StoreM PushOutcome}
    (h : PushOk sha etag s pid pkey (.call op k)) : ∀ x ∈ op.puts, Addressed sha x := by
  cases h with
  | loading _ _ _ => exact addressed_of_not_publishes rfl
  | composing _ base _ _ hp =>
    simp only [Publishing, Before] at hp
    split_ifs at hp with hpub
    · intro x hx _
      cases op with
      | putNew key bytes =>
        obtain ⟨m, -, rfl, rfl, -⟩ := hp
        rw [List.mem_singleton.mp hx]
      | _ => cases hx
    · exact addressed_of_not_publishes (by simpa using hpub)
  | committing _ base m _ _ _ _ hp =>
    obtain ⟨k', heq, -⟩ := hp
    cases heq
    exact fun x hx => by cases hx
  | lost _ _ hp =>
    simp only [Lost, Never, Before] at hp
    split_ifs at hp with hpub
    exact addressed_of_not_publishes (by simpa using hpub)

/-! ## A step -/

theorem Grows.refl (pid : Pid) (s : World) : Grows pid s s :=
  ⟨fun _ h => h, fun _ h => h, fun _ h => Or.inl h⟩

section Procs

variable (procs : Table Pid Proc)

theorem Grows.withProcs (h : Grows pid s s') : Grows pid s { s' with procs := procs } :=
  ⟨h.puts, h.installs, h.others⟩

theorem ObjectsOk.withProcs (h : ObjectsOk sha s) : ObjectsOk sha { s with procs := procs } :=
  ⟨h.fromPuts, h.stored, h.addressed⟩

theorem Chain.withProcs (h : Chain sha s pkey ms) : Chain sha { s with procs := procs } pkey ms :=
  h.mono (fun _ hx => hx) rfl rfl

theorem PushOk.withProcs {p : StoreM PushOutcome} (h : PushOk sha etag s pid pkey p) :
    PushOk sha etag { s with procs := procs } pid pkey p :=
  h.mono ((Grows.refl pid s).withProcs procs) fun hnone => hnone

end Procs

theorem step_grows {a : Action} (hstep : step sha git etag s a = some s') :
    ∃ pid, Grows pid s s' := by
  cases a with
  | push pid options pkey receive =>
    simp only [step] at hstep
    split_ifs at hstep
    cases hstep
    exact ⟨pid, (Grows.refl pid s).withProcs _⟩
  | read pid pkey =>
    simp only [step] at hstep
    split_ifs at hstep
    cases hstep
    exact ⟨pid, (Grows.refl pid s).withProcs _⟩
  | request pid fault =>
    simp only [step, Option.bind_eq_some_iff] at hstep
    obtain ⟨proc, -, hproc⟩ := hstep
    refine ⟨pid, ?_⟩
    rcases proc with ⟨pkey, _ | ⟨op, k⟩⟩ | (_ | ⟨op, k⟩)
    · cases hproc
    · cases hproc
      exact (serve_grows op fault).withProcs _
    · cases hproc
    · cases hproc
      exact (serve_grows op fault).withProcs _

theorem ETagsDiffer.mono (h : ETagsDiffer etag s') (hgrows : Grows pid s s') :
    ETagsDiffer etag s := by
  intro pkey b hb b' hb' heq
  exact h pkey b (hgrows.bodies hb) b' (hgrows.bodies hb') heq

theorem inv_init : Inv sha etag World.init where
  objects := ⟨nofun, nofun, nofun⟩
  chain _ := ⟨[], ⟨rfl, nofun, nofun, .nil, rfl⟩⟩
  pushes := nofun
  reads := nofun
  unstarted _ _ := nofun

theorem inv_party {t : World} (h : Inv sha etag s) {proc : Proc} (hgrows : Grows pid s t)
    (hobjects : ObjectsOk sha t) (hchain : ∀ pkey, ∃ ms, Chain sha t pkey ms)
    (hpush : ∀ pkey p, proc = .push pkey p → PushOk sha etag t pid pkey p)
    (hread : ∀ p, proc = .read p → Quiet p) :
    Inv sha etag { t with procs := s.procs.set pid proc } where
  objects := hobjects.withProcs _
  chain pkey := (hchain pkey).imp fun _ hms => hms.withProcs _
  pushes pid' pkey p hp := by
    rw [Table.get?_set] at hp
    split_ifs at hp with hpid
    · subst hpid
      exact (hpush pkey p (Option.some.inj hp)).withProcs _
    · exact ((h.pushes pid' pkey p hp).mono hgrows (hgrows.noInstall hpid)).withProcs _
  reads pid' p hp := by
    rw [Table.get?_set] at hp
    split_ifs at hp with hpid
    · exact hread p (Option.some.inj hp)
    · exact h.reads pid' p hp
  unstarted pid' hnone := by
    rw [Table.get?_set] at hnone
    split_ifs at hnone with hpid
    exact hgrows.noInstall hpid (h.unstarted pid' hnone)

theorem inv_push (h : Inv sha etag s) (htags : ETagsDiffer etag s)
    {k : op.Reply → StoreM PushOutcome} (hproc : s.procs.get? pid = some (.push pkey (.call op k)))
    (hstep : stepProc etag s pid fault (.push pkey (.call op k)) = some s') : Inv sha etag s' := by
  have hpush := h.pushes pid pkey _ hproc
  obtain ⟨ms, hms⟩ := h.chain pkey
  cases hstep
  refine inv_party h (serve_grows op fault) ?_ ?_ ?_ nofun
  · exact serve_objectsOk h.objects op fault hpush.addressed
  · intro key
    rcases hpush.op_cases with hop | ⟨base, m, hcas⟩
    · obtain ⟨ms', hms'⟩ := h.chain key
      exact ⟨ms', serve_chain_quiet hop hms'⟩
    · exact serve_chain_cas htags hcas h.chain key
  · rintro pkey' p ⟨⟩
    exact hpush.request hms

theorem inv_read (h : Inv sha etag s)
    {k : op.Reply → StoreM (Except HydrateError (Option (ETag × String × Manifest)))}
    (hproc : s.procs.get? pid = some (.read (.call op k)))
    (hstep : stepProc etag s pid fault (.read (.call op k)) = some s') : Inv sha etag s' := by
  have hquiet := h.reads pid _ hproc
  simp only [Avoids, Never, Before] at hquiet
  split_ifs at hquiet with hpub
  have hpub' : op.publishes = false := by simpa using hpub
  cases hstep
  refine inv_party h (serve_grows op fault) ?_ ?_ (fun _ _ h => by cases h) ?_
  · exact serve_objectsOk h.objects op fault (addressed_of_not_publishes hpub')
  · intro key
    obtain ⟨ms, hms⟩ := h.chain key
    exact ⟨ms, serve_chain_quiet (not_putPointer_of_not_publishes hpub') hms⟩
  · rintro p ⟨⟩
    exact hquiet _

theorem inv_step (h : Inv sha etag s) (htags : ETagsDiffer etag s) {a : Action}
    (hstep : step sha git etag s a = some s') : Inv sha etag s' := by
  cases a with
  | push pid options pkey receive =>
    simp only [step] at hstep
    split_ifs at hstep with hstarted
    cases hstep
    have hfresh := h.unstarted pid (by simpa using hstarted)
    obtain ⟨k, hpush, hload⟩ := push_requests sha git options pkey receive
    refine inv_party h (Grows.refl pid s) h.objects h.chain ?_ nofun
    · rintro pkey' p ⟨⟩
      rw [hpush]
      exact .loading k hfresh hload
  | read pid pkey =>
    simp only [step] at hstep
    split_ifs at hstep
    cases hstep
    refine inv_party h (Grows.refl pid s) h.objects h.chain nofun ?_
    · rintro p ⟨⟩
      exact quiet_of_readOnly (readOnly_loadPointer sha pkey)
  | request pid fault =>
    simp only [step, Option.bind_eq_some_iff] at hstep
    obtain ⟨proc, hget, hproc⟩ := hstep
    rcases proc with ⟨pkey, _ | ⟨op, k⟩⟩ | (_ | ⟨op, k⟩)
    · cases hproc
    · exact inv_push h htags hget hproc
    · cases hproc
    · exact inv_read h hget hproc

theorem inv_run (hrun : run (step sha git etag) World.init actions = some s)
    (htags : ETagsDiffer etag s) : Inv sha etag s := by
  refine run_invariant (fun s => ETagsDiffer etag s → Inv sha etag s) ?_ (fun _ => inv_init) hrun
    htags
  intro s a s' h hstep htags'
  obtain ⟨pid, hgrows⟩ := step_grows git hstep
  have htags := htags'.mono hgrows
  exact inv_step git (h htags) htags hstep

/-! ## Whole runs -/

theorem contentKey_inj {kind : String} {b b' : ByteArray}
    (h : contentKey sha kind b = contentKey sha kind b') : sha.hex b = sha.hex b' := by
  have hlists := congrArg String.toList h
  simp only [contentKey, String.toList_append, List.append_cancel_left_eq] at hlists
  exact String.toList_inj.mp hlists

theorem manifestAt_of_written (h : ObjectsOk sha s) (hfree : CollisionFree sha s)
    (hm : Written sha s m) : s.store.manifestAt (sha.hex m.canonicalBytes) = some m := by
  have hkey : contentKey sha "manifests" m.canonicalBytes =
      "manifests/" ++ sha.hex m.canonicalBytes := rfl
  obtain ⟨bytes, hbytes⟩ := Option.isSome_iff_exists.mp (h.stored _ hm.put)
  have hput := h.fromPuts _ _ hbytes
  have haddress : contentKey sha "manifests" m.canonicalBytes = contentKey sha "manifests" bytes :=
    h.addressed _ hput (by simp [hkey, List.isPrefixOf])
  rw [haddress] at hput
  have hsame : m.canonicalBytes = bytes := hfree _ _ hm.put hput (contentKey_inj haddress)
  rw [Store.manifestAt, ← hkey, hbytes, Option.bind_some, ← hsame,
    fromBytes_canonicalBytes m hm.version, hm.canonical]
  rfl

theorem Written.inj {m' : Manifest} (hfree : CollisionFree sha s) (hm : Written sha s m)
    (hm' : Written sha s m') (h : sha.hex m.canonicalBytes = sha.hex m'.canonicalBytes) :
    m = m' := by
  have hbytes := hfree _ _ hm.put hm'.put h
  have hcanonical := canonical_eq_of_bytes_eq hm.version hm'.version hbytes
  rwa [hm.canonical, hm'.canonical] at hcanonical

theorem Chain.linearHistory (h : Chain sha s pkey ms) (hobjects : ObjectsOk sha s)
    (hfree : CollisionFree sha s) : LinearHistory sha s pkey ms where
  bodies := h.bodies
  stored m hm := manifestAt_of_written hobjects hfree (h.written m hm)
  first := h.first
  linked := h.linked
  nodup := nodup_of_linked (fun m => sha.hex m.canonicalBytes) Manifest.parent h.first h.linked
    fun m hm m' hm' heq => (h.written m hm).inj hfree (h.written m' hm') heq
  pointer := h.pointer

theorem Chain.mem_of_install (h : Chain sha s pkey ms) (hfree : CollisionFree sha s)
    (hm : Written sha s m) (hinstall : ⟨pid, pkey, m.body sha⟩ ∈ s.installs) : m ∈ ms := by
  have hbody : m.body sha ∈ s.bodiesAt pkey := mem_bodiesAt.mpr ⟨_, hinstall, rfl, rfl⟩
  rw [h.bodies, List.mem_map] at hbody
  obtain ⟨m', hm', heq⟩ := hbody
  have hdigest : sha.hex m'.canonicalBytes = sha.hex m.canonicalBytes :=
    Option.some.inj (by rw [← pointerDigest_body sha, heq, pointerDigest_body sha])
  rwa [← (h.written m' hm').inj hfree hm hdigest]

theorem request_pointers (hstep : step sha git etag s (.request pid fault) = some s') :
    s'.store.pointers = s.store.pointers ∨ ¬ s'.NoInstall pid := by
  have hserve : ∀ op, (s.serve etag pid op fault).store.pointers = s.store.pointers ∨
      ¬ (s.serve etag pid op fault).NoInstall pid := by
    intro op
    by_cases hop : ∀ key body precond, op ≠ .putPointer key body precond
    · exact Or.inl (serve_pointers op fault hop).1
    · push Not at hop
      obtain ⟨key, body, precond, rfl⟩ := hop
      by_cases hlost : fault = some .before ∨
          precond.holds etag (s.store.pointers.get? key) = false
      · rw [serve_cas_lost key body precond fault hlost]
        exact Or.inl rfl
      · rw [not_or, Bool.not_eq_false] at hlost
        rw [serve_cas_won key body precond fault hlost.1 hlost.2]
        refine Or.inr fun hnone => ?_
        exact hnone ⟨pid, key, body⟩ (List.mem_append_right _ (List.mem_singleton.mpr rfl)) rfl
  simp only [step, Option.bind_eq_some_iff] at hstep
  obtain ⟨proc, -, hproc⟩ := hstep
  rcases proc with ⟨pkey, _ | ⟨op, k⟩⟩ | (_ | ⟨op, k⟩)
  · cases hproc
  · cases hproc
    exact hserve op
  · cases hproc
  · cases hproc
    exact hserve op

theorem run_installs (hrun : run (step sha git etag) s actions = some s') :
    s.installs ⊆ s'.installs := by
  refine run_related (fun s s' => s.installs ⊆ s'.installs) ?_ ?_ ?_ hrun
  · exact fun s _ hx => hx
  · exact fun s t u hst htu _ hx => htu (hst hx)
  · intro s a s' hstep
    obtain ⟨pid, hgrows⟩ := step_grows git hstep
    exact hgrows.installs

variable (sha etag) in
def LeavesPointers (actions : List Action) (pid : Pid) : Prop :=
  ∀ before fault after t t', actions = before ++ Action.request pid fault :: after →
    run (step sha git etag) World.init before = some t →
    step sha git etag t (.request pid fault) = some t' → t'.store.pointers = t.store.pointers

theorem leavesPointers_of_noInstall (hrun : run (step sha git etag) World.init actions = some s)
    (hnone : s.NoInstall pid) : LeavesPointers sha git etag actions pid := by
  rintro before fault after t t' rfl hbefore hstep
  obtain ⟨u, hu, hrest⟩ := run_append_some.mp hrun
  cases hbefore.symm.trans hu
  obtain ⟨v, hv, hafter⟩ := run_cons_some.mp hrest
  cases hstep.symm.trans hv
  have hgrows := run_installs git hafter
  exact (request_pointers git hstep).resolve_right fun h => h fun i hi => hnone i (hgrows hi)

theorem PushOk.noInstall_of_error {e : CasError}
    (h : PushOk sha etag s pid pkey (.ret (.published (.error e))))
    (he : ∀ b, e ≠ .backend b) : s.NoInstall pid := by
  cases h with
  | composing _ _ hnone _ _ => exact hnone
  | committing _ _ _ hnone _ _ _ _ => exact hnone
  | lost _ hnone _ => exact hnone
  | unknown b => exact absurd rfl (he b)

theorem PushOk.installed_of_success {success : CasSuccess}
    (h : PushOk sha etag s pid pkey (.ret (.published (.ok success)))) :
    Written sha s success.manifest ∧ ⟨pid, pkey, success.manifest.body sha⟩ ∈ s.installs := by
  cases h with
  | composing _ _ _ _ hp => exact absurd rfl (hp success)
  | committing _ _ _ _ _ _ _ hp =>
    obtain ⟨k, heq, -⟩ := hp
    cases heq
  | lost _ _ hp => exact absurd rfl (hp success)
  | won m hm hinstall => exact ⟨hm, hinstall⟩

/-- Whatever the pushers and readers do in whatever order, the manifests of every pointer form
one chain that ends at the pointer. A push that succeeded is in the chain, and one that was
turned down has changed no pointer. -/
theorem pointer_history_is_linear (sha : Sha256) (git : GitTool) (etag : ByteArray → ETag)
    (actions : List Action) (s : World)
    (hrun : run (step sha git etag) World.init actions = some s)
    (hfree : CollisionFree sha s) (htags : ETagsDiffer etag s) :
    (∀ pkey, ∃ ms, LinearHistory sha s pkey ms ∧
      ∀ pid success, s.procs.get? pid = some (.push pkey (.ret (.published (.ok success)))) →
        success.manifest ∈ ms) ∧
    ∀ pid pkey e, s.procs.get? pid = some (.push pkey (.ret (.published (.error e)))) →
      (∀ b, e ≠ .backend b) → LeavesPointers sha git etag actions pid := by
  have hinv : Inv sha etag s := inv_run git hrun htags
  constructor
  · intro pkey
    obtain ⟨ms, hms⟩ := hinv.chain pkey
    refine ⟨ms, hms.linearHistory hinv.objects hfree, ?_⟩
    intro pid success hproc
    obtain ⟨hm, hinstall⟩ := (hinv.pushes pid pkey _ hproc).installed_of_success
    exact hms.mem_of_install hfree hm hinstall
  · intro pid pkey e hproc he
    exact leavesPointers_of_noInstall git hrun
      ((hinv.pushes pid pkey _ hproc).noInstall_of_error he)

end

/-! ## Two first pushes and a later one -/

def emptyManifest (head : String) (parent : Option String) : Manifest :=
  ⟨manifestVersion, head, .empty, [], parent⟩

def mainDigest : String := "b965e85e22f02c090a6857aa243d1765be73643e8e2a0c1759c30683180bfd17"

def raceSha : Sha256 where
  hex bytes :=
    if bytes.size = 73 then mainDigest
    else if bytes.size = 74 then "ba73d1fc3e6659176cf19f3cdf50185f6833bfab60cebb961f068d19aa22ef8c"
    else "b91531358a9fbc8f2a1d4274a0459bffb7fa9eb44d4159bd4432938a56858eb5"
  hex_isDigest bytes := by split_ifs <;> decide

def raceETag (body : ByteArray) : ETag :=
  if body = mainDigest.toUTF8 then ⟨"c64c6531818d9e8492d3b841cc0acacb"⟩
  else ⟨"3a9da1c8c5f294d67fe2f91a3ff7c20a"⟩

def raceGit : GitTool := ⟨fun _ => none⟩

/-- A push that leaves no ref and `HEAD` at a branch. -/
def emptyRepo (head : String) (_ : ParentState) : Option Workspace :=
  some ⟨some ⟨#[]⟩, some (head ++ "\n"), true, some (0, 0), some [], 0, none⟩

def raceOptions : HydrationOptions := ⟨1000, 10000⟩

def raceKey : String := "repos/c/alice/notes/pointer"

/-- Both `0` and `1` find no pointer. `0` wins, `1` is told so, and `2` follows `0` while `3`
reads. -/
def race : List Action :=
  [.push 0 raceOptions raceKey (emptyRepo "refs/heads/main"),
    .push 1 raceOptions raceKey (emptyRepo "refs/heads/trunk"),
    .request 0 none, .request 1 none, .request 1 none, .request 0 none, .request 0 none,
    .request 1 none, .request 1 none, .request 1 none, .read 3 raceKey,
    .push 2 raceOptions raceKey (emptyRepo "refs/heads/trunk"),
    .request 2 none, .request 3 none, .request 2 none, .request 2 none, .request 3 none,
    .request 2 none, .request 2 none, .request 3 none]

def Proc.casError : Proc → Option (String × CasError)
  | .push pkey (.ret (.published (.error e))) => some (pkey, e)
  | _ => none

theorem eq_of_casError {proc : Proc} {pkey : String} {e : CasError}
    (h : proc.casError = some (pkey, e)) : proc = .push pkey (.ret (.published (.error e))) := by
  unfold Proc.casError at h
  split at h
  · cases h
    rfl
  · cases h

def raceConflict : CasError :=
  .conflict (emptyManifest "refs/heads/main" none) ("manifests/" ++ mainDigest)

structure RaceEnd (s : World) : Prop where
  digests : (s.puts.map fun x => raceSha.hex x.2).Nodup
  etags : (s.installs.map fun i => raceETag i.body).Nodup
  bodies : s.bodiesAt raceKey =
    [(emptyManifest "refs/heads/main" none).body raceSha,
      (emptyManifest "refs/heads/trunk" (some mainDigest)).body raceSha]
  conflict : (s.procs.get? 1).bind Proc.casError = some (raceKey, raceConflict)

instance (s : World) : Decidable (RaceEnd s) :=
  decidable_of_iff (_ ∧ _ ∧ _ ∧ _)
    ⟨fun h => ⟨h.1, h.2.1, h.2.2.1, h.2.2.2⟩, fun h => ⟨h.digests, h.etags, h.bodies, h.conflict⟩⟩

theorem race_history_is_linear :
    ∃ s, run (step raceSha raceGit raceETag) World.init race = some s ∧ RaceEnd s ∧
      (∃ ms, LinearHistory raceSha s raceKey ms) ∧
      LeavesPointers raceSha raceGit raceETag race 1 := by
  have hrun : (run (step raceSha raceGit raceETag) World.init race).any
      (fun s => decide (RaceEnd s)) = true := by decide +kernel
  obtain ⟨s, hs, hend⟩ := (Option.any_eq_true _ _).mp hrun
  replace hend := of_decide_eq_true hend
  have hfree : CollisionFree raceSha s := by
    intro b b' hb hb' heq
    exact congrArg Prod.snd (List.inj_on_of_nodup_map hend.digests hb hb' heq)
  have htags : ETagsDiffer raceETag s := by
    intro pkey b hb b' hb' heq
    obtain ⟨i, hi, -, rfl⟩ := mem_bodiesAt.mp hb
    obtain ⟨j, hj, -, rfl⟩ := mem_bodiesAt.mp hb'
    exact congrArg Install.body (List.inj_on_of_nodup_map hend.etags hi hj heq)
  obtain ⟨hchains, herrors⟩ :=
    pointer_history_is_linear raceSha raceGit raceETag race s hs hfree htags
  obtain ⟨ms, hms, -⟩ := hchains raceKey
  obtain ⟨proc, hproc, herror⟩ := Option.bind_eq_some_iff.mp hend.conflict
  rw [eq_of_casError herror] at hproc
  exact ⟨s, hs, hend, ⟨ms, hms⟩, herrors 1 raceKey raceConflict hproc nofun⟩

end Vingilot.Git
