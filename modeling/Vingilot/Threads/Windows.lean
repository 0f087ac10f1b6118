import Vingilot.Threads.Pages

/-!
# Reading a channel window by window (`buzz-db/src/thread.rs`)

The reader starts at the head and goes on from the `next_cursor` of each window until one says that
there is no more. Nothing is written to the channel in between.
-/

namespace Vingilot.Threads

open Events (Stamp)

/-! ## The reader -/

/-- At most `fuel` windows, of which one has to be the last. -/
def readChannel (parse : EventRow → Option Events.Event) (db : Db) (channelId : Uuid)
    (limit : BitVec 32) (kinds : Option (List Kind)) :
    Nat → Option WindowCursor → Except PageError (Option (List ChannelWindow))
  | 0, _ => .ok none
  | fuel + 1, cursor =>
    match getChannelWindowOn parse db channelId limit cursor kinds with
    | .error e => .error e
    | .ok window =>
      match window.hasMore, window.nextCursor with
      | false, _ => .ok (some [window])
      | true, none => .ok none
      | true, some next =>
        (readChannel parse db channelId limit kinds fuel (some next)).map fun rest =>
          rest.map (window :: ·)

structure LiveTopLevel (db : Db) (channelId : Uuid) (kinds : Option (List Kind))
    (x : Stamp × EventRow × Option ThreadMetadata) : Prop where
  event : db.events.get? x.1 = some x.2.1
  metadata : db.metadata.get? x.1 = x.2.2
  channel : x.2.1.channelId = some channelId
  live : x.2.1.deleted = false
  level : ∀ m ∈ x.2.2, m.depth = 0 ∨ m.depth = 1 ∧ m.broadcast = true
  kind : ∀ ks ∈ kinds, ks ≠ [] → x.2.1.event.kind ∈ ks

/-- `created_at DESC, id ASC`. -/
def Before (x y : Stamp) : Prop :=
  y.createdAt < x.createdAt ∨ y.createdAt = x.createdAt ∧ x.id < y.id

def Db.shown (db : Db) (parse : EventRow → Option Events.Event)
    (x : Stamp × EventRow × Option ThreadMetadata) : Option ChannelWindowRow :=
  (readable parse x.2.1).map fun stored => db.withParticipants (ChannelWindowRow.of x stored)

/-! ## One window -/

section Window

variable {parse : EventRow → Option Events.Event} {db : Db} {channelId : Uuid} {limit : BitVec 32}
  {cursor : Option WindowCursor} {kinds : Option (List Kind)}

theorem readRows_fails {μ α : Type} {make : Stamp × EventRow × μ → StoredEvent → α}
    {xs : List (Stamp × EventRow × μ)} (h : ∃ x ∈ xs, 65535 < x.2.1.event.kind) :
    ∃ text, readRows parse make xs = .error (.invalidData text) := by
  induction xs with
  | nil =>
    obtain ⟨x, hx, -⟩ := h
    cases hx
  | cons x rest ih =>
    rw [readRows, rowToStoredEvent_eq]
    by_cases hkind : 65535 < x.2.1.event.kind
    · exact ⟨_, by rw [if_pos hkind]⟩
    · obtain ⟨y, hy, hwide⟩ := h
      have hrest : y ∈ rest := by
        refine (List.mem_cons.mp hy).resolve_left ?_
        rintro rfl
        exact hkind hwide
      obtain ⟨text, htext⟩ := ih ⟨y, hrest, hwide⟩
      rw [if_neg hkind]
      cases readable parse x.2.1 with
      | none => exact ⟨text, htext⟩
      | some stored => exact ⟨text, by simp only [htext]; rfl⟩

theorem isTopLevel_iff {m : Option ThreadMetadata} :
    isTopLevel m = true ↔ ∀ m' ∈ m, m'.depth = 0 ∨ m'.depth = 1 ∧ m'.broadcast = true := by
  cases m <;> simp [isTopLevel]

theorem kindAllowed_iff {kind : Kind} :
    kindAllowed kinds kind = true ↔ ∀ ks ∈ kinds, ks ≠ [] → kind ∈ ks := by
  cases kinds with
  | none => simp [kindAllowed]
  | some ks => cases ks <;> simp [kindAllowed]

theorem mem_head {x : Stamp × EventRow × Option ThreadMetadata} :
    x ∈ db.windowRows channelId kinds none ↔ LiveTopLevel db channelId kinds x := by
  rw [mem_windowRows, and_iff_left (show afterWindowCursor none x.1 = true from rfl), rowAt_some,
    isTopLevel_iff, kindAllowed_iff]
  constructor
  · rintro ⟨hevent, hmetadata, hchannel, hlive, hlevel, hkind⟩
    exact ⟨hevent, hmetadata, hchannel, hlive, hlevel, hkind⟩
  · intro h
    exact ⟨h.event, h.metadata, h.channel, h.live, h.level, h.kind⟩

theorem sorted_head : (db.windowRows channelId kinds none).Pairwise fun x y => Before x.1 y.1 := by
  refine (Keyset.sorted_query windowRank_injective).imp ?_
  intro x y hlt
  exact Stamp.lt_iff.mp (OrderDual.toDual_lt_toDual.mp hlt)

theorem nodup_head : (db.windowRows channelId kinds none).Nodup :=
  Keyset.nodup_of_sorted (Keyset.sorted_query windowRank_injective)

theorem windowRows_behind {xs ys : List (Stamp × EventRow × Option ThreadMetadata)}
    {z : Stamp × EventRow × Option ThreadMetadata}
    (hall : db.windowRows channelId kinds none = xs ++ z :: ys) :
    db.windowRows channelId kinds (some (Stamp.cursor z.1)) = ys := by
  refine Keyset.query_behind ?_ windowRank_injective hall fun k => ?_
  · rintro k ⟨row, m⟩ hrow
    rw [(rowAt_some.mp hrow).1]
    rfl
  · rw [afterWindowCursor_cursor, and_iff_right (show afterWindowCursor none k = true from rfl)]

def Db.windowOf (db : Db) (parse : EventRow → Option Events.Event) (more : Bool)
    (visited : List (Stamp × EventRow × Option ThreadMetadata)) : ChannelWindow :=
  ⟨visited.filterMap (db.shown parse), more,
    if more then visited.getLast?.map fun x => Stamp.cursor x.1 else none⟩

theorem getChannelWindowOn_eq
    (hkinds : ∀ x ∈ (db.windowRows channelId kinds cursor).take limit.toNat,
      x.2.1.event.kind ≤ 65535) :
    getChannelWindowOn parse db channelId limit cursor kinds =
      .ok (db.windowOf parse (decide (limit.toNat < (db.windowRows channelId kinds cursor).length))
        ((db.windowRows channelId kinds cursor).take limit.toNat)) := by
  have hmore : limit.toNat < ((db.windowRows channelId kinds cursor).take
      (limit.toNat + 1)).length ↔ limit.toNat < (db.windowRows channelId kinds cursor).length := by
    rw [List.length_take]
    omega
  have hread : readRows parse ChannelWindowRow.of
      ((db.windowRows channelId kinds cursor).take limit.toNat) = .ok _ :=
    readRows_eq_ok.mpr ⟨hkinds, rfl⟩
  unfold getChannelWindowOn
  simp only [List.take_take, Nat.min_eq_left (Nat.le_succ _), hmore, hread, Except.map,
    List.map_filterMap, Option.map_map]
  rfl

theorem getChannelWindowOn_fails
    (hwide : ∃ x ∈ (db.windowRows channelId kinds cursor).take limit.toNat,
      65535 < x.2.1.event.kind) :
    ∃ text, getChannelWindowOn parse db channelId limit cursor kinds = .error (.invalidData text) := by
  unfold getChannelWindowOn
  simp only [List.take_take, Nat.min_eq_left (Nat.le_succ _)]
  obtain ⟨text, htext⟩ : ∃ text, readRows parse ChannelWindowRow.of _ = .error (.invalidData text) :=
    readRows_fails hwide
  exact ⟨text, by rw [htext]; rfl⟩

end Window

/-! ## All windows -/

section Run

variable {parse : EventRow → Option Events.Event} {db : Db} {channelId : Uuid} {limit : BitVec 32}
  {kinds : Option (List Kind)}

def Db.windowsOf (db : Db) (parse : EventRow → Option Events.Event) :
    List (List (Stamp × EventRow × Option ThreadMetadata)) → List ChannelWindow
  | [] => []
  | visited :: rest => db.windowOf parse (!rest.isEmpty) visited :: db.windowsOf parse rest

theorem length_windowsOf (visited : List (List (Stamp × EventRow × Option ThreadMetadata))) :
    (db.windowsOf parse visited).length = visited.length := by
  induction visited with
  | nil => rfl
  | cons v rest ih => rw [Db.windowsOf, List.length_cons, ih, List.length_cons]

theorem get_windowsOf {visited : List (List (Stamp × EventRow × Option ThreadMetadata))} {i : Nat}
    {v : List (Stamp × EventRow × Option ThreadMetadata)} (h : visited[i]? = some v) :
    (db.windowsOf parse visited)[i]? =
      some (db.windowOf parse (decide (i + 1 < visited.length)) v) := by
  induction visited generalizing i with
  | nil => cases h
  | cons v' rest ih =>
    cases i with
    | zero =>
      cases h
      cases rest <;> simp [Db.windowsOf]
    | succ i =>
      rw [List.getElem?_cons_succ] at h
      rw [Db.windowsOf, List.getElem?_cons_succ, ih h]
      simp

theorem window_step {xs rest : List (Stamp × EventRow × Option ThreadMetadata)}
    (hall : db.windowRows channelId kinds none = xs ++ rest) (hlimit : 0 < limit.toNat)
    (hmore : limit.toNat < rest.length) :
    ∃ z, (rest.take limit.toNat).getLast? = some z ∧
      db.windowRows channelId kinds (some (Stamp.cursor z.1)) = rest.drop limit.toNat := by
  have hne : rest.take limit.toNat ≠ [] := by
    rw [← List.length_pos_iff, List.length_take]
    omega
  obtain ⟨ys, z, hz⟩ := (List.eq_nil_or_concat (rest.take limit.toNat)).resolve_left hne
  rw [List.concat_eq_append] at hz
  have hbehind := calc db.windowRows channelId kinds none
    _ = xs ++ (rest.take limit.toNat ++ rest.drop limit.toNat) := by
      rw [hall, List.take_append_drop]
    _ = (xs ++ ys) ++ z :: rest.drop limit.toNat := by rw [hz]; simp
  exact ⟨z, by rw [hz, List.getLast?_concat], windowRows_behind hbehind⟩

theorem readChannel_rest (hlimit : 0 < limit.toNat) (fuel : Nat) (cursor : Option WindowCursor)
    (xs rest : List (Stamp × EventRow × Option ThreadMetadata))
    (hall : db.windowRows channelId kinds none = xs ++ rest)
    (hrest : db.windowRows channelId kinds cursor = rest)
    (hkinds : ∀ x ∈ rest, x.2.1.event.kind ≤ 65535)
    (hfuel : (Keyset.slices limit.toNat rest).length ≤ fuel) :
    readChannel parse db channelId limit kinds fuel cursor =
      .ok (some (db.windowsOf parse (Keyset.slices limit.toNat rest))) := by
  induction fuel generalizing cursor xs rest with
  | zero => exact absurd (Keyset.length_slices_pos limit.toNat rest) (not_lt.mpr hfuel)
  | succ fuel ih =>
    have hpage : ∀ x ∈ (db.windowRows channelId kinds cursor).take limit.toNat,
        x.2.1.event.kind ≤ 65535 := by
      rw [hrest]
      exact fun x hx => hkinds x (List.mem_of_mem_take hx)
    rw [readChannel, getChannelWindowOn_eq hpage, hrest]
    by_cases hmore : limit.toNat < rest.length
    · rw [Keyset.slices_more hlimit hmore] at hfuel ⊢
      have hslices : (Keyset.slices limit.toNat (rest.drop limit.toNat)).isEmpty = false :=
        List.isEmpty_eq_false_iff.mpr
          (List.length_pos_iff.mp (Keyset.length_slices_pos _ _))
      obtain ⟨z, hz, hbehind⟩ := window_step hall hlimit hmore
      have hnext := ih (some (Stamp.cursor z.1)) (xs ++ rest.take limit.toNat)
        (rest.drop limit.toNat) (by rw [List.append_assoc, List.take_append_drop, hall]) hbehind
        (fun x hx => hkinds x (List.mem_of_mem_drop hx)) (Nat.le_of_succ_le_succ hfuel)
      simp only [Db.windowsOf, Db.windowOf, hmore, hslices, hz, decide_true, Bool.not_false,
        Option.map_some, if_true, hnext, Except.map]
    · rw [Keyset.slices_last (not_lt.mp hmore), List.take_of_length_le (not_lt.mp hmore)]
      simp only [Db.windowsOf, Db.windowOf, hmore, decide_false, List.isEmpty_nil, Bool.not_true]

theorem readChannel_fails (hlimit : 0 < limit.toNat) (fuel : Nat) (cursor : Option WindowCursor)
    (xs rest : List (Stamp × EventRow × Option ThreadMetadata))
    (hall : db.windowRows channelId kinds none = xs ++ rest)
    (hrest : db.windowRows channelId kinds cursor = rest)
    (hwide : ∃ x ∈ rest, 65535 < x.2.1.event.kind)
    (hfuel : (Keyset.slices limit.toNat rest).length ≤ fuel) :
    ∃ text, readChannel parse db channelId limit kinds fuel cursor =
      .error (.invalidData text) := by
  induction fuel generalizing cursor xs rest with
  | zero => exact absurd (Keyset.length_slices_pos limit.toNat rest) (not_lt.mpr hfuel)
  | succ fuel ih =>
    rw [readChannel]
    by_cases hpage : ∃ x ∈ rest.take limit.toNat, 65535 < x.2.1.event.kind
    · rw [← hrest] at hpage
      obtain ⟨text, htext⟩ : ∃ text, getChannelWindowOn parse _ _ _ _ _ = .error _ :=
        getChannelWindowOn_fails hpage
      exact ⟨text, by rw [htext]⟩
    · have hgood : ∀ x ∈ (db.windowRows channelId kinds cursor).take limit.toNat,
          x.2.1.event.kind ≤ 65535 := by
        rw [hrest]
        exact fun x hx => not_lt.mp fun hlt => hpage ⟨x, hx, hlt⟩
      obtain ⟨x, hx, hlt⟩ := hwide
      have hlater : x ∈ rest.drop limit.toNat := by
        rw [← List.take_append_drop limit.toNat rest] at hx
        exact (List.mem_append.mp hx).resolve_left fun hx => hpage ⟨x, hx, hlt⟩
      have hmore : limit.toNat < rest.length := by
        have hpos := List.length_pos_of_mem hlater
        rw [List.length_drop] at hpos
        omega
      rw [Keyset.slices_more hlimit hmore] at hfuel
      obtain ⟨z, hz, hbehind⟩ := window_step hall hlimit hmore
      obtain ⟨text, htext⟩ := ih (some (Stamp.cursor z.1)) (xs ++ rest.take limit.toNat)
        (rest.drop limit.toNat) (by rw [List.append_assoc, List.take_append_drop, hall]) hbehind
        ⟨x, hlater, hlt⟩ (Nat.le_of_succ_le_succ hfuel)
      refine ⟨text, ?_⟩
      rw [getChannelWindowOn_eq hgood, hrest]
      simp only [Db.windowOf, hmore, hz, decide_true, Option.map_some, if_true, htext, Except.map]

structure ExactReading (parse : EventRow → Option Events.Event) (db : Db) (channelId : Uuid)
    (limit : BitVec 32) (kinds : Option (List Kind))
    (visited : List (List (Stamp × EventRow × Option ThreadMetadata)))
    (windows : List ChannelWindow) : Prop where
  reads : ∀ fuel, windows.length ≤ fuel →
    readChannel parse db channelId limit kinds fuel none = .ok (some windows)
  visits : ∀ x, x ∈ visited.flatten ↔ LiveTopLevel db channelId kinds x
  once : visited.flatten.Nodup
  order : visited.flatten.Pairwise fun x y => Before x.1 y.1
  each : visited.length = windows.length
  size : ∀ v ∈ visited, v.length ≤ limit.toNat
  rows : ∀ (i : Nat) (v : List _) (w : ChannelWindow), visited[i]? = some v →
    windows[i]? = some w → w.rows = v.filterMap (db.shown parse)
  hasMore : ∀ (i : Nat) (w : ChannelWindow), windows[i]? = some w → (w.hasMore = true ↔
    ∃ x, LiveTopLevel db channelId kinds x ∧ x ∉ (visited.take (i + 1)).flatten)
  nextCursor : ∀ (i : Nat) (w : ChannelWindow), windows[i]? = some w → (w.nextCursor.isSome = true ↔
    ∃ x, LiveTopLevel db channelId kinds x ∧ x ∉ (visited.take (i + 1)).flatten)

theorem exactReading_slices (hlimit : 0 < limit.toNat)
    (hkinds : ∀ x ∈ db.windowRows channelId kinds none, x.2.1.event.kind ≤ 65535) :
    ExactReading parse db channelId limit kinds
      (Keyset.slices limit.toNat (db.windowRows channelId kinds none))
      (db.windowsOf parse (Keyset.slices limit.toNat (db.windowRows channelId kinds none))) := by
  -- A window has a slice, and more exactly when a row is not in the slices so far.
  have hwindow : ∀ i w, (db.windowsOf parse
      (Keyset.slices limit.toNat (db.windowRows channelId kinds none)))[i]? = some w →
      ∃ v ∈ Keyset.slices limit.toNat (db.windowRows channelId kinds none),
        w = db.windowOf parse (decide
          (i + 1 < (Keyset.slices limit.toNat (db.windowRows channelId kinds none)).length)) v := by
    intro i w hw
    have hlt := (List.getElem?_eq_some_iff.mp hw).1
    rw [length_windowsOf] at hlt
    have hv := List.getElem?_eq_getElem hlt
    cases hw.symm.trans (get_windowsOf hv)
    exact ⟨_, List.getElem_mem hlt, rfl⟩
  have hunread := Keyset.lt_length_slices (n := limit.toNat)
    (@nodup_head db channelId kinds)
  simp only [mem_head] at hunread
  refine ⟨?_, ?_, ?_, ?_, (length_windowsOf _).symm, ?_, ?_, ?_, ?_⟩
  · intro fuel hfuel
    rw [length_windowsOf] at hfuel
    exact readChannel_rest hlimit fuel none [] _ rfl rfl hkinds hfuel
  · intro x
    rw [Keyset.flatten_slices, mem_head]
  · rw [Keyset.flatten_slices]
    exact nodup_head
  · rw [Keyset.flatten_slices]
    exact sorted_head
  · exact fun v hv => Keyset.length_le_of_mem_slices hlimit hv
  · intro i v w hv hw
    cases hw.symm.trans (get_windowsOf hv)
    rfl
  · intro i w hw
    obtain ⟨v, -, rfl⟩ := hwindow i w hw
    rw [← hunread]
    exact decide_eq_true_iff
  · intro i w hw
    obtain ⟨v, hv, rfl⟩ := hwindow i w hw
    rw [← hunread, Db.windowOf]
    by_cases hlt : i + 1 < (Keyset.slices limit.toNat (db.windowRows channelId kinds none)).length
    · have hne : v ≠ [] := by
        refine Keyset.slices_ne_nil ?_ hv
        intro hnil
        rw [hnil, Keyset.slices_last (Nat.zero_le _)] at hlt
        exact absurd hlt (by simp)
      have hsome : v.getLast?.isSome = true := List.getLast?_isSome.mpr hne
      simp [hlt, hsome]
    · simp [hlt]

/-- Reading a channel in windows of any size is exact, unless a row has a kind that is no `u16`, at
which the reader gets an error. -/
theorem channel_windows_exact (hlimit : 0 < limit.toNat) :
    ((∀ x, LiveTopLevel db channelId kinds x → x.2.1.event.kind ≤ 65535) →
      ∃ visited windows, ExactReading parse db channelId limit kinds visited windows) ∧
    ((∃ x, LiveTopLevel db channelId kinds x ∧ 65535 < x.2.1.event.kind) →
      ∃ n, ∀ fuel, n ≤ fuel → ∃ text,
        readChannel parse db channelId limit kinds fuel none = .error (.invalidData text)) := by
  constructor
  · intro hkinds
    exact ⟨_, _, exactReading_slices hlimit fun x hx => hkinds x (mem_head.mp hx)⟩
  · rintro ⟨x, hx, hlt⟩
    exact ⟨_, fun fuel hfuel =>
      readChannel_fails hlimit fuel none [] _ rfl rfl ⟨x, mem_head.mpr hx, hlt⟩ hfuel⟩

/-! ### Rows of one second -/

def tied (id : Events.EventId) : Events.Event := ⟨id, 7, 100, 9, [], "", Events.time100_lt⟩

def tiedChannel : Db where
  events := ((Table.set ∅ (tied 1).stamp ⟨tied 1, some 7, false⟩).set (tied 2).stamp
    ⟨tied 2, some 7, false⟩).set (tied 3).stamp ⟨tied 3, some 7, false⟩
  metadata := Table.set ∅ (tied 3).stamp ⟨7, some 1, some 100, some 1, some 100, 1, 0, 0, true⟩

def parseTied (row : EventRow) : Option Events.Event :=
  if row.event.id = 2 then none else some row.event

theorem channel_windows_exact_for_ties :
    ∃ visited windows, ExactReading parseTied tiedChannel 7 1 none visited windows := by
  refine (@channel_windows_exact parseTied tiedChannel 7 1 none (by decide)).1 ?_
  rintro ⟨k, row, m⟩ hx
  have hevent := hx.event
  simp only [tiedChannel, Table.get?_set] at hevent
  split_ifs at hevent
  all_goals cases hevent
  all_goals exact (by decide : 9 ≤ 65535)

example : (readChannel parseTied tiedChannel 7 1 none 3 none).toOption.bind (·.map fun windows =>
    windows.map fun w => (w.rows.map fun row => row.storedEvent.event.id, w.hasMore)) =
    some [([1], true), ([], true), ([3], false)] := by decide +kernel

/-- The first of two rows has a kind that is no `u16`. -/
def wideChannel : Db where
  events := (Table.set ∅ (tied 1).stamp ⟨{ tied 1 with kind := 70000 }, some 7, false⟩).set
    (tied 2).stamp ⟨tied 2, some 7, false⟩
  metadata := ∅

/-- The reader never gets to the other row. -/
theorem wide_kind_stops_reader :
    LiveTopLevel wideChannel 7 none ((tied 2).stamp, ⟨tied 2, some 7, false⟩, none) ∧
      ∀ fuel windows, readChannel (fun row => some row.event) wideChannel 7 1 none fuel none ≠
        .ok (some windows) := by
  constructor
  · refine ⟨by decide +kernel, rfl, rfl, rfl, ?_, ?_⟩
    · intro m hm
      cases hm
    · intro ks hks
      cases hks
  · have hfirst : getChannelWindowOn (fun row => some row.event) wideChannel 7 1 none none =
        .error (.invalidData "kind out of u16 range: 70000") := by
      rfl
    intro fuel windows hread
    cases fuel with
    | zero => cases hread
    | succ fuel =>
      rw [readChannel, hfirst] at hread
      cases hread

end Run

end Vingilot.Threads
