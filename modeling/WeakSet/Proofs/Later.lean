import WeakSet.Proofs.Moves

/-!
# What stays as time goes by

`Later w w'` is what every step keeps whatever code is under way: sets, channels and elements do not
disappear, what a set was built with and what an element carries never change, an element that ended
stays so, a ticket that was given out stays given out, and a handle that went never comes back.
-/

namespace WeakSet

open Duties

namespace World

/-- What a later world has of an earlier one. -/
structure Later (w w' : World) : Prop where
  sets : w.sets.size ≤ w'.sets.size
  channels : w.channels.size ≤ w'.channels.size
  cells : w.cells.size ≤ w'.cells.size
  mould : ∀ s < w.sets.size, (w'.collection s).mould = (w.collection s).mould
  live : ∀ s < w.sets.size, w'.isLive s → w.isLive s
  element : ∀ e < w.cells.size, w'.element? e = w.element? e
  dead : ∀ e < w.cells.size, w.strong e = 0 → w'.strong e = 0
  journal : w.journal.toList <+: w'.journal.toList
  issued : ∀ t, w.Issued t → w'.Issued t
  gone : ∀ t, w.Issued t → w.handle? t = none → w'.handle? t = none

namespace Later

variable {w w' w'' : World}

theorem refl (w : World) : Later w w :=
  ⟨le_rfl, le_rfl, le_rfl, fun _ _ => rfl, fun _ _ h => h, fun _ _ => rfl, fun _ _ h => h,
    List.prefix_rfl, fun _ h => h, fun _ _ h => h⟩

theorem trans (h : Later w w') (h' : Later w' w'') : Later w w'' where
  sets := h.sets.trans h'.sets
  channels := h.channels.trans h'.channels
  cells := h.cells.trans h'.cells
  mould s hs := (h'.mould s (hs.trans_le h.sets)).trans (h.mould s hs)
  live s hs hl := h.live s hs (h'.live s (hs.trans_le h.sets) hl)
  element e he := (h'.element e (he.trans_le h.cells)).trans (h.element e he)
  dead e he hd := h'.dead e (he.trans_le h.cells) (h.dead e he hd)
  journal := h.journal.trans h'.journal
  issued t ht := h'.issued t (h.issued t ht)
  gone t ht hn := h'.gone t (h.issued t ht) (h.gone t ht hn)

/-- The sets do not change. -/
theorem of_sets (hs : w'.sets = w.sets) (hch : w.channels.size ≤ w'.channels.size)
    (hc : w.cells.size ≤ w'.cells.size)
    (he : ∀ e < w.cells.size, w'.element? e = w.element? e)
    (hd : ∀ e < w.cells.size, w.strong e = 0 → w'.strong e = 0)
    (hj : w.journal.toList <+: w'.journal.toList) : Later w w' where
  sets := by rw [hs]
  channels := hch
  cells := hc
  mould s _ := by rw [collection_congr hs]
  live s _ h := by rwa [isLive, collection_congr hs] at h
  element := he
  dead := hd
  journal := hj
  issued t ht := (issued_congr hs t).mpr ht
  gone t _ hn := (handle?_congr hs t).trans hn

/-- Neither the sets nor the cells change. -/
theorem of_cells (hs : w'.sets = w.sets) (hc : w'.cells = w.cells)
    (hch : w.channels.size ≤ w'.channels.size) (hj : w.journal.toList <+: w'.journal.toList) :
    Later w w' :=
  of_sets hs hch (by rw [hc]) (fun e _ => by rw [element?, element?, hc])
    (fun e _ h => by rwa [strong_congr hc]) hj

/-- The cells do not change. -/
theorem of_shards (hc : w'.cells = w.cells) (hch : w'.channels = w.channels)
    (hs : w.sets.size ≤ w'.sets.size)
    (hm : ∀ s < w.sets.size, (w'.collection s).mould = (w.collection s).mould)
    (hl : ∀ s < w.sets.size, w'.isLive s → w.isLive s)
    (hj : w.journal.toList <+: w'.journal.toList) (hi : ∀ t, w.Issued t → w'.Issued t)
    (hg : ∀ t, w.Issued t → w.handle? t = none → w'.handle? t = none) : Later w w' where
  sets := hs
  channels := by rw [hch]
  cells := by rw [hc]
  mould := hm
  live := hl
  element e _ := by rw [element?, element?, hc]
  dead e _ h := by rwa [strong_congr hc]
  journal := hj
  issued := hi
  gone := hg

theorem value (h : Later w w') {e : ElementId} (he : e < w.cells.size) :
    w'.value e = w.value e := by
  obtain ⟨x, hx⟩ : ∃ x, w.element? e = some x := by simp [element?, he]
  rw [value_eq hx, value_eq ((h.element e he).trans hx)]

theorem channelOf (h : Later w w') {s : SetId} (hs : s < w.sets.size) :
    w'.channelOf s = w.channelOf s :=
  channelOf_eq (h.mould s hs)

theorem settings (h : Later w w') {s : SetId} (hs : s < w.sets.size) :
    (w'.collection s).settings = (w.collection s).settings :=
  Collection.settings_eq (h.mould s hs)

theorem scheme (h : Later w w') {s : SetId} (hs : s < w.sets.size) :
    (w'.collection s).scheme = (w.collection s).scheme :=
  Collection.scheme_eq (h.mould s hs)

theorem shardCount (h : Later w w') {s : SetId} (hs : s < w.sets.size) :
    w'.shardCount s = w.shardCount s := by
  have := congrArg (fun c => c.shards.size) (h.mould s hs)
  simp only [Collection.mould, Array.size_replicate] at this
  exact this

theorem hasShard (h : Later w w') {s : SetId} {k : Nat} (hk : w.HasShard s k) : w'.HasShard s k :=
  ⟨hk.1.trans_le h.sets, (h.shardCount hk.1).symm ▸ hk.2⟩

theorem mem_journal (h : Later w w') {x : Entry} (hx : x ∈ w.journal.toList) :
    x ∈ w'.journal.toList :=
  h.journal.subset hx

theorem dead_of_not_isAlive (h : Later w w') {e : ElementId} (he : e < w.cells.size)
    (hd : ¬ w.isAlive e) : ¬ w'.isAlive e := by
  rw [isAlive_iff, Nat.not_lt, Nat.le_zero] at hd ⊢
  exact h.dead e he hd

end Later

/-! ## What each kind of step keeps -/

theorem prefix_push (w : World) (x : Entry) :
    w.journal.toList <+: (w.journal.push x).toList := by
  rw [Array.toList_push]; exact List.prefix_append _ _

theorem later_note (w : World) (x : Entry) : Later w (w.note x) :=
  .of_cells rfl rfl le_rfl (prefix_push w x)

theorem later_create (w : World) (x : Element) : Later w (w.create x).2 :=
  .of_sets rfl le_rfl (by simp [create])
    (fun e he => by rw [element?_create, if_neg (Nat.ne_of_lt he)])
    (fun e he hd => by rwa [strong_create, if_neg (Nat.ne_of_lt he)]) List.prefix_rfl

theorem later_acquire {w : World} {e : ElementId} (h : w.isAlive e) : Later w (w.acquire e) := by
  rw [isAlive_iff] at h
  refine .of_sets rfl le_rfl (by rw [size_cells_acquire]) (fun _ _ => element?_acquire w _ _)
    (fun e' _ hd => ?_) List.prefix_rfl
  rw [strong_acquire (lt_size_of_strong h)]
  split
  · subst_vars; omega
  · exact hd

theorem size_channels_foldl_announce (xs : List Watcher) (w : World) :
    (xs.foldl announce w).channels.size = w.channels.size := by
  induction xs generalizing w with
  | nil => rfl
  | cons x xs ih => exact (ih _).trans (size_channels_announce w x)

theorem size_channels_release {w : World} {e : ElementId} (h : 0 < w.strong e) :
    (w.release e).2.channels.size = w.channels.size := by
  rcases channels_release h with ⟨-, c, -, hc⟩ | ⟨-, hc⟩ <;> rw [hc]
  rw [size_channels_foldl_announce]; rfl

theorem later_release {w : World} {e : ElementId} (h : w.isAlive e) : Later w (w.release e).2 := by
  rw [isAlive_iff] at h
  obtain ⟨l, hl, -⟩ := journal_release w e
  refine .of_sets (by rw [release_eq]) (size_channels_release h).ge (size_cells_release h).ge
    (fun _ _ => element?_release h _) (fun e' _ hd => ?_) (by rw [hl]; exact List.prefix_append _ _)
  rw [strong_release h]
  split
  · subst_vars; omega
  · exact hd

theorem later_unwatch (w : World) (e : ElementId) (t : Ticket) : Later w (w.unwatch e t) := by
  have hj : (w.unwatch e t).journal = w.journal := by rw [unwatch_eq]
  refine .of_sets (by rw [unwatch_eq]) (by rw [unwatch_eq]) (size_cells_unwatch w e t).ge
    (fun _ _ => element?_unwatch w _ _ _) (fun _ _ hd => ?_) (hj ▸ List.prefix_rfl)
  exact (strong_unwatch w _ _ _).trans hd

theorem later_unwatchEach (w : World) (xs : List (Ticket × Handle)) : Later w (w.unwatchEach xs) := by
  have hj : (w.unwatchEach xs).journal = w.journal := by rw [unwatchEach_eq]
  refine .of_sets (by rw [unwatchEach_eq]) (by rw [unwatchEach_eq])
    (size_cells_unwatchEach xs w).ge (fun _ _ => element?_unwatchEach xs w _) (fun _ _ hd => ?_)
    (hj ▸ List.prefix_rfl)
  exact (strong_unwatchEach xs w _).trans hd

theorem later_setShard {w : World} {s : SetId} {k : Nat} (hk : w.HasShard s k) (sh : Shard)
    (hi : ∀ key, (w.shard s k).slots.Issued key → sh.slots.Issued key)
    (hg : ∀ key, (w.shard s k).slots.Issued key → (w.shard s k).get? key = none →
      sh.get? key = none) : Later w (w.setShard s k sh) := by
  refine .of_shards rfl rfl (size_sets_setShard sh).ge (fun s' _ => mould_setShard hk sh s')
    (fun s' _ h => by rwa [isLive_setShard hk] at h) List.prefix_rfl (fun t ht => ?_)
    fun t ht hn => ?_
  · rw [issued_setShard hk]
    split
    · rename_i e; exact hi _ (by rw [← e.1, ← e.2]; exact ht)
    · exact ht
  · rw [handle?_setShard hk]
    split
    · rename_i e
      exact hg _ (by rw [← e.1, ← e.2]; exact ht) (by rw [← e.1, ← e.2]; exact hn)
    · exact hn

theorem later_takeOut {w : World} {t : Ticket} {h : Handle} (hh : w.handle? t = some h)
    (d : Departure) : Later w (w.takeOut t d).2 := by
  rw [takeOut_snd hh]
  refine (later_setShard (hasShard_of_handle? hh) _ (fun key hi => ?_) fun key _ hn => ?_).trans
    (later_note _ _)
  · rw [Shard.remove_slots]; exact hi.erase _
  · rw [Shard.get?_remove, hn, ite_self]

theorem later_takeAll {w : World} {s : SetId} {k : Nat} (hk : w.HasShard s k) :
    Later w (w.takeAll s k).2 := by
  rw [takeAll_snd]
  refine (later_setShard hk (w.shard s k).drain.2 (fun key hi => hi.clear) fun key _ _ => ?_).trans
    (.of_cells rfl rfl le_rfl ?_)
  · exact Shard.get?_drain _ _
  · rw [Array.toList_append]; exact List.prefix_append _ _

theorem later_store {w : World} (hw : w.ShardsWF) {s : SetId} {k : Nat} (hk : w.HasShard s k)
    (h : Handle) : Later w (w.store s k h).2 := by
  refine (later_setShard hk ((w.shard s k).insert h).2 (fun key hi => hi.insert h)
    fun key hi hn => ?_).trans ((later_note _ (.stored (w.nextTicket s k h) h.element)).trans ?_)
  · rw [(hw s k).get?_insert, if_neg, hn]
    rintro rfl
    exact Shard.not_issued_insert _ h hi
  · refine .of_sets rfl le_rfl (by rw [size_cells_store]; rfl) (fun e _ => element?_store h e)
      (fun e _ hd => ?_) List.prefix_rfl
    rw [strong_store]; exact hd

/-- A change of a set that leaves its shards and its making alone. -/
theorem later_modify (w : World) (s : SetId) {f : Collection → Collection}
    (hf : ∀ c, (f c).shards = c.shards) (hm : ∀ c, (f c).mould = c.mould)
    (hl : ∀ c, (f c).isLive → c.isLive) : Later w { w with sets := w.sets.modify s f } := by
  refine .of_shards rfl rfl (by simp) (fun s' hs' => ?_) (fun s' hs' h => ?_) List.prefix_rfl
    (fun t ht => ?_) fun t _ hn => ?_
  · by_cases hs : s < w.sets.size
    · rw [collection_modify hs]
      split
      · subst_vars; exact hm _
      · rfl
    · rw [modify_sets_of_size_le (Nat.le_of_not_lt hs)]
  · by_cases hs : s < w.sets.size
    · rw [isLive, collection_modify hs] at h
      split at h
      · subst_vars; exact hl _ h
      · exact h
    · rwa [modify_sets_of_size_le (Nat.le_of_not_lt hs)] at h
  · rwa [Issued, shard_modify s hf]
  · rwa [handle?, shard_modify s hf]

theorem later_call (w : World) (r : Record) : Later w (w.call r) := by
  have h : Later w (w.countCall r.ticket.owner).2 :=
    later_modify w _ (f := fun c => { c with calls := c.calls + 1 }) (fun _ => rfl) (fun _ => rfl)
      fun _ h => h
  exact h.trans (.of_cells rfl rfl le_rfl (prefix_push _ _))

theorem handle?_call (w : World) (r : Record) (t : Ticket) :
    (w.call r).handle? t = w.handle? t := by
  rw [handle?, handle?, ← shard_countCall w r.ticket.owner]; rfl

theorem later_unmake (w : World) (s : SetId) : Later w (w.unmake s) := by
  rw [unmake, unwatchAll_eq]
  exact (later_unwatchEach w _).trans
    (later_modify _ s (f := fun c => { c with isLive := false }) (fun _ => rfl) (fun _ => rfl)
      fun _ h => by cases h)

theorem later_newChannel (w : World) (kind : ChannelKind) : Later w (w.newChannel kind).2 :=
  .of_cells rfl rfl (by simp [newChannel]) List.prefix_rfl

theorem later_push (w : World) (c : Collection) : Later w { w with sets := w.sets.push c } := by
  have h : ∀ s < w.sets.size, collection { w with sets := w.sets.push c } s = w.collection s :=
    fun s hs => by rw [collection_push, if_neg (Nat.ne_of_lt hs)]
  refine .of_shards rfl rfl (by simp) (fun s hs => by rw [h s hs])
    (fun s hs hl => by rwa [isLive, h s hs] at hl) List.prefix_rfl (fun t ht => ?_) fun t ht hn => ?_
  · have hs : t.owner < w.sets.size := lt_size_of_issued ht
    rw [Issued, shard, h _ hs]; exact ht
  · have hs : t.owner < w.sets.size := lt_size_of_issued ht
    rw [handle?, shard, h _ hs]; exact hn

theorem newSet_snd (w : World) (b : Blueprint) (channel : Option ChannelId) :
    ∃ c v, (channel = some c ∧ v = w ∨
        channel = none ∧ c = w.channels.size ∧ v = (w.newChannel .queue).2) ∧
      (w.newSet b channel).2 = { v with sets := v.sets.push (b.toCollection c) } := by
  cases channel with
  | none => exact ⟨_, _, .inr ⟨rfl, rfl, rfl⟩, rfl⟩
  | some c => exact ⟨_, _, .inl ⟨rfl, rfl⟩, rfl⟩

/-- Only channels and sets change when a set is made. -/
theorem newSet_eq (w : World) (b : Blueprint) (channel : Option ChannelId) :
    (w.newSet b channel).2 =
      { w with
        channels := (w.newSet b channel).2.channels
        sets := (w.newSet b channel).2.sets } := by
  cases channel <;> rfl

theorem handle?_newSet (w : World) (b : Blueprint) (channel : Option ChannelId) (t : Ticket) :
    (w.newSet b channel).2.handle? t = w.handle? t := by
  obtain ⟨c, v, ⟨-, rfl⟩ | ⟨-, -, rfl⟩, e⟩ := newSet_snd w b channel <;> rw [e, handle?_push]
  rfl

theorem later_newSet (w : World) (b : Blueprint) (channel : Option ChannelId) :
    Later w (w.newSet b channel).2 := by
  obtain ⟨c, v, ⟨-, rfl⟩ | ⟨-, -, rfl⟩, e⟩ := newSet_snd w b channel <;> rw [e]
  · exact later_push _ _
  · exact (later_newChannel w _).trans (later_push _ _)

end World

end WeakSet
