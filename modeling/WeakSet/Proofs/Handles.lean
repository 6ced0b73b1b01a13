import WeakSet.Proofs.World
import Mathlib.Algebra.BigOperators.Group.List.Basic
import Mathlib.Algebra.GroupWithZero.Nat

/-!
# What each step of a world does to its sets

* `handle?_store`, `handle?_takeOut`, `handle?_takeAll`: which tickets have a handle after a step;
* `not_issued_nextTicket`: a new handle gets a ticket that was never given out;
* `size_store`, `size_takeOut`, `size_takeAll`: how the number of handles changes;
* `Collection.mould`: what never changes of a set.

The steps take a set that there is and one of its shards (`HasShard`).
-/

namespace WeakSet

/-- A set without what changes in the course of time. -/
def Collection.mould (c : Collection) : Collection :=
  { c with shards := Array.replicate c.shards.size {}, calls := 0, isLive := true }

section

variable {c c' : Collection} (h : c'.mould = c.mould)

include h

theorem Collection.settings_eq : c'.settings = c.settings :=
  (congrArg Collection.settings h :)

theorem Collection.scheme_eq : c'.scheme = c.scheme :=
  (congrArg Collection.scheme h :)

theorem Collection.listener_eq : c'.listener = c.listener :=
  (congrArg Collection.listener h :)

end

/-- The number of handles is the sum over the shards. -/
theorem Collection.size_eq (c : Collection) : c.size = (c.shards.toList.map Shard.size).sum := by
  have h : ∀ (l : List Shard) (n : Nat),
      l.foldl (fun n s => n + s.size) n = n + (l.map Shard.size).sum := by
    intro l
    induction l with
    | nil => simp
    | cons s l ih => intro n; rw [List.foldl_cons, ih]; simp [Nat.add_assoc]
  rw [Collection.size, ← Array.foldl_toList, h, Nat.zero_add]

/-- A new set that is made as a blueprint says. -/
def Blueprint.toCollection (b : Blueprint) (c : ChannelId) : Collection :=
  { label := b.label, settings := b.settings, scheme := b.scheme, isBuilt := b.isBuilt
    shards := Array.replicate b.settings.shardCount (Shard.withRoom b.settings.shardCapacity)
    channel := c, listener := b.listener, calls := 0, isLive := true }

namespace World

/-- Shard `k` of set `s` exists. -/
def HasShard (w : World) (s : SetId) (k : Nat) : Prop :=
  s < w.sets.size ∧ k < w.shardCount s

theorem collection_eq {w : World} {s : SetId} (h : s < w.sets.size) :
    w.sets[s]? = some (w.collection s) := by
  simp [collection, set?, h]

theorem collection_default {w : World} {s : SetId} (h : w.sets.size ≤ s) :
    w.collection s = default := by
  simp [collection, set?, h]

theorem collection_congr {w w' : World} (h : w'.sets = w.sets) (s : SetId) :
    w'.collection s = w.collection s := by
  rw [collection, set?, h]; rfl

theorem handle?_congr {w w' : World} (h : w'.sets = w.sets) (t : Ticket) :
    w'.handle? t = w.handle? t := by
  rw [handle?, shard, collection_congr h]; rfl

/-- A change of one set. -/
theorem collection_modify {w : World} {s : SetId} (hs : s < w.sets.size)
    (f : Collection → Collection) (s' : SetId) :
    collection { w with sets := w.sets.modify s f } s' =
      if s' = s then f (w.collection s) else w.collection s' := by
  simp only [collection, set?, Array.getElem?_modify]
  by_cases h : s' = s
  · subst h; simp [hs]
  · simp [h, Ne.symm h]

/-- A change of a set that is not there. -/
theorem modify_sets_of_size_le {w : World} {s : SetId} (hs : w.sets.size ≤ s)
    (f : Collection → Collection) : w.sets.modify s f = w.sets := by
  refine Array.ext_getElem? fun i => ?_
  rw [Array.getElem?_modify]
  split
  · subst_vars; simp [hs]
  · rfl

theorem hasShard_of_lt {w : World} {s : SetId} {k : Nat} (hk : k < w.shardCount s) :
    w.HasShard s k := by
  refine ⟨?_, hk⟩
  by_contra hlt
  rw [shardCount, collection_default (Nat.le_of_not_lt hlt)] at hk
  exact absurd hk (Nat.not_lt_zero _)

/-- A handle is in a shard that exists. -/
theorem hasShard_of_handle? {w : World} {t : Ticket} {h : Handle} (hh : w.handle? t = some h) :
    w.HasShard t.owner t.shard := by
  refine hasShard_of_lt ?_
  by_contra hlt
  rw [handle?, shard, Array.getD_eq_getD_getElem?,
    Array.getElem?_eq_none (Nat.le_of_not_lt hlt)] at hh
  cases hh

/-- A ticket that was given out is one of a set that exists. -/
theorem lt_size_of_issued {w : World} {t : Ticket} (h : w.Issued t) : t.owner < w.sets.size := by
  by_contra hlt
  obtain ⟨slot, hs, -⟩ := h
  rw [shard, collection_default (Nat.le_of_not_lt hlt)] at hs
  cases hs

/-- The number of handles, shard by shard. -/
theorem size_eq_sum (w : World) (s : SetId) :
    w.size s = ((List.range (w.shardCount s)).map fun k => (w.shard s k).size).sum := by
  rw [size, Collection.size_eq]
  congr 1
  refine List.ext_getElem (by simp [shardCount]) fun k hk _ => ?_
  rw [List.length_map, Array.length_toList] at hk
  simp [shard, hk]

/-! ## A change of one shard -/

section setShard

variable {w : World} {s : SetId} {k : Nat}

theorem collection_setShard (h : w.HasShard s k) (sh : Shard) (s' : SetId) :
    (w.setShard s k sh).collection s' =
      if s' = s then { w.collection s with shards := (w.collection s).shards.set! k sh }
      else w.collection s' :=
  collection_modify h.1 _ s'

theorem shard_setShard (h : w.HasShard s k) (sh : Shard) (s' : SetId) (k' : Nat) :
    (w.setShard s k sh).shard s' k' = if s' = s ∧ k' = k then sh else w.shard s' k' := by
  have hk : k < (w.collection s).shards.size := h.2
  rw [shard, collection_setShard h]
  by_cases hs : s' = s
  · subst hs
    simp only [ite_true, true_and, Array.getD_eq_getD_getElem?, Array.set!_eq_setIfInBounds,
      Array.getElem?_setIfInBounds, shard]
    by_cases hkk : k' = k
    · subst hkk; simp [hk]
    · simp [hkk, Ne.symm hkk]
  · simp [hs, shard]

theorem handle?_setShard (h : w.HasShard s k) (sh : Shard) (t : Ticket) :
    (w.setShard s k sh).handle? t =
      if t.owner = s ∧ t.shard = k then sh.get? t.key else w.handle? t := by
  rw [handle?, shard_setShard h]
  split <;> rfl

theorem issued_setShard (h : w.HasShard s k) (sh : Shard) (t : Ticket) :
    (w.setShard s k sh).Issued t ↔
      if t.owner = s ∧ t.shard = k then sh.slots.Issued t.key else w.Issued t := by
  rw [Issued, shard_setShard h]
  split <;> rfl

theorem mould_setShard (h : w.HasShard s k) (sh : Shard) (s' : SetId) :
    ((w.setShard s k sh).collection s').mould = (w.collection s').mould := by
  rw [collection_setShard h]
  split
  · subst_vars; simp [Collection.mould]
  · rfl

theorem isLive_setShard (h : w.HasShard s k) (sh : Shard) (s' : SetId) :
    (w.setShard s k sh).isLive s' = w.isLive s' := by
  rw [isLive, collection_setShard h]
  split
  · subst_vars; rfl
  · rfl

theorem sum_set (l : List Nat) (i n : Nat) (h : i < l.length) :
    (l.set i n).sum + l[i] = l.sum + n := by
  induction l generalizing i with
  | nil => cases h
  | cons a l ih =>
    cases i with
    | zero => simp only [List.set_cons_zero, List.sum_cons, List.getElem_cons_zero]; omega
    | succ i =>
      have := ih i (by simpa using h)
      simp only [List.set_cons_succ, List.sum_cons, List.getElem_cons_succ]
      omega

/-- A set gains what the shard gains. -/
theorem size_setShard (h : w.HasShard s k) (sh : Shard) (s' : SetId) :
    (w.setShard s k sh).size s' + (if s' = s then (w.shard s k).size else 0) =
      w.size s' + if s' = s then sh.size else 0 := by
  have hk : k < (w.collection s).shards.size := h.2
  rw [size, size, collection_setShard h]
  by_cases hs : s' = s
  · subst hs
    have := sum_set ((w.collection s').shards.toList.map Shard.size) k sh.size (by simpa using hk)
    rw [List.getElem_map] at this
    simp only [ite_true, Collection.size_eq, Array.set!_eq_setIfInBounds,
      Array.toList_setIfInBounds, List.map_set, shard, Array.getD_eq_getD_getElem?]
    simpa [hk] using this
  · simp [hs]

theorem size_sets_setShard (sh : Shard) : (w.setShard s k sh).sets.size = w.sets.size := by
  simp [setShard]

end setShard

/-- Every shard is in order. -/
def ShardsWF (w : World) : Prop :=
  ∀ s k, (w.shard s k).WF

theorem ShardsWF.setShard {w : World} (hw : w.ShardsWF) {s : SetId} {k : Nat} (h : w.HasShard s k)
    {sh : Shard} (hsh : sh.WF) : (w.setShard s k sh).ShardsWF := fun s' k' => by
  rw [shard_setShard h]
  split
  · exact hsh
  · exact hw s' k'

theorem ShardsWF.congr {w w' : World} (hw : w.ShardsWF) (h : w'.sets = w.sets) : w'.ShardsWF :=
  fun s k => by rw [shard, collection_congr h]; exact hw s k

/-! ## Storing a handle -/

section store

variable {w : World} {s : SetId} {k : Nat}

/-- The ticket of the next handle. -/
def nextTicket (w : World) (s : SetId) (k : Nat) (h : Handle) : Ticket :=
  ⟨s, k, ((w.shard s k).insert h).1⟩

theorem store_fst (h : Handle) : (w.store s k h).1 = w.nextTicket s k h := rfl

/-- Only cells, sets and the journal change when a handle is stored. -/
theorem store_eq (h : Handle) :
    (w.store s k h).2 =
      { w with
        cells := (w.store s k h).2.cells
        sets := (w.store s k h).2.sets
        journal := w.journal.push (.stored (w.nextTicket s k h) h.element) } := rfl

theorem sets_store (h : Handle) :
    (w.store s k h).2.sets = (w.setShard s k ((w.shard s k).insert h).2).sets := rfl

theorem handle?_store (hw : w.ShardsWF) (hk : w.HasShard s k) (h : Handle) (t : Ticket) :
    (w.store s k h).2.handle? t = if t = w.nextTicket s k h then some h else w.handle? t := by
  rw [handle?_congr (sets_store h), handle?_setShard hk, (hw s k).get?_insert, handle?, nextTicket]
  obtain ⟨s', k', key⟩ := t
  by_cases hs : s' = s <;> by_cases hkk : k' = k <;> simp [hs, hkk]

theorem issued_congr {w w' : World} (h : w'.sets = w.sets) (t : Ticket) :
    w'.Issued t ↔ w.Issued t := by
  rw [Issued, shard, collection_congr h]; rfl

theorem not_issued_nextTicket (h : Handle) : ¬ w.Issued (w.nextTicket s k h) :=
  Shard.not_issued_insert _ h

theorem size_store (hw : w.ShardsWF) (hk : w.HasShard s k) (h : Handle) (s' : SetId) :
    (w.store s k h).2.size s' = w.size s' + if s' = s then 1 else 0 := by
  have e := size_setShard hk ((w.shard s k).insert h).2 s'
  rw [(hw s k).size_insert] at e
  rw [size, collection_congr (sets_store h)]
  change (w.setShard s k ((w.shard s k).insert h).2).size s' = _
  by_cases hs : s' = s <;> simp only [hs, ite_true, ite_false] at e ⊢ <;> omega

theorem channelOf_eq {w w' : World} {s : SetId}
    (h : (w'.collection s).mould = (w.collection s).mould) : w'.channelOf s = w.channelOf s := by
  have := congrArg Collection.channel h
  exact this

theorem watchers_store (hk : w.HasShard s k) {h : Handle} (he : h.element < w.cells.size)
    (e : ElementId) :
    (w.store s k h).2.watchers e =
      if e = h.element then w.watchers e ++ [⟨w.channelOf s, w.nextTicket s k h⟩]
      else w.watchers e := by
  have hc : ((w.setShard s k ((w.shard s k).insert h).2).note
      (.stored (w.nextTicket s k h) h.element)).channelOf s = w.channelOf s :=
    channelOf_eq (mould_setShard hk _ s)
  change (((w.setShard s k ((w.shard s k).insert h).2).note
    (.stored (w.nextTicket s k h) h.element)).watch h.element ⟨_, w.nextTicket s k h⟩).watchers e = _
  rw [watchers_watch (by exact he)]
  split
  · subst_vars; rw [← hc]; rfl
  · rfl

theorem strong_store (h : Handle) (e : ElementId) :
    (w.store s k h).2.strong e = w.strong e :=
  strong_watch _ _ _ _

theorem element?_store (h : Handle) (e : ElementId) :
    (w.store s k h).2.element? e = w.element? e :=
  element?_watch _ _ _ _

theorem size_cells_store (h : Handle) : (w.store s k h).2.cells.size = w.cells.size :=
  Array.size_modify

end store

/-! ## Taking handles out -/

section takeOut

variable {w : World}

/-- The two outcomes of taking out the handle of a ticket. -/
theorem takeOut_cases (w : World) (t : Ticket) (d : Departure) :
    (w.handle? t = none ∧ w.takeOut t d = (none, w)) ∨
    ∃ h, w.handle? t = some h ∧ w.takeOut t d =
      (some h, (w.setShard t.owner t.shard
        ((w.shard t.owner t.shard).remove t.key).2).note (.departed t d)) := by
  unfold takeOut
  rcases Shard.remove_cases (w.shard t.owner t.shard) t.key with ⟨hn, e⟩ | ⟨h, hs, e⟩
  · exact .inl ⟨hn, by rw [e]⟩
  · exact .inr ⟨h, hs, by rw [e]⟩

theorem takeOut_fst (w : World) (t : Ticket) (d : Departure) :
    (w.takeOut t d).1 = w.handle? t := by
  rcases takeOut_cases w t d with ⟨h, e⟩ | ⟨h, hh, e⟩ <;> rw [e] <;> simp [*]

theorem takeOut_none {t : Ticket} (hh : w.handle? t = none) (d : Departure) :
    (w.takeOut t d).2 = w := by
  rcases takeOut_cases w t d with ⟨-, e⟩ | ⟨h, hh', -⟩
  · rw [e]
  · rw [hh] at hh'; cases hh'

variable {t : Ticket} {h : Handle} (hh : w.handle? t = some h) (d : Departure)

include hh

/-- Only sets and the journal change when a handle is taken out. -/
theorem takeOut_snd :
    (w.takeOut t d).2 = (w.setShard t.owner t.shard
      ((w.shard t.owner t.shard).remove t.key).2).note (.departed t d) := by
  rcases takeOut_cases w t d with ⟨hn, -⟩ | ⟨h', -, e⟩
  · rw [hn] at hh; cases hh
  · rw [e]

theorem sets_takeOut :
    (w.takeOut t d).2.sets =
      (w.setShard t.owner t.shard ((w.shard t.owner t.shard).remove t.key).2).sets := by
  rw [takeOut_snd hh]; rfl

theorem handle?_takeOut (t' : Ticket) :
    (w.takeOut t d).2.handle? t' = if t' = t then none else w.handle? t' := by
  rw [handle?_congr (sets_takeOut hh d), handle?_setShard (hasShard_of_handle? hh),
    Shard.get?_remove, handle?]
  obtain ⟨s, k, key⟩ := t
  obtain ⟨s', k', key'⟩ := t'
  by_cases hs : s' = s <;> by_cases hkk : k' = k <;> simp [hs, hkk]

theorem ShardsWF.takeOut (hw : w.ShardsWF) : (w.takeOut t d).2.ShardsWF :=
  (hw.setShard (hasShard_of_handle? hh) ((hw _ _).remove t.key)).congr (sets_takeOut hh d)

theorem size_takeOut (s : SetId) :
    (w.takeOut t d).2.size s + (if s = t.owner then 1 else 0) = w.size s := by
  have e := size_setShard (hasShard_of_handle? hh)
    ((w.shard t.owner t.shard).remove t.key).2 s
  have er := Shard.size_remove (s := w.shard t.owner t.shard) (k := t.key) hh
  rw [size, collection_congr (sets_takeOut hh d)]
  change (w.setShard t.owner t.shard _).size s + _ = _
  by_cases hs : s = t.owner <;> simp only [hs, ite_true, ite_false] at e ⊢ <;> omega

end takeOut

/-! ## Taking all handles out of a shard -/

section takeAll

variable {w : World} {s : SetId} {k : Nat}

/-- The tickets and handles of a shard. -/
def ticketsIn (w : World) (s : SetId) (k : Nat) : List (Ticket × Handle) :=
  (w.shard s k).entries.map fun x => (⟨s, k, x.1⟩, x.2)

theorem mem_ticketsIn {t : Ticket} {h : Handle} :
    (t, h) ∈ w.ticketsIn s k ↔ t.owner = s ∧ t.shard = k ∧ w.handle? t = some h := by
  simp only [ticketsIn, List.mem_map, Prod.mk.injEq, Prod.exists, Shard.mem_entries, handle?]
  constructor
  · rintro ⟨key, h, hm, rfl, rfl⟩; exact ⟨rfl, rfl, hm⟩
  · rintro ⟨rfl, rfl, hm⟩; exact ⟨_, _, hm, rfl, rfl⟩

theorem mem_map_ticketsIn {t : Ticket} :
    t ∈ (w.ticketsIn s k).map Prod.fst ↔ t.owner = s ∧ t.shard = k ∧ (w.handle? t).isSome := by
  simp [mem_ticketsIn, Option.isSome_iff_exists]

theorem nodup_ticketsIn : ((w.ticketsIn s k).map Prod.fst).Nodup := by
  rw [ticketsIn, List.map_map]
  have := (Shard.nodup_keys_entries (w.shard s k)).map (f := fun key => (⟨s, k, key⟩ : Ticket))
    fun a b h => congrArg Ticket.key h
  rwa [List.map_map] at this

theorem length_ticketsIn : (w.ticketsIn s k).length = (w.shard s k).size := by
  rw [ticketsIn, List.length_map]
  exact Slots.length_entries _

theorem foldl_note_departed_eq (l : List (Ticket × Handle)) (w : World) :
    l.foldl (fun w x => w.note (.departed x.1 .cleared)) w =
      { w with journal := w.journal ++ (l.map fun x => Entry.departed x.1 .cleared).toArray } := by
  induction l generalizing w with
  | nil => simp
  | cons x l ih =>
    rw [List.foldl_cons, ih]
    simp [note]

/-- Only sets and the journal change when a shard is emptied. -/
theorem takeAll_snd :
    (w.takeAll s k).2 =
      { w.setShard s k (w.shard s k).drain.2 with
        journal := w.journal ++
          ((w.ticketsIn s k).map fun x => Entry.departed x.1 .cleared).toArray } :=
  foldl_note_departed_eq _ _

theorem sets_takeAll :
    (w.takeAll s k).2.sets = (w.setShard s k (w.shard s k).drain.2).sets := by
  rw [takeAll_snd]

theorem handle?_takeAll (hk : w.HasShard s k) (t : Ticket) :
    (w.takeAll s k).2.handle? t =
      if t.owner = s ∧ t.shard = k then none else w.handle? t := by
  rw [handle?_congr sets_takeAll, handle?_setShard hk, Shard.get?_drain]

/-- The tickets of an emptied shard have no handle, and other tickets keep theirs. -/
theorem handle?_takeAll_of_tickets (hk : w.HasShard s k) (t : Ticket) :
    (w.takeAll s k).2.handle? t =
      if t ∈ (w.ticketsIn s k).map Prod.fst then none else w.handle? t := by
  rw [handle?_takeAll hk]
  rcases hh : w.handle? t with _ | h
  · simp
  · simp only [mem_map_ticketsIn, hh, Option.isSome_some, and_true]

theorem ShardsWF.takeAll (hw : w.ShardsWF) (hk : w.HasShard s k) : (w.takeAll s k).2.ShardsWF :=
  (hw.setShard hk (hw s k).drain).congr sets_takeAll

theorem size_takeAll (hk : w.HasShard s k) (s' : SetId) :
    (w.takeAll s k).2.size s' + (if s' = s then (w.ticketsIn s k).length else 0) =
      w.size s' := by
  have e := size_setShard hk (w.shard s k).drain.2 s'
  rw [Shard.size_drain] at e
  rw [size, collection_congr sets_takeAll, length_ticketsIn]
  change (w.setShard s k (w.shard s k).drain.2).size s' + _ = _
  by_cases hs : s' = s <;> simp only [hs, ite_true, ite_false] at e ⊢ <;> omega

end takeAll

/-! ## Watching no longer -/

section unwatchEach

/-- Watch the elements of several handles no longer. -/
def unwatchEach (w : World) (xs : List (Ticket × Handle)) : World :=
  xs.foldl (fun w x => w.unwatch x.2.element x.1) w

/-- The tickets and handles of a set. -/
def ticketsOf (w : World) (s : SetId) : List (Ticket × Handle) :=
  (List.range (w.shardCount s)).flatMap (w.ticketsIn s)

theorem hasShard_of_mem_range {w : World} {s : SetId} :
    ∀ k ∈ List.range (w.shardCount s), w.HasShard s k :=
  fun _ hk => hasShard_of_lt (List.mem_range.mp hk)

theorem mem_ticketsOf {w : World} {s : SetId} {t : Ticket} {h : Handle} :
    (t, h) ∈ w.ticketsOf s ↔ t.owner = s ∧ w.handle? t = some h := by
  simp only [ticketsOf, List.mem_flatMap, List.mem_range, mem_ticketsIn]
  constructor
  · rintro ⟨k, -, ho, -, hh⟩
    exact ⟨ho, hh⟩
  · rintro ⟨rfl, hh⟩
    exact ⟨t.shard, (hasShard_of_handle? hh).2, rfl, rfl, hh⟩

theorem length_ticketsOf (w : World) (s : SetId) : (w.ticketsOf s).length = w.size s := by
  rw [size_eq_sum, ticketsOf, List.length_flatMap]
  exact congrArg List.sum (List.map_congr_left fun k _ => length_ticketsIn)

theorem nodup_ticketsOf (w : World) (s : SetId) : ((w.ticketsOf s).map Prod.fst).Nodup := by
  rw [ticketsOf, List.map_flatMap, List.nodup_flatMap]
  refine ⟨fun k _ => nodup_ticketsIn, ?_⟩
  refine List.nodup_range.pairwise_of_forall_ne fun k _ k' _ hne t ht ht' => hne ?_
  obtain ⟨⟨_, x⟩, hx, rfl⟩ := List.mem_map.mp ht
  obtain ⟨⟨_, x'⟩, hx', rfl⟩ := List.mem_map.mp ht'
  exact (mem_ticketsIn.mp hx).2.1.symm.trans (mem_ticketsIn.mp hx').2.1

theorem unwatchEach_eq (xs : List (Ticket × Handle)) (w : World) :
    w.unwatchEach xs = { w with cells := (w.unwatchEach xs).cells } := by
  induction xs generalizing w with
  | nil => rfl
  | cons x xs ih =>
    have e : w.unwatchEach (x :: xs) = (w.unwatch x.2.element x.1).unwatchEach xs := rfl
    rw [e, ih, unwatch_eq]

/-- A set that is unmade has its elements watched no longer. -/
theorem unwatchAll_eq (w : World) (s : SetId) : w.unwatchAll s = w.unwatchEach (w.ticketsOf s) := by
  have h : ∀ (ks : List Nat) (v : World), v.sets = w.sets →
      ks.foldl (fun v k =>
        (v.shard s k).entries.foldl (fun v x => v.unwatch x.2.element ⟨s, k, x.1⟩) v) v =
        v.unwatchEach (ks.flatMap (w.ticketsIn s)) := by
    intro ks
    induction ks with
    | nil => intro v _; rfl
    | cons k ks ih =>
      intro v hv
      have hk : (v.shard s k).entries.foldl (fun v x => v.unwatch x.2.element ⟨s, k, x.1⟩) v =
          v.unwatchEach (w.ticketsIn s k) := by
        rw [unwatchEach, ticketsIn, List.foldl_map, shard, collection_congr hv]
        rfl
      rw [List.foldl_cons, hk, ih _ (by rw [unwatchEach_eq]; exact hv), List.flatMap_cons,
        unwatchEach, unwatchEach, unwatchEach, List.foldl_append]
  exact h _ w rfl

theorem strong_unwatchEach (xs : List (Ticket × Handle)) (w : World) (e : ElementId) :
    (w.unwatchEach xs).strong e = w.strong e := by
  induction xs generalizing w with
  | nil => rfl
  | cons x xs ih => exact (ih _).trans (strong_unwatch w _ e _)

theorem element?_unwatchEach (xs : List (Ticket × Handle)) (w : World) (e : ElementId) :
    (w.unwatchEach xs).element? e = w.element? e := by
  induction xs generalizing w with
  | nil => rfl
  | cons x xs ih => exact (ih _).trans (element?_unwatch w _ e _)

theorem size_cells_unwatchEach (xs : List (Ticket × Handle)) (w : World) :
    (w.unwatchEach xs).cells.size = w.cells.size := by
  induction xs generalizing w with
  | nil => rfl
  | cons x xs ih => exact (ih _).trans (size_cells_unwatch w _ _)

/-- Nobody comes to watch. -/
theorem watchers_unwatchEach_sublist (xs : List (Ticket × Handle)) (w : World) (e : ElementId) :
    ((w.unwatchEach xs).watchers e).Sublist (w.watchers e) := by
  induction xs generalizing w with
  | nil => exact List.Sublist.refl _
  | cons x xs ih =>
    refine (ih _).trans ?_
    rw [watchers_unwatch]
    split
    · rename_i h; rw [h.1]; exact List.filter_sublist
    · exact List.Sublist.refl _

end unwatchEach

/-! ## Sets that come and go -/

/-- A change of a set that leaves its handles alone. -/
theorem shard_modify {w : World} (s : SetId) {f : Collection → Collection}
    (hf : ∀ c, (f c).shards = c.shards) (s' : SetId) (k : Nat) :
    shard { w with sets := w.sets.modify s f } s' k = w.shard s' k := by
  by_cases hs : s < w.sets.size
  · rw [shard, collection_modify hs]
    split
    · subst_vars; rw [hf]; rfl
    · rfl
  · rw [modify_sets_of_size_le (Nat.le_of_not_lt hs)]

theorem shard_countCall (w : World) (s s' : SetId) (k : Nat) :
    (w.countCall s).2.shard s' k = w.shard s' k :=
  shard_modify s (f := fun c => { c with calls := c.calls + 1 }) (fun _ => rfl) s' k

theorem shard_endSet (w : World) (s s' : SetId) (k : Nat) :
    (w.endSet s).shard s' k = w.shard s' k :=
  shard_modify s (f := fun c => { c with isLive := false }) (fun _ => rfl) s' k

theorem collection_countCall {w : World} {s : SetId} (hs : s < w.sets.size) (s' : SetId) :
    (w.countCall s).2.collection s' =
      if s' = s then { w.collection s with calls := (w.collection s).calls + 1 }
      else w.collection s' :=
  collection_modify hs _ s'

theorem collection_endSet {w : World} {s : SetId} (hs : s < w.sets.size) (s' : SetId) :
    (w.endSet s).collection s' =
      if s' = s then { w.collection s with isLive := false } else w.collection s' :=
  collection_modify hs _ s'

/-- Only cells and sets change when a set is unmade. -/
theorem unmake_eq (w : World) (s : SetId) :
    w.unmake s =
      { w with cells := (w.unwatchEach (w.ticketsOf s)).cells, sets := (w.endSet s).sets } := by
  rw [unmake, unwatchAll_eq, unwatchEach_eq]; rfl

theorem shard_unmake (w : World) (s s' : SetId) (k : Nat) :
    (w.unmake s).shard s' k = w.shard s' k := by
  rw [shard, unmake_eq, ← shard_endSet w s]; rfl

theorem handle?_unmake (w : World) (s : SetId) (t : Ticket) :
    (w.unmake s).handle? t = w.handle? t := by
  rw [handle?, shard_unmake]; rfl

theorem collection_push (w : World) (c : Collection) (s : SetId) :
    collection { w with sets := w.sets.push c } s =
      if s = w.sets.size then c else w.collection s := by
  simp only [collection, set?, Array.getElem?_push]
  split <;> rfl

/-- The shards of a new set are empty. -/
theorem shard_push (w : World) (b : Blueprint) (c : ChannelId) (s : SetId) (k : Nat) :
    (s = w.sets.size ∧ ∃ room,
      shard { w with sets := w.sets.push (b.toCollection c) } s k = Shard.withRoom room) ∨
    shard { w with sets := w.sets.push (b.toCollection c) } s k = w.shard s k := by
  rw [shard, collection_push]
  split
  · refine .inl ⟨by assumption, ?_⟩
    by_cases hk : k < b.settings.shardCount
    · exact ⟨b.settings.shardCapacity, by simp [Blueprint.toCollection, hk]⟩
    · exact ⟨0, by simp [Blueprint.toCollection, hk]; rfl⟩
  · exact .inr rfl

theorem handle?_push (w : World) (b : Blueprint) (c : ChannelId) (t : Ticket) :
    handle? { w with sets := w.sets.push (b.toCollection c) } t = w.handle? t := by
  rcases shard_push w b c t.owner t.shard with ⟨hs, room, h⟩ | h <;> rw [handle?, h]
  · have : w.shard t.owner t.shard = {} := by
      rw [shard, collection_default (Nat.le_of_eq hs.symm)]; rfl
    rw [handle?, this]; rfl
  · rfl

end World

end WeakSet
