import WeakSet.Proofs.Later
import WeakSet.Proofs.Rounding
import WeakSet.Proofs.Table

/-!
# Worlds in order

What is true of a world at every point of every run, with the duties of the code under way:

* `World.Formed`: every handle is where its hash says, and every name names something;
* `World.Counted`: an element has as many references as there are owners, records in hand and
  duties to let go of one;
* `World.Recorded`: the journal knows every handle and every watcher.

`World.Sane` is all of it. Every move keeps it (`Move.sane`) and leads to a later world
(`Move.later`).
-/

namespace WeakSet

open Duties

namespace World

/-- A handle is of the kind of its set, knows its hash, and is in the shard of that hash. -/
structure Fits (w : World) (t : Ticket) (h : Handle) : Prop where
  element : h.element < w.cells.size
  kind : h.kind = (w.collection t.owner).settings.kind
  hash : h.hash = (w.collection t.owner).scheme.hash (w.value h.element)
  place : t.shard = shardOf (w.shardCount t.owner) h.hash

/-- Handles, channels and names are as they should be. -/
structure Formed (w : World) : Prop where
  shards : w.ShardsWF
  roomy : ∀ s < w.sets.size, 0 < w.shardCount s
  channel : ∀ s < w.sets.size, w.channelOf s < w.channels.size
  fits : ∀ t h, w.handle? t = some h → w.Fits t h
  named : w.Named

/-- How many records in hand hold an element. -/
def handsOn (w : World) (e : ElementId) : Nat :=
  w.hands.countP fun r => r.bind Record.last = some e

/-- How many owners an element has. -/
def ownersOf (w : World) (e : ElementId) : Nat :=
  w.owners.countP fun x => x.2 = e

/-- Every reference is somebody's. -/
structure Counted (w : World) (D : Duties) : Prop where
  owners : (w.owners.map Prod.fst).Nodup
  strong : ∀ e, w.strong e = w.ownersOf e + w.handsOn e + D.count (.hold e)

/-- The journal knows every handle and every watcher, and handles that were taken out are gone. -/
structure Recorded (w : World) (D : Duties) : Prop where
  stored : ∀ t h, w.handle? t = some h → .stored t h.element ∈ w.journal.toList
  issued : ∀ t e, .stored t e ∈ w.journal.toList → w.Issued t ∧ t.owner < w.sets.size
  unique : ∀ t e e', .stored t e ∈ w.journal.toList → .stored t e' ∈ w.journal.toList → e = e'
  watched : ∀ e x, x ∈ w.watchers e →
    .stored x.ticket e ∈ w.journal.toList ∧ x.channel = w.channelOf x.ticket.owner
  unwatched : ∀ t e, .unwatch t e ∈ D → .stored t e ∈ w.journal.toList ∧ w.handle? t = none

/-- A world in order. -/
structure Sane (w : World) (D : Duties) : Prop where
  formed : w.Formed
  counted : w.Counted D
  recorded : w.Recorded D

/-- What code under way holds is alive. -/
theorem Counted.isAlive_of_hold {w : World} {D : Duties} (h : w.Counted D) {e : ElementId}
    (he : .hold e ∈ D) : w.isAlive e := by
  rw [isAlive_iff, h.strong]
  have := Multiset.count_pos.mpr he
  omega

theorem Counted.isAlive_of_owner {w : World} {D : Duties} (h : w.Counted D) {name : String}
    {e : ElementId} (he : w.owners.find? name = some e) : w.isAlive e := by
  rw [isAlive_iff, h.strong]
  have : 0 < w.ownersOf e :=
    List.countP_pos_iff.mpr ⟨_, Table.mem_of_find? he, by simp⟩
  omega

end World

variable {L : Scene} {w w' : World} {D D' : Duties}

/-- Every move leads to a later world. -/
theorem Move.later (hf : w.Formed) (hc : w.Counted D) (hm : Move L (w, D) (w', D')) :
    World.Later w w' := by
  cases hm with
  | note => exact World.later_note _ _
  | bar => exact World.later_note _ _
  | create x => exact World.later_create w x
  | acquire h => exact World.later_acquire h
  | release => exact World.later_release (hc.isAlive_of_hold (Multiset.mem_cons_self _ _))
  | turn => exact .of_cells rfl rfl (by simp) List.prefix_rfl
  | newChannel kind => exact World.later_newChannel w kind
  | post c h =>
    exact .of_cells rfl rfl (by simp [World.post, World.note, World.enqueue]) (World.later_note w _).journal
  | drain c =>
    refine (World.later_note w (.drained c)).trans ?_
    rw [World.drain_eq]
    exact .of_cells rfl rfl (World.size_channels_drain _ c).ge List.prefix_rfl
  | takeNotices =>
    rw [World.takeNotices_eq]
    exact .of_cells rfl rfl (World.size_channels_drain w _).ge List.prefix_rfl
  | reap _ hh => exact World.later_takeOut hh _
  | unwatch => exact World.later_unwatch _ _ _
  | call r => exact World.later_call w r
  | takeOut _ hh => exact World.later_takeOut hh _
  | takeAll _ hk => exact World.later_takeAll hk
  | store _ ha => exact World.later_store hf.shards ha.shard _
  | newSet b => exact World.later_newSet w b _
  | unmake => exact World.later_unmake w _
  | _ => exact .of_cells rfl rfl le_rfl List.prefix_rfl

/-! ## Handles, channels and names -/

namespace World

theorem Fits.later {t : Ticket} {h : Handle} (hh : w.Fits t h) (hl : Later w w')
    (hs : t.owner < w.sets.size) : w'.Fits t h where
  element := hh.element.trans_le hl.cells
  kind := by rw [hl.settings hs]; exact hh.kind
  hash := by rw [hl.scheme hs, hl.value hh.element]; exact hh.hash
  place := by rw [hl.shardCount hs]; exact hh.place

theorem Suits.later {c : Cursor} (h : w.Suits c) (hl : Later w w') : w'.Suits c :=
  ⟨h.set.trans_le hl.sets, fun hc => (hl.settings h.set).symm ▸ h.current hc⟩

theorem Named.later (hn : w.Named) (hl : Later w w') (h₁ : w'.setNames = w.setNames)
    (h₂ : w'.cursors = w.cursors) (h₃ : w'.channelNames = w.channelNames)
    (h₄ : w'.tickets = w.tickets) : w'.Named where
  sets x hx := (hn.sets x (h₁ ▸ hx)).trans_le hl.sets
  cursors x hx := (hn.cursors x (h₂ ▸ hx)).later hl
  channels x hx := (hn.channels x (h₃ ▸ hx)).trans_le hl.channels
  tickets x hx := hl.issued _ (hn.tickets x (h₄ ▸ hx))

/-- No set is new, and the only new handles are such as fit. -/
theorem Formed.later (hf : w.Formed) (hl : Later w w') (hz : w'.sets.size = w.sets.size)
    (hs : w'.ShardsWF) (hn : w'.Named)
    (hh : ∀ t h, w'.handle? t = some h → w.handle? t = some h ∨ w'.Fits t h) : w'.Formed where
  shards := hs
  roomy s hs := by rw [hz] at hs; rw [hl.shardCount hs]; exact hf.roomy s hs
  channel s hs := by
    rw [hz] at hs; rw [hl.channelOf hs]; exact (hf.channel s hs).trans_le hl.channels
  fits t h ht := by
    rcases hh t h ht with ht | ht
    · exact (hf.fits t h ht).later hl (hasShard_of_handle? ht).1
    · exact ht
  named := hn

/-- The sets do not change. -/
theorem Formed.of_sets (hf : w.Formed) (hl : Later w w') (hs : w'.sets = w.sets)
    (hn : w'.Named) : w'.Formed :=
  hf.later hl (by rw [hs]) (hf.shards.congr hs) hn fun t h ht =>
    .inl (by rwa [handle?_congr hs] at ht)

/-- A handle is taken out. -/
theorem Formed.takeOut (hf : w.Formed) {t : Ticket} {h : Handle} (hh : w.handle? t = some h)
    (d : Departure) : (w.takeOut t d).2.Formed := by
  have hl := later_takeOut hh d
  have e := takeOut_snd hh d
  refine hf.later hl (by rw [sets_takeOut hh]; exact size_sets_setShard _) (hf.shards.takeOut hh d)
    (hf.named.later hl (by rw [e]; rfl) (by rw [e]; rfl) (by rw [e]; rfl) (by rw [e]; rfl))
    fun t' h' ht => .inl ?_
  rw [handle?_takeOut hh] at ht
  split at ht
  · cases ht
  · exact ht

/-- A handle that fits is stored. -/
theorem Formed.store (hf : w.Formed) {s : SetId} {k : Nat} {h : Handle} (ha : w.Admits s k h)
    (he : w.isAlive h.element) : (w.store s k h).2.Formed := by
  have hl := later_store hf.shards ha.shard h
  refine hf.later hl (by rw [sets_store]; exact size_sets_setShard _)
    ((hf.shards.setShard ha.shard ((hf.shards s k).insert h)).congr (sets_store h))
    (hf.named.later hl rfl rfl rfl rfl) fun t h' ht => ?_
  rw [handle?_store hf.shards ha.shard] at ht
  split at ht
  · obtain rfl := Option.some.inj ht
    subst_vars
    refine .inr (Fits.later ⟨lt_size_of_strong (isAlive_iff.mp he), ha.kind, ha.hash, ha.place⟩ hl
      ha.shard.1)
  · exact .inl ht

/-- A new set has no handles. -/
theorem Formed.push (hf : w.Formed) (b : Blueprint) {c : ChannelId} (hc : c < w.channels.size) :
    Formed { w with sets := w.sets.push (b.toCollection c) } := by
  have hl := later_push w (b.toCollection c)
  have hcol := collection_push w (b.toCollection c)
  have hlt : ∀ s, s < (w.sets.push (b.toCollection c)).size → s = w.sets.size ∨ s < w.sets.size := by
    intro s hs
    rw [Array.size_push] at hs
    omega
  refine ⟨fun s k => ?_, fun s hs => ?_, fun s hs => ?_, fun t h hh => ?_,
    hf.named.later hl rfl rfl rfl rfl⟩
  · rcases shard_push w b c s k with ⟨-, room, h⟩ | h <;> rw [h]
    · exact Shard.wf_withRoom room
    · exact hf.shards s k
  · rcases hlt s hs with rfl | hs
    · rw [shardCount, hcol, if_pos rfl]
      simpa [Blueprint.toCollection] using Settings.shardCount_pos b.settings
    · rw [hl.shardCount hs]; exact hf.roomy s hs
  · rcases hlt s hs with rfl | hs
    · rw [channelOf, hcol, if_pos rfl]; exact hc
    · rw [hl.channelOf hs]; exact hf.channel s hs
  · rw [handle?_push] at hh
    exact (hf.fits t h hh).later hl (hasShard_of_handle? hh).1

end World

/-- Every move keeps handles, channels and names as they should be. -/
theorem Move.formed (hf : w.Formed) (hc : w.Counted D) (hm : Move L (w, D) (w', D')) :
    w'.Formed := by
  have hl := hm.later hf hc
  cases hm with
  | release =>
    have e := World.release_eq w
    exact hf.of_sets hl (by rw [e]) (hf.named.later hl (by rw [e]) (by rw [e]) (by rw [e]) (by rw [e]))
  | drain c =>
    have e := World.drain_eq (w.note (.drained c)) c
    exact hf.of_sets hl (by rw [e]; rfl)
      (hf.named.later hl (by rw [e]; rfl) (by rw [e]; rfl) (by rw [e]; rfl) (by rw [e]; rfl))
  | @takeNotices _ _ s =>
    have e := World.drain_eq w (w.collection s).channel
    rw [World.takeNotices] at hl ⊢
    exact hf.of_sets hl (by rw [e]) (hf.named.later hl (by rw [e]) (by rw [e]) (by rw [e]) (by rw [e]))
  | unwatch =>
    have e := World.unwatch_eq w
    exact hf.of_sets hl (by rw [e]) (hf.named.later hl (by rw [e]) (by rw [e]) (by rw [e]) (by rw [e]))
  | rename _ _ h => exact hf.of_sets hl rfl h.named
  | reap _ hh | takeOut _ hh => exact hf.takeOut hh _
  | @takeAll _ _ s k _ hk =>
    have e := w.takeAll_snd (s := s) (k := k)
    refine hf.later hl (by rw [World.sets_takeAll]; exact World.size_sets_setShard _)
      (hf.shards.takeAll hk)
      (hf.named.later hl (by rw [e]; rfl) (by rw [e]; rfl) (by rw [e]; rfl) (by rw [e]; rfl))
      fun t h ht => .inl ?_
    rw [World.handle?_takeAll hk] at ht
    split at ht
    · cases ht
    · exact ht
  | store _ ha => exact hf.store ha (hc.isAlive_of_hold (Multiset.mem_cons_self _ _))
  | @newSet _ _ b channel hc =>
    obtain ⟨c, v, ⟨rfl, rfl⟩ | ⟨-, rfl, rfl⟩, e⟩ := w.newSet_snd b channel <;> rw [e]
    · exact hf.push b (hc c rfl)
    · have hl' := w.later_newChannel .queue
      exact (hf.of_sets hl' rfl (hf.named.later hl' rfl rfl rfl rfl)).push b (by simp [World.newChannel])
  | call r =>
    refine hf.later hl (by simp [World.call, World.countCall, World.note]) (fun s k => ?_)
      (hf.named.later hl rfl rfl rfl rfl) fun t h ht => .inl (by rwa [World.handle?_call] at ht)
    exact (w.shard_countCall r.ticket.owner s k).symm ▸ hf.shards s k
  | @unmake _ _ s =>
    have e := w.unmake_eq s
    refine hf.later hl (by rw [e]; simp [World.endSet]) (fun s' k => ?_)
      (hf.named.later hl (by rw [e]) (by rw [e]) (by rw [e]) (by rw [e])) fun t h ht =>
        .inl (by rwa [World.handle?_unmake] at ht)
    rw [World.shard_unmake]; exact hf.shards s' k
  | _ => exact hf.of_sets hl rfl (hf.named.later hl rfl rfl rfl rfl)

/-! ## References -/

namespace World

theorem Counted.congr (hc : w.Counted D) (ho : w'.owners = w.owners) (hh : w'.hands = w.hands)
    (hs : ∀ e, w'.strong e = w.strong e)
    (hd : ∀ e, D'.count (.hold e) = D.count (.hold e)) : w'.Counted D' where
  owners := by rw [ho]; exact hc.owners
  strong e := by
    rw [hs, hc.strong, hd, ownersOf, ownersOf, ho, handsOn, handsOn, hh]

/-- Owners, records and references do not change. -/
theorem Counted.of_cells (hc : w.Counted D) (ho : w'.owners = w.owners) (hh : w'.hands = w.hands)
    (hs : w'.cells = w.cells) (hd : ∀ e, D'.count (.hold e) = D.count (.hold e)) : w'.Counted D' :=
  hc.congr ho hh (strong_congr hs) hd

theorem handsOn_cons {x : Option Record} {hands : List (Option Record)} (h : w.hands = x :: hands)
    (e : ElementId) :
    w.handsOn e =
      hands.countP (fun r => r.bind Record.last = some e) +
        (holds (x.bind Record.last).toList).count (.hold e) := by
  rw [handsOn, h, List.countP_cons, count_hold_holds]
  simp

/-- The reference of a record goes into the hands of the listener. -/
theorem Counted.call {r : Record} (hc : w.Counted (holds r.last.toList + D)) :
    (w.call r).Counted D := by
  refine ⟨hc.owners, fun e => ?_⟩
  have he := hc.strong e
  rw [Multiset.count_add] at he
  rw [handsOn_cons rfl]
  change w.strong e = w.ownersOf e + (w.handsOn e + (holds r.last.toList).count _) + _
  omega

variable {name : String} {e : ElementId}

theorem ownersOf_put (hw : w.owners.find? name = none) (e e' : ElementId) :
    (w.owners.put name e).countP (fun x => x.2 = e') =
      w.ownersOf e' + if e' = e then 1 else 0 := by
  rw [Table.put, Table.erase_of_find? hw, List.countP_cons, ownersOf]
  simp [eq_comm]

theorem ownersOf_erase (hc : w.Counted D) (hw : w.owners.find? name = some e) (e' : ElementId) :
    w.ownersOf e' =
      (w.owners.erase name).countP (fun x => x.2 = e') + if e' = e then 1 else 0 := by
  rw [ownersOf, (Table.perm_erase hc.owners hw).countP_eq, List.countP_cons]
  simp [eq_comm]

end World

/-- Every move keeps the count of references. -/
theorem Move.counted (hc : w.Counted D) (hm : Move L (w, D) (w', D')) : w'.Counted D' := by
  cases hm with
  | create x =>
    refine ⟨hc.owners, fun e => ?_⟩
    have he := hc.strong e
    rw [World.strong_create, count_hold_cons]
    change _ = w.ownersOf e + w.handsOn e + _
    split
    · have h0 : w.strong e = 0 := by subst_vars; simp [World.strong]
      omega
    · omega
  | @acquire _ _ e h =>
    refine ⟨hc.owners, fun e' => ?_⟩
    have he := hc.strong e'
    rw [World.strong_acquire (World.lt_size_of_strong (World.isAlive_iff.mp h)), count_hold_cons]
    change _ = w.ownersOf e' + w.handsOn e' + _
    split
    · subst_vars; omega
    · omega
  | @release _ _ e =>
    have ha := World.isAlive_iff.mp (hc.isAlive_of_hold (Multiset.mem_cons_self _ _))
    have hr := w.release_eq e
    refine ⟨by rw [hr]; exact hc.owners, fun e' => ?_⟩
    have he := hc.strong e'
    rw [count_hold_cons] at he
    rw [World.strong_release ha, World.ownersOf, World.handsOn, hr]
    change _ = w.ownersOf e' + w.handsOn e' + _
    split at he
    · subst_vars; rw [if_pos rfl]; omega
    · rw [if_neg (by assumption)]; omega
  | @own _ _ name e h =>
    refine ⟨Table.nodup_put hc.owners _ _, fun e' => ?_⟩
    have he := hc.strong e'
    rw [count_hold_cons] at he
    rw [World.ownersOf, World.ownersOf_put h]
    change w.strong e' = w.ownersOf e' + _ + w.handsOn e' + _
    omega
  | @disown _ _ name e h =>
    refine ⟨Table.nodup_erase hc.owners _, fun e' => ?_⟩
    have he := hc.strong e'
    rw [World.ownersOf_erase hc h] at he
    rw [count_hold_cons]
    change w.strong e' = (w.owners.erase name).countP (fun x => x.2 = e') + w.handsOn e' + _
    omega
  | takeRecord h | putDown h =>
    refine ⟨hc.owners, fun e => ?_⟩
    have he := hc.strong e
    rw [World.handsOn_cons h] at he
    rw [Multiset.count_add]
    change w.strong e = w.ownersOf e + _ + _
    rw [World.handsOn]
    simp only [List.countP_cons, Option.bind_none, Option.bind_some, reduceCtorEq, decide_false,
      Bool.false_eq_true, ite_false] at he ⊢
    omega
  | drain c =>
    rw [World.drain_eq]
    exact hc.of_cells rfl rfl rfl fun _ => rfl
  | takeNotices =>
    rw [World.takeNotices_eq]
    refine hc.of_cells rfl rfl rfl fun e => ?_
    rw [Multiset.count_add, Multiset.count_eq_zero.mpr (not_mem_deals (by simp) _ _), Nat.zero_add]
  | reap _ hh =>
    rw [World.takeOut_snd hh]
    exact hc.of_cells rfl rfl rfl fun e => by simp
  | unwatch =>
    rw [World.unwatch_eq]
    exact hc.congr rfl rfl (fun e => (World.strong_congr rfl e).trans (World.strong_unwatch w _ _ _))
      fun e => by simp
  | call r => exact World.Counted.call (hc.congr rfl rfl (fun _ => rfl) fun e => by simp)
  | takeOut _ hh =>
    rw [World.takeOut_snd hh]
    exact hc.of_cells rfl rfl rfl fun e => by simp
  | takeAll _ hk =>
    rw [World.takeAll_snd]
    refine hc.of_cells rfl rfl rfl fun e => ?_
    rw [Multiset.count_add, Multiset.count_eq_zero.mpr (not_mem_unwatches (by simp) _),
      Nat.zero_add]
  | store _ ha => exact hc.congr rfl rfl (fun e => World.strong_store _ e) fun _ => rfl
  | @newSet _ _ b channel hb =>
    obtain ⟨c, v, ⟨rfl, rfl⟩ | ⟨-, rfl, rfl⟩, e⟩ := w.newSet_snd b channel <;> rw [e]
    · exact hc.of_cells rfl rfl rfl fun _ => rfl
    · exact hc.of_cells rfl rfl rfl fun _ => rfl
  | @unmake _ _ s =>
    rw [World.unmake_eq]
    exact hc.congr rfl rfl (fun e => World.strong_unwatchEach (w.ticketsOf s) w e) fun _ => rfl
  | stale | lose | enter | leave => exact hc.of_cells rfl rfl rfl fun e => by simp
  | _ => exact hc.of_cells rfl rfl rfl fun _ => rfl

/-! ## The journal -/

namespace World

/-- No handle is stored. -/
theorem Recorded.congr (hr : w.Recorded D) (hl : Later w w')
    (hj : ∀ t e, .stored t e ∈ w'.journal.toList → .stored t e ∈ w.journal.toList)
    (hh : ∀ t h, w'.handle? t = some h → w.handle? t = some h)
    (hw : ∀ e x, x ∈ w'.watchers e → x ∈ w.watchers e)
    (hd : ∀ t e, .unwatch t e ∈ D' →
      .unwatch t e ∈ D ∨ .stored t e ∈ w.journal.toList ∧ w'.handle? t = none) :
    w'.Recorded D' where
  stored t h ht := hl.mem_journal (hr.stored t h (hh t h ht))
  issued t e ht := by
    obtain ⟨hi, hs⟩ := hr.issued t e (hj t e ht)
    exact ⟨hl.issued t hi, hs.trans_le hl.sets⟩
  unique t e e' h h' := hr.unique t e e' (hj t e h) (hj t e' h')
  watched e x hx := by
    obtain ⟨hs, hc⟩ := hr.watched e x (hw e x hx)
    exact ⟨hl.mem_journal hs, by rw [hc, hl.channelOf (hr.issued _ _ hs).2]⟩
  unwatched t e ht := by
    rcases hd t e ht with ht | ⟨hs, hn⟩
    · obtain ⟨hs, hn⟩ := hr.unwatched t e ht
      exact ⟨hl.mem_journal hs, hl.gone t (hr.issued t e hs).1 hn⟩
    · exact ⟨hl.mem_journal hs, hn⟩

/-- Neither sets nor cells change, and the duties to watch no longer stay the same. -/
theorem Recorded.of_cells (hr : w.Recorded D) (hl : Later w w') (hs : w'.sets = w.sets)
    (hc : w'.cells = w.cells)
    (hj : ∀ t e, .stored t e ∈ w'.journal.toList → .stored t e ∈ w.journal.toList)
    (hd : ∀ t e, .unwatch t e ∈ D' → .unwatch t e ∈ D) : w'.Recorded D' :=
  hr.congr hl hj (fun t h ht => by rwa [handle?_congr hs] at ht)
    (fun e x hx => by rwa [watchers_congr hc] at hx) fun t e ht => .inl (hd t e ht)

theorem Recorded.takeOut (hr : w.Recorded D) {t : Ticket} {h : Handle}
    (hh : w.handle? t = some h) (d : Departure)
    (hd : ∀ t' e, .unwatch t' e ∈ D' → .unwatch t' e ∈ D ∨ t' = t ∧ e = h.element) :
    (w.takeOut t d).2.Recorded D' := by
  refine hr.congr (later_takeOut hh d) (fun t' e ht => ?_) (fun t' h' ht => ?_) (fun e x hx => ?_)
    fun t' e ht => ?_
  · rw [takeOut_snd hh] at ht
    simpa [note, setShard] using ht
  · rw [handle?_takeOut hh] at ht
    split at ht
    · cases ht
    · exact ht
  · rw [takeOut_snd hh] at hx; exact hx
  · refine (hd t' e ht).imp id ?_
    rintro ⟨rfl, rfl⟩
    exact ⟨hr.stored _ _ hh, by rw [handle?_takeOut hh, if_pos rfl]⟩

theorem Recorded.takeAll (hr : w.Recorded D) {s : SetId} {k : Nat} (hk : w.HasShard s k) :
    (w.takeAll s k).2.Recorded (unwatches (w.ticketsIn s k) + D) := by
  refine hr.congr (later_takeAll hk) (fun t e ht => ?_) (fun t h ht => ?_) (fun e x hx => ?_)
    fun t e ht => ?_
  · rw [takeAll_snd] at ht
    simpa using ht
  · rw [handle?_takeAll hk] at ht
    split at ht
    · cases ht
    · exact ht
  · rw [takeAll_snd] at hx; exact hx
  · rcases Multiset.mem_add.mp ht with ht | ht
    · obtain ⟨h, hm, rfl⟩ := mem_unwatches.mp ht
      obtain ⟨rfl, rfl, hh⟩ := mem_ticketsIn.mp hm
      exact .inr ⟨hr.stored _ _ hh, by rw [handle?_takeAll hk, if_pos ⟨rfl, rfl⟩]⟩
    · exact .inl ht

theorem Recorded.store (hf : w.Formed) (hr : w.Recorded D) {s : SetId} {k : Nat} {h : Handle}
    (hk : w.HasShard s k) (he : w.isAlive h.element) : (w.store s k h).2.Recorded D := by
  have hl := later_store hf.shards hk h
  have hnew : ∀ e, .stored (w.nextTicket s k h) e ∉ w.journal.toList := fun e hm =>
    not_issued_nextTicket h (hr.issued _ _ hm).1
  have hj : ∀ t e, .stored t e ∈ (w.store s k h).2.journal.toList ↔
      .stored t e ∈ w.journal.toList ∨ t = w.nextTicket s k h ∧ e = h.element := by
    intro t e
    rw [store_eq, Array.toList_push, List.mem_append, List.mem_singleton, Entry.stored.injEq]
  have hi : (w.store s k h).2.handle? (w.nextTicket s k h) = some h := by
    rw [handle?_store hf.shards hk, if_pos rfl]
  refine ⟨fun t h' ht => ?_, fun t e ht => ?_, fun t e e' ht ht' => ?_, fun e x hx => ?_,
    fun t e ht => ?_⟩
  · rw [handle?_store hf.shards hk] at ht
    split at ht
    · obtain rfl := Option.some.inj ht
      exact (hj _ _).mpr (.inr ⟨by assumption, rfl⟩)
    · exact (hj _ _).mpr (.inl (hr.stored _ _ ht))
  · rcases (hj t e).mp ht with ht | ⟨rfl, rfl⟩
    · exact ⟨hl.issued t (hr.issued t e ht).1, (hr.issued t e ht).2.trans_le hl.sets⟩
    · exact ⟨issued_of_handle? hi, hk.1.trans_le hl.sets⟩
  · rcases (hj t e).mp ht with ht | ⟨rfl, rfl⟩ <;> rcases (hj _ e').mp ht' with ht' | ⟨h', rfl⟩
    · exact hr.unique t e e' ht ht'
    · subst h'; exact absurd ht (hnew _)
    · exact absurd ht' (hnew _)
    · rfl
  · rw [watchers_store hk (lt_size_of_strong (isAlive_iff.mp he))] at hx
    have hold : x ∈ w.watchers e → .stored x.ticket e ∈ (w.store s k h).2.journal.toList ∧
        x.channel = (w.store s k h).2.channelOf x.ticket.owner := fun hx => by
      obtain ⟨hs, hc⟩ := hr.watched e x hx
      exact ⟨hl.mem_journal hs, by rw [hc, hl.channelOf (hr.issued _ _ hs).2]⟩
    split at hx
    · rcases List.mem_append.mp hx with hx | hx
      · exact hold hx
      · obtain rfl := List.mem_singleton.mp hx
        exact ⟨(hj _ _).mpr (.inr ⟨rfl, by assumption⟩), (hl.channelOf hk.1).symm⟩
    · exact hold hx
  · obtain ⟨hs, hn⟩ := hr.unwatched t e ht
    exact ⟨hl.mem_journal hs, hl.gone t (hr.issued t e hs).1 hn⟩

end World

/-- Every move keeps the records. -/
theorem Move.recorded (hf : w.Formed) (hc : w.Counted D) (hr : w.Recorded D)
    (hm : Move L (w, D) (w', D')) : w'.Recorded D' := by
  have hl := hm.later hf hc
  cases hm with
  | note hx =>
    refine hr.of_cells hl rfl rfl (fun t e ht => ?_) fun _ _ h => h
    simp only [World.note, Array.toList_push, List.mem_append, List.mem_singleton] at ht
    rcases ht with ht | rfl
    · exact ht
    · cases hx
  | bar =>
    refine hr.of_cells hl rfl rfl (fun t e ht => ?_) fun _ _ h => h
    simpa [World.note] using ht
  | post =>
    refine hr.of_cells hl rfl rfl (fun t e ht => ?_) fun _ _ h => h
    simpa [World.post, World.enqueue, World.note] using ht
  | create x =>
    refine hr.congr hl (fun _ _ h => h) (fun _ _ h => h) (fun e y hy => ?_) fun t e h => .inl ?_
    · rwa [World.watchers_create] at hy
    · simpa using h
  | acquire h =>
    refine hr.congr hl (fun _ _ h => h) (fun _ _ h => h) (fun e y hy => ?_) fun t e h => .inl ?_
    · rwa [World.watchers_acquire] at hy
    · simpa using h
  | @release _ _ e =>
    have ha := World.isAlive_iff.mp (hc.isAlive_of_hold (Multiset.mem_cons_self _ _))
    refine hr.congr hl (fun t e' ht => ?_) (fun t h ht => ?_) (fun e' x hx => ?_) fun t e' h =>
      .inl (by simpa using h)
    · obtain ⟨l, hl, hall⟩ := w.journal_release e
      rw [hl, List.mem_append] at ht
      rcases ht with ht | ht
      · exact ht
      · cases hall _ ht
    · rwa [World.handle?_congr (by rw [World.release_eq])] at ht
    · rw [World.watchers_release ha] at hx
      split at hx
      · cases hx
      · exact hx
  | drain c =>
    rw [World.drain_eq] at hl ⊢
    refine hr.of_cells hl rfl rfl (fun t e ht => ?_) fun _ _ h => h
    simpa [World.note] using ht
  | takeNotices =>
    rw [World.takeNotices_eq] at hl ⊢
    refine hr.of_cells hl rfl rfl (fun t e ht => ht) fun t e h => ?_
    exact (Multiset.mem_add.mp h).resolve_left (not_mem_deals (by simp) _ _)
  | reap _ hh => exact hr.takeOut hh _ fun t e h => by simpa [or_comm] using h
  | takeOut _ hh => exact hr.takeOut hh _ fun t e h => by simpa [or_comm] using h
  | @unwatch _ _ t e =>
    refine hr.congr hl (fun t' e' ht => ?_) (fun t' h ht => ?_) (fun e' x hx => ?_) fun t' e' h =>
      .inl (Multiset.mem_cons_of_mem h)
    · rwa [World.unwatch_eq] at ht
    · rwa [World.handle?_congr (by rw [World.unwatch_eq])] at ht
    · rw [World.watchers_unwatch] at hx
      split at hx
      · rename_i he; rw [he.1]; exact List.mem_of_mem_filter hx
      · exact hx
  | call r =>
    refine hr.congr hl (fun t e ht => ?_) (fun t h ht => ?_) (fun _ _ hx => hx) fun t e h => .inl ?_
    · simpa [World.call, World.countCall, World.note] using ht
    · rwa [World.handle?_call] at ht
    · simp [h]
  | takeAll _ hk => exact hr.takeAll hk
  | store _ ha =>
    exact hr.store hf ha.shard (hc.isAlive_of_hold (Multiset.mem_cons_self _ _))
  | @newSet _ _ b channel hb =>
    refine hr.congr hl (fun t e ht => ?_) (fun t h ht => ?_) (fun e x hx => ?_) fun t e h => .inl h
    · rwa [World.newSet_eq] at ht
    · rwa [World.handle?_newSet] at ht
    · rw [World.newSet_eq] at hx; exact hx
  | @unmake _ _ s =>
    refine hr.congr hl (fun t e ht => ?_) (fun t h ht => ?_) (fun e x hx => ?_) fun t e h => .inl h
    · rwa [World.unmake_eq] at ht
    · rwa [World.handle?_unmake] at ht
    · rw [World.unmake_eq] at hx
      exact (World.watchers_unwatchEach_sublist _ w e).subset hx
  | _ => exact hr.of_cells hl rfl rfl (fun _ _ h => h) fun _ _ h => by simpa using h

/-- Every move leaves the world in order. -/
theorem Move.sane (hs : w.Sane D) (hm : Move L (w, D) (w', D')) : w'.Sane D' :=
  ⟨hm.formed hs.formed hs.counted, hm.counted hs.counted,
    hm.recorded hs.formed hs.counted hs.recorded⟩

/-! ## Locked sets -/

/-- The shards of a locked set stay as they are. -/
theorem Move.shard {s : SetId} (hs : s ∈ L.locked) (hz : s < w.sets.size)
    (hm : Move L (w, D) (w', D')) (k : Nat) : w'.shard s k = w.shard s k := by
  have hne : ∀ {s'}, s' ∉ L.locked → s ≠ s' := fun h e => h (e ▸ hs)
  cases hm with
  | release => rw [World.release_eq]; rfl
  | drain c => rw [World.drain_eq]; rfl
  | takeNotices => rw [World.takeNotices_eq]; rfl
  | reap ht hh | takeOut ht hh =>
    rw [World.shard, World.collection_congr (World.sets_takeOut hh _)]
    change World.shard _ s k = _
    rw [World.shard_setShard (World.hasShard_of_handle? hh), if_neg fun e => hne ht e.1]
  | unwatch => rw [World.unwatch_eq]; rfl
  | call r => exact World.shard_countCall w _ s k
  | takeAll hn hk =>
    rw [World.shard, World.collection_congr World.sets_takeAll]
    change World.shard _ s k = _
    rw [World.shard_setShard hk, if_neg fun e => hne hn e.1]
  | store hn ha =>
    change World.shard (World.setShard w _ _ _) s k = _
    rw [World.shard_setShard ha.shard, if_neg fun e => hne hn e.1]
  | @newSet _ _ b channel =>
    obtain ⟨c, v, hv, e⟩ := w.newSet_snd b channel
    have hsets : v.sets = w.sets := by rcases hv with ⟨-, rfl⟩ | ⟨-, -, rfl⟩ <;> rfl
    rw [e]
    rcases World.shard_push v b c s k with ⟨he, -⟩ | h
    · rw [he, hsets] at hz; exact absurd hz (Nat.lt_irrefl _)
    · rw [h, World.shard, World.collection_congr hsets]; rfl
  | unmake => exact World.shard_unmake w _ s k
  | _ => rfl

/-! ## Courses -/

namespace Course

variable {p q : World × Duties}

theorem sane_later (h : Course L (w, D) (w', D')) (hs : w.Sane D) :
    w'.Sane D' ∧ World.Later w w' :=
  h.keeps (I := fun q => q.1.Sane q.2 ∧ World.Later w q.1)
    (fun _ _ hm hI => ⟨hm.sane hI.1, hI.2.trans (hm.later hI.1.formed hI.1.counted)⟩)
    ⟨hs, .refl w⟩

/-- Every run leaves the world in order. -/
theorem sane (h : Course L (w, D) (w', D')) (hs : w.Sane D) : w'.Sane D' :=
  (h.sane_later hs).1

theorem later (h : Course L (w, D) (w', D')) (hs : w.Sane D) : World.Later w w' :=
  (h.sane_later hs).2

/-- Code that runs while a set is locked leaves its shards as they are. -/
theorem shard (h : Course L (w, D) (w', D')) (hw : w.Sane D) {s : SetId} (hs : s ∈ L.locked)
    (hz : s < w.sets.size) (k : Nat) : w'.shard s k = w.shard s k :=
  (h.keeps (I := fun q => (q.1.Sane q.2 ∧ World.Later w q.1) ∧ q.1.shard s k = w.shard s k)
    (fun _ _ hm hI =>
      ⟨⟨hm.sane hI.1.1, hI.1.2.trans (hm.later hI.1.1.formed hI.1.1.counted)⟩,
        (hm.shard hs (hz.trans_le hI.1.2.sets) k).trans hI.2⟩)
    ⟨⟨hw, .refl w⟩, rfl⟩).2

end Course

end WeakSet
