import WeakSet.Proofs.Coverage

/-!
# Watchers mirror handles

At every point of every run the watchers of a living element and its handles in sets that exist are
the same, but for handles that were taken out and that code under way has yet to forget
(`World.Mirrored`). Each way to take a handle out owes it to its element to have it watched no
longer, and pays before the operation is over, however that ends. So between commands there is one
watcher for each handle and no other (`Session.watchers_mirror_handles`).
-/

namespace WeakSet

open Act Duties

namespace World

/-- Watchers of living elements are those of the handles of sets that exist. -/
structure Mirrored (w : World) (D : Duties) : Prop where
  /-- Each handle has one. -/
  watched : ∀ t h, w.handle? t = some h → w.isLive t.owner → w.isAlive h.element →
    (w.watchers h.element).count ⟨w.channelOf t.owner, t⟩ = 1
  /-- Each is of a handle, unless that was taken out and has yet to be forgotten. -/
  backed : ∀ e x, w.isAlive e → x ∈ w.watchers e →
    (∃ h, w.handle? x.ticket = some h ∧ h.element = e) ∧ w.isLive x.ticket.owner ∨
      .unwatch x.ticket e ∈ D

variable {w w' : World} {D D' : Duties} {s : SetId} {t : Ticket} {e : ElementId}

theorem mirrored_empty : World.empty.Mirrored 0 where
  watched t h hh := by
    rw [handle?_empty] at hh
    cases hh
  backed e x _ hx := by
    simp [watchers, empty] at hx

/-! ## Who watches after handles were forgotten -/

/-- Who watches on has not been forgotten. -/
theorem not_mem_of_mem_watchers_unwatchEach {xs : List (Ticket × Handle)} {x : Watcher}
    (ha : w.isAlive e) (hx : x ∈ (w.unwatchEach xs).watchers e) {h : Handle} (he : h.element = e) :
    (x.ticket, h) ∉ xs := by
  induction xs generalizing w with
  | nil => exact List.not_mem_nil
  | cons y ys ih =>
    intro hm
    rcases List.mem_cons.mp hm with rfl | hm
    · have hx' := (watchers_unwatchEach_sublist ys _ e).subset hx
      rw [watchers_unwatch, if_pos ⟨he.symm, by rwa [he]⟩, List.mem_filter] at hx'
      simp at hx'
    · have ha' : (w.unwatch y.2.element y.1).isAlive e := by
        rwa [isAlive, strong_unwatch]
      exact ih ha' hx hm

/-! ## What keeps watchers and handles the same -/

namespace Mirrored

/-- Handles stay, elements do not come to life, and who lives is watched as before. -/
theorem congr (h : w.Mirrored D) (hl : Later w w') (hs : ∀ s, w.isLive s → w'.isLive s)
    (hh : ∀ t, w'.handle? t = w.handle? t) (ha : ∀ e, w'.isAlive e → w.isAlive e)
    (hx : ∀ e, w'.isAlive e → w'.watchers e = w.watchers e)
    (hd : ∀ t e, .unwatch t e ∈ D → .unwatch t e ∈ D') : w'.Mirrored D' where
  watched t y hy hlive hal := by
    rw [hh] at hy
    have hsize : t.owner < w.sets.size := (hasShard_of_handle? hy).1
    rw [hx _ hal, hl.channelOf hsize]
    exact h.watched t y hy (hl.live _ hsize hlive) (ha _ hal)
  backed e x hal hxe := by
    rw [hx e hal] at hxe
    rcases h.backed e x (ha e hal) hxe with ⟨hy, hlive⟩ | hdue
    · rw [hh]
      exact .inl ⟨hy, hs _ hlive⟩
    · exact .inr (hd _ _ hdue)

/-- Neither handles nor cells change. -/
theorem of_cells (h : w.Mirrored D) (hl : Later w w') (hs : ∀ s, w.isLive s → w'.isLive s)
    (hh : ∀ t, w'.handle? t = w.handle? t) (hc : w'.cells = w.cells)
    (hd : ∀ t e, .unwatch t e ∈ D → .unwatch t e ∈ D') : w'.Mirrored D' :=
  h.congr hl hs hh (fun e he => by rwa [isAlive, strong_congr hc] at he)
    (fun e _ => watchers_congr hc e) hd

/-- Handles are taken out, and it is due to forget them. -/
theorem takenOut (ts : List Ticket) (h : w.Mirrored D) (hl : Later w w')
    (hs : ∀ s, w.isLive s → w'.isLive s) (hc : w'.cells = w.cells)
    (hh : ∀ t, w'.handle? t = if t ∈ ts then none else w.handle? t)
    (hdue : ∀ t y, t ∈ ts → w.handle? t = some y → .unwatch t y.element ∈ D')
    (hd : ∀ t e, .unwatch t e ∈ D → .unwatch t e ∈ D') : w'.Mirrored D' where
  watched t y hy hlive hal := by
    rw [hh] at hy
    split at hy
    · cases hy
    · have hsize : t.owner < w.sets.size := (hasShard_of_handle? hy).1
      rw [isAlive, strong_congr hc] at hal
      rw [watchers_congr hc, hl.channelOf hsize]
      exact h.watched t y hy (hl.live _ hsize hlive) hal
  backed e x hal hx := by
    rw [watchers_congr hc] at hx
    rw [isAlive, strong_congr hc] at hal
    rcases h.backed e x hal hx with ⟨⟨y, hy, rfl⟩, hlive⟩ | hx
    · by_cases hm : x.ticket ∈ ts
      · exact .inr (hdue _ y hm hy)
      · exact .inl ⟨⟨y, by rw [hh, if_neg hm]; exact hy, rfl⟩, hs _ hlive⟩
    · exact .inr (hd _ _ hx)

/-- A new element is watched by nobody. -/
theorem create (h : w.Mirrored D) (hw : w.Sane D) (x : Element) :
    (w.create x).2.Mirrored (.hold w.cells.size ::ₘ D) where
  watched t y hy hlive hal := by
    have hlt := (hw.formed.fits t y hy).element
    rw [isAlive, strong_create, if_neg (Nat.ne_of_lt hlt)] at hal
    rw [watchers_create]
    exact h.watched t y hy hlive hal
  backed e y hal hy := by
    rw [watchers_create] at hy
    have hlt : e < w.cells.size := by
      by_contra hn
      rw [watchers, Array.getElem?_eq_none (Nat.le_of_not_lt hn)] at hy
      cases hy
    rw [isAlive, strong_create, if_neg (Nat.ne_of_lt hlt)] at hal
    exact (h.backed e y hal hy).imp id fun hd => Multiset.mem_cons_of_mem hd

/-- A handle that was taken out is forgotten, and nobody else. -/
theorem unwatch (h : w.Mirrored (.unwatch t e ::ₘ D)) (hw : w.Sane (.unwatch t e ::ₘ D)) :
    (w.unwatch e t).Mirrored D where
  watched t' y hy hlive hal := by
    have hsets : (w.unwatch e t).sets = w.sets := by rw [unwatch_eq]
    rw [handle?_congr hsets] at hy
    rw [isLive, collection_congr hsets] at hlive
    rw [isAlive, strong_unwatch] at hal
    have hsize : t'.owner < w.sets.size := (hasShard_of_handle? hy).1
    have hne : t' ≠ t := by
      rintro rfl
      rw [(hw.recorded.unwatched _ _ (Multiset.mem_cons_self _ _)).2] at hy
      cases hy
    rw [channelOf, collection_congr hsets]
    exact (count_watchers_unwatch hne (hasChannel_of_isLive hsize hlive) y.element e).trans
      (h.watched t' y hy hlive hal)
  backed e' x hal hx := by
    have hsets : (w.unwatch e t).sets = w.sets := by rw [unwatch_eq]
    rw [isAlive, strong_unwatch] at hal
    rw [handle?_congr hsets, isLive, collection_congr hsets]
    rw [watchers_unwatch] at hx
    split at hx
    · rename_i he
      obtain ⟨rfl, -⟩ := he
      obtain ⟨hx, hne⟩ := List.mem_filter.mp hx
      refine (h.backed _ x hal hx).imp id fun hd => ?_
      refine (Multiset.mem_cons.mp hd).resolve_left fun heq => ?_
      simp [(Duty.unwatch.inj heq).1] at hne
    · rename_i he
      refine (h.backed _ x hal hx).imp id fun hd => ?_
      refine (Multiset.mem_cons.mp hd).resolve_left fun heq => he ?_
      obtain ⟨-, rfl⟩ := Duty.unwatch.inj heq
      exact ⟨rfl, hal⟩

/-- A set is unmade, and every handle of it forgotten. -/
theorem unmake (h : w.Mirrored D) (s : SetId) : (w.unmake s).Mirrored D where
  watched t y hy hlive hal := by
    have hcells : (w.unmake s).cells = (w.unwatchEach (w.ticketsOf s)).cells := by rw [unmake_eq]
    rw [handle?_unmake] at hy
    have hsize : t.owner < w.sets.size := (hasShard_of_handle? hy).1
    have hne : t.owner ≠ s := by
      rintro rfl
      rw [isLive, collection_congr (by rw [unmake_eq] : (w.unmake t.owner).sets =
        (w.endSet t.owner).sets), collection_endSet hsize, if_pos rfl] at hlive
      cases hlive
    have hl := w.later_unmake s
    have hlive := hl.live _ hsize hlive
    rw [isAlive, strong_congr hcells, strong_unwatchEach] at hal
    rw [watchers_congr hcells, hl.channelOf hsize]
    refine (count_watchers_unwatchEach (fun x hx heq => hne ?_)
      (hasChannel_of_isLive hsize hlive) _).trans (h.watched t y hy hlive hal)
    rw [heq]
    exact (mem_ticketsOf.mp hx).1
  backed e x hal hx := by
    have hcells : (w.unmake s).cells = (w.unwatchEach (w.ticketsOf s)).cells := by rw [unmake_eq]
    rw [isAlive, strong_congr hcells, strong_unwatchEach] at hal
    rw [watchers_congr hcells] at hx
    have hx' := (watchers_unwatchEach_sublist _ w e).subset hx
    refine (h.backed e x hal hx').imp ?_ id
    rintro ⟨⟨y, hy, he⟩, hlive⟩
    have hno := not_mem_of_mem_watchers_unwatchEach hal hx he
    have hne : x.ticket.owner ≠ s := fun ho => hno (mem_ticketsOf.mpr ⟨ho, hy⟩)
    exact ⟨⟨y, by rw [handle?_unmake]; exact hy, he⟩, isLive_unmake hne hlive⟩

/-- A handle is stored, with its watcher. -/
theorem store (h : w.Mirrored D) (hw : w.Sane D) {k : Nat} {y : Handle} (ha : w.Admits s k y)
    (hy : .hold y.element ∈ D) (hs : ∀ s', w.isLive s' → (w.store s k y).2.isLive s') :
    (w.store s k y).2.Mirrored D := by
  have hlt := lt_size_of_strong (isAlive_iff.mp (hw.counted.isAlive_of_hold hy))
  have hl := later_store hw.formed.shards ha.shard y
  have hnew : ¬ w.Issued (w.nextTicket s k y) := not_issued_nextTicket y
  have hhand := handle?_store hw.formed.shards ha.shard (h := y)
  have hwatch := watchers_store ha.shard hlt (h := y)
  refine ⟨fun t z hz hlive hal => ?_, fun e x hal hx => ?_⟩
  · rw [isAlive, strong_store] at hal
    rw [hhand] at hz
    by_cases heq : t = w.nextTicket s k y
    · subst heq
      rw [if_pos rfl] at hz
      obtain rfl := Option.some.inj hz
      have hno : ⟨w.channelOf s, w.nextTicket s k y⟩ ∉ w.watchers y.element := fun hx =>
        hnew (hw.recorded.issued _ _ (hw.recorded.watched _ _ hx).1).1
      have hch : (w.store s k y).2.channelOf (w.nextTicket s k y).owner = w.channelOf s :=
        hl.channelOf ha.shard.1
      rw [hch, hwatch, if_pos rfl, List.count_append, List.count_eq_zero.mpr hno]
      simp
    · rw [if_neg heq] at hz
      have hsize : t.owner < w.sets.size := (hasShard_of_handle? hz).1
      rw [hl.channelOf hsize, ← h.watched t z hz (hl.live _ hsize hlive) hal, hwatch]
      split
      · rw [List.count_append]
        have hne : w.nextTicket s k y ≠ t := Ne.symm heq
        simp [hne]
      · rfl
  · rw [isAlive, strong_store] at hal
    rw [hwatch] at hx
    have hold : x ∈ w.watchers e →
        (∃ z, (w.store s k y).2.handle? x.ticket = some z ∧ z.element = e) ∧
          (w.store s k y).2.isLive x.ticket.owner ∨ .unwatch x.ticket e ∈ D := by
      intro hx
      refine (h.backed e x hal hx).imp ?_ id
      rintro ⟨⟨z, hz, he⟩, hlive⟩
      have hne : x.ticket ≠ w.nextTicket s k y := fun heq => hnew (heq ▸ issued_of_handle? hz)
      exact ⟨⟨z, by rw [hhand, if_neg hne]; exact hz, he⟩, hs _ hlive⟩
    split at hx
    · rename_i he
      rcases List.mem_append.mp hx with hx | hx
      · exact hold hx
      · obtain rfl := List.mem_singleton.mp hx
        exact .inl ⟨⟨y, by rw [hhand, if_pos rfl], he.symm⟩, hs _ ha.live⟩
    · exact hold hx

end Mirrored

end World

variable {L : Scene} {w w' : World} {D D' : Duties}

/-- Every move keeps watchers and handles the same. -/
theorem Move.mirrored (hw : w.Sane D) (hm : Move L (w, D) (w', D')) (h : w.Mirrored D) :
    w'.Mirrored D' := by
  have hl := hm.later hw.formed hw.counted
  obtain hs | ⟨s, rfl, rfl⟩ := hm.isLive
  · cases hm with
    | create x => exact h.create hw x
    | @acquire _ _ e ha =>
      have hlt := World.lt_size_of_strong (World.isAlive_iff.mp ha)
      refine h.congr hl hs (fun _ => rfl) (fun e' he' => ?_)
        (fun e' _ => World.watchers_acquire w e e') (by simp)
      rw [World.isAlive_iff, World.strong_acquire hlt] at he'
      split at he'
      · subst_vars
        exact ha
      · exact World.isAlive_iff.mpr he'
    | @release _ _ e =>
      have hpos := World.isAlive_iff.mp (hw.counted.isAlive_of_hold (Multiset.mem_cons_self _ _))
      refine h.congr hl hs (World.handle?_congr (by rw [World.release_eq])) (fun e' he' => ?_)
        (fun e' he' => ?_) (by simp)
      · rw [World.isAlive_iff, World.strong_release hpos] at he'
        rw [World.isAlive_iff]
        split at he'
        · subst_vars
          exact hpos
        · exact he'
      · rw [World.watchers_release hpos, if_neg]
        rintro ⟨rfl, hone⟩
        rw [World.isAlive_iff, World.strong_release hpos, if_pos rfl, hone] at he'
        exact absurd he' (Nat.lt_irrefl 0)
    | unwatch => exact h.unwatch hw
    | store _ ha => exact h.store hw ha (Multiset.mem_cons_self _ _) hs
    | @reap _ _ t y _ hy =>
      refine World.Mirrored.takenOut [t] h hl hs (by rw [World.takeOut_snd hy]; rfl) (fun t' => ?_)
        (fun t' y' ht hy' => ?_) (by simp +contextual)
      · simpa using World.handle?_takeOut hy .swept t'
      · obtain rfl := List.mem_singleton.mp ht
        obtain rfl := Option.some.inj (hy.symm.trans hy')
        simp
    | @takeOut _ _ t y d _ hy _ =>
      refine World.Mirrored.takenOut [t] h hl hs (by rw [World.takeOut_snd hy]; rfl) (fun t' => ?_)
        (fun t' y' ht hy' => ?_) (by simp +contextual)
      · simpa using World.handle?_takeOut hy d t'
      · obtain rfl := List.mem_singleton.mp ht
        obtain rfl := Option.some.inj (hy.symm.trans hy')
        simp
    | @takeAll _ _ s k _ hk =>
      refine World.Mirrored.takenOut ((w.ticketsIn s k).map Prod.fst) h hl hs
        (by rw [World.takeAll_snd]; rfl) (World.handle?_takeAll_of_tickets hk) (fun t y ht hy => ?_)
        fun _ _ hd => Multiset.mem_add.mpr (.inr hd)
      obtain ⟨x, hx, rfl⟩ := List.mem_map.mp ht
      obtain ⟨-, -, hx'⟩ := World.mem_ticketsIn.mp hx
      obtain rfl := Option.some.inj (hx'.symm.trans hy)
      exact Multiset.mem_add.mpr (.inl (Duties.mem_unwatches.mpr ⟨_, hx, rfl⟩))
    | drain c =>
      have e := World.drain_eq (w.note (.drained c)) c
      exact h.of_cells hl hs (World.handle?_congr (by rw [e]; rfl)) (by rw [e]; rfl) fun _ _ hd => hd
    | takeNotices =>
      have e := World.drain_eq w
      refine h.of_cells hl hs (World.handle?_congr ?_) ?_ fun _ _ hd => Multiset.mem_add.mpr (.inr hd)
      · rw [World.takeNotices, e]
      · rw [World.takeNotices, e]
    | newSet b =>
      exact h.of_cells hl hs (World.handle?_newSet w b _) (by rw [World.newSet_eq]) fun _ _ hd => hd
    | call r => exact h.of_cells hl hs (World.handle?_call w r) rfl (by simp +contextual)
    | unmake => exact h.unmake _
    | _ => exact h.of_cells hl hs (fun _ => rfl) rfl (by simp +contextual)
  · exact h.unmake s

theorem Course.mirrored (h : Course L (w, D) (w', D')) (hw : w.Sane D) (hm : w.Mirrored D) :
    w'.Mirrored D' :=
  (h.keeps (I := fun q => q.1.Sane q.2 ∧ q.1.Mirrored q.2)
    (fun _ _ hm hI => ⟨hm.sane hI.1, hm.mirrored hI.1 hI.2⟩) ⟨hw, hm⟩).2

namespace World

theorem Point.mirrored (h : w.Point D) : w.Mirrored D :=
  Course.mirrored h sane_empty mirrored_empty

/-! ## The handles of an element -/

/-- The tickets of an element's handles in the sets that exist. -/
def ticketsFor (w : World) (e : ElementId) : List Ticket :=
  ((List.range w.sets.size).filter w.isLive).flatMap fun s =>
    ((w.ticketsOf s).filter fun x => x.2.element = e).map Prod.fst

theorem mem_ticketsFor {e : ElementId} {t : Ticket} :
    t ∈ w.ticketsFor e ↔
      (∃ h, w.handle? t = some h ∧ h.element = e) ∧ w.isLive t.owner := by
  simp only [ticketsFor, List.mem_flatMap, List.mem_filter, List.mem_range, List.mem_map,
    Prod.exists, mem_ticketsOf, decide_eq_true_eq]
  constructor
  · rintro ⟨s, ⟨-, hs⟩, t, h, ⟨⟨rfl, hh⟩, he⟩, rfl⟩
    exact ⟨⟨h, hh, he⟩, hs⟩
  · rintro ⟨⟨h, hh, he⟩, hs⟩
    exact ⟨t.owner, ⟨lt_size_of_isLive hs, hs⟩, t, h, ⟨⟨rfl, hh⟩, he⟩, rfl⟩

theorem nodup_ticketsFor (w : World) (e : ElementId) : (w.ticketsFor e).Nodup := by
  refine List.nodup_flatMap.mpr ⟨fun s _ => ?_, ?_⟩
  · exact (w.nodup_ticketsOf s).sublist (List.filter_sublist.map _)
  · refine (List.nodup_range.filter _).pairwise_of_forall_ne fun s _ s' _ hne t ht ht' => hne ?_
    obtain ⟨⟨_, y⟩, hy, rfl⟩ := List.mem_map.mp ht
    obtain ⟨⟨_, y'⟩, hy', rfl⟩ := List.mem_map.mp ht'
    have ho := (mem_ticketsOf.mp (List.mem_filter.mp hy).1).1
    exact ho.symm.trans (mem_ticketsOf.mp (List.mem_filter.mp hy').1).1

/-- Unless handles are yet to be forgotten, who watches a living element are its handles, each once. -/
theorem Mirrored.perm (h : w.Mirrored D) (hr : w.Recorded D) {e : ElementId} (ha : w.isAlive e)
    (hd : ∀ t, .unwatch t e ∉ D) :
    (w.watchers e).Perm ((w.ticketsFor e).map fun t => ⟨w.channelOf t.owner, t⟩) := by
  have hback : ∀ x ∈ w.watchers e,
      x.ticket ∈ w.ticketsFor e ∧ x = ⟨w.channelOf x.ticket.owner, x.ticket⟩ := by
    intro x hx
    have hm := (h.backed e x ha hx).resolve_right (hd x.ticket)
    refine ⟨mem_ticketsFor.mpr hm, ?_⟩
    rw [← (hr.watched e x hx).2]
  have hone : ∀ t ∈ w.ticketsFor e, (w.watchers e).count ⟨w.channelOf t.owner, t⟩ = 1 := by
    intro t ht
    obtain ⟨⟨y, hy, rfl⟩, hl⟩ := mem_ticketsFor.mp ht
    exact h.watched t y hy hl ha
  refine (List.perm_ext_iff_of_nodup ?_ ?_).mpr fun x => ?_
  · refine List.nodup_iff_count_le_one.mpr fun x => ?_
    by_cases hx : x ∈ w.watchers e
    · obtain ⟨ht, he⟩ := hback x hx
      rw [he]
      exact (hone _ ht).le
    · rw [List.count_eq_zero.mpr hx]
      exact Nat.zero_le 1
  · exact (w.nodup_ticketsFor e).map fun t t' ht => congrArg Watcher.ticket ht
  · constructor
    · intro hx
      obtain ⟨ht, he⟩ := hback x hx
      exact List.mem_map.mpr ⟨x.ticket, ht, he.symm⟩
    · intro hx
      obtain ⟨t, ht, rfl⟩ := List.mem_map.mp hx
      exact List.count_pos_iff.mp (by rw [hone t ht]; exact Nat.one_pos)

end World

namespace Session

/-- Watchers mirror handles. Whatever commands a client has carried out, with whatever scripts, the
watchers of an element that lives are one for each of its handles in sets that exist, with the
channel of the set, and no other: those of handles that were taken out, and of sets that were
dropped, are gone. So the number of watchers that the client is told is the number of such
handles. -/
theorem watchers_mirror_handles (depth : Nat) (cs : List Command) :
    let w := carryOutAll depth .empty cs
    ∀ e, w.isAlive e →
      (∀ t, t ∈ w.ticketsFor e ↔
        (∃ h, w.handle? t = some h ∧ h.element = e) ∧ w.isLive t.owner) ∧
      (w.ticketsFor e).Nodup ∧
      (w.watchers e).Perm ((w.ticketsFor e).map fun t => ⟨w.channelOf t.owner, t⟩) ∧
      ∀ owner, w.owners.find? owner = some e →
        (carryOutWithin depth w (.counts owner)).1 =
          .counts (w.strong e) (w.ticketsFor e).length := by
  intro w e ha
  have hw : w.Point 0 := point_carryOutAll depth cs
  have hp := hw.mirrored.perm hw.recorded ha (by simp)
  refine ⟨fun _ => World.mem_ticketsFor, w.nodup_ticketsFor e, hp, fun owner ho => ?_⟩
  have hlen := hp.length_eq
  rw [List.length_map] at hlen
  rw [carryOutWithin_eq, exec_counts false ho, hlen]
  rfl

/-- An element that two sets share, the first of which is dropped while its channel stays. -/
def sharedRun : List Command :=
  [.new "x" (.number 1) none none, .newChannel "ch" (.ok .queue),
    .build "s" (.ok ⟨{ capacity := 4, concurrency := 1 }, some "ch", .constant 7, .silent⟩),
    .build "t" (.ok ⟨{ capacity := 4, concurrency := 1 }, none, .constant 7, .silent⟩),
    .add "s" "x", .add "t" "x", .dropSet "s"]

/-- Only the second set watches on. -/
theorem watchers_mirror_shared :
    let w := carryOutAll 0 .empty sharedRun
    (carryOutWithin 0 w (.counts "x")).1 = .counts (w.strong 0) (w.ticketsFor 0).length ∧
      w.ticketsFor 0 = [⟨1, 0, 0, 1⟩] :=
  ⟨(watchers_mirror_handles 0 sharedRun 0 (by decide +kernel)).2.2.2 "x" (by decide +kernel),
    by decide +kernel⟩

end Session

end WeakSet
