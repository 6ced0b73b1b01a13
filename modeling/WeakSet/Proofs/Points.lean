import WeakSet.Proofs.Sane

/-!
# Points of runs

A *point* of a run is a world with duties to which a course of moves leads from the empty world
(`World.Point`). What every move keeps is true of it: the world is in order, and sets that have a
name exist (`World.Point.sane`, `World.Point.housed`).

A scene is *on* in a world if what it says is locked is locked and what it says is in use exists
under its name (`Scene.On`). Code that runs in a scene leaves it on (`Course.on`): no name is given
to another set, and no set is unmade, while it is in use.
-/

namespace WeakSet

open Duties

namespace World

/-- Names, cursors and sets stay. -/
structure Stays (w w' : World) : Prop where
  names : w'.setNames = w.setNames
  cursors : w'.cursors = w.cursors
  live : ∀ s, w.isLive s → w'.isLive s

variable {w w' : World} {L : Scene} {s : SetId}

theorem lt_size_of_isLive (h : w.isLive s) : s < w.sets.size := by
  by_contra hn
  rw [isLive, collection_default (Nat.le_of_not_lt hn)] at h
  cases h

theorem Stays.of_sets (hn : w'.setNames = w.setNames) (hc : w'.cursors = w.cursors)
    (hs : w'.sets = w.sets) : Stays w w' :=
  ⟨hn, hc, fun s h => by rwa [isLive, collection_congr hs]⟩

theorem Stays.housed (h : Stays w w') (hw : w.Housed) : w'.Housed where
  live x hx := h.live _ (hw.live x (h.names ▸ hx))
  once := by rw [h.names]; exact hw.once

theorem Stays.serves (h : Stays w w') {x : Option String × SetId} (hx : w.Serves x) :
    w'.Serves x := by
  obtain ⟨_ | name, s⟩ := x
  · exact ⟨h.live s hx.1, by rw [isNamed, h.names]; exact hx.2.1, by rw [h.cursors]; exact hx.2.2⟩
  · exact ⟨h.live s hx.1, by rw [h.names]; exact hx.2⟩

theorem isLive_unmake {s' : SetId} (hne : s' ≠ s) (h : w.isLive s') : (w.unmake s).isLive s' := by
  have hm : (w.unmake s).collection s' = (w.endSet s).collection s' :=
    collection_congr (by rw [unmake_eq]) s'
  rw [isLive, hm]
  by_cases hs : s < w.sets.size
  · rw [collection_endSet hs, if_neg hne]
    exact h
  · rw [endSet, modify_sets_of_size_le (Nat.le_of_not_lt hs)]
    exact h

/-- A set without a name is unmade. -/
theorem Housed.unmake (hw : w.Housed) (hn : w.isNamed s = false) : (w.unmake s).Housed where
  live x hx := by
    rw [unmake_eq] at hx
    refine isLive_unmake (fun e => ?_) (hw.live x hx)
    have hs : w.isNamed s := List.any_eq_true.mpr ⟨x, hx, decide_eq_true e⟩
    rw [hn] at hs
    cases hs
  once := by rw [unmake_eq]; exact hw.once

theorem Serves.unmake {x : Option String × SetId} (hx : w.Serves x) (hne : x.2 ≠ s) :
    (w.unmake s).Serves x := by
  obtain ⟨_ | name, s'⟩ := x
  · exact ⟨isLive_unmake hne hx.1, by rw [unmake_eq]; exact hx.2⟩
  · exact ⟨isLive_unmake hne hx.1, by rw [unmake_eq]; exact hx.2⟩

theorem Serves.isLive {x : Option String × SetId} (hx : w.Serves x) : w.isLive x.2 := by
  obtain ⟨_ | name, s⟩ := x <;> exact hx.1

end World

variable {L : Scene} {w w' : World} {D D' : Duties}

/-- A move leaves names and sets as they are, or gives names, or unmakes a set that has none and is
not in use. -/
theorem Move.stays (hm : Move L (w, D) (w', D')) :
    w.Stays w' ∨ w'.WellNamed L ∧ w'.sets = w.sets ∨
      ∃ s, w.isNamed s = false ∧ ¬ L.Uses s ∧ w' = w.unmake s ∧ D' = D := by
  cases hm with
  | rename _ _ h => exact .inr (.inl ⟨h, rfl⟩)
  | unmake hn hu => exact .inr (.inr ⟨_, hn, hu, rfl, rfl⟩)
  | release =>
    have e := World.release_eq w
    exact .inl (.of_sets (by rw [e]) (by rw [e]) (by rw [e]))
  | drain c =>
    have e := World.drain_eq (w.note (.drained c)) c
    exact .inl (.of_sets (by rw [e]; rfl) (by rw [e]; rfl) (by rw [e]; rfl))
  | @takeNotices _ _ s =>
    have e := World.drain_eq w (w.collection s).channel
    rw [World.takeNotices]
    exact .inl (.of_sets (by rw [e]) (by rw [e]) (by rw [e]))
  | unwatch =>
    have e := World.unwatch_eq w
    exact .inl (.of_sets (by rw [e]) (by rw [e]) (by rw [e]))
  | reap _ hh | takeOut _ hh =>
    have e := World.takeOut_snd hh
    refine .inl ⟨by rw [e]; rfl, by rw [e]; rfl, fun s hs => ?_⟩
    rw [World.isLive, World.collection_congr (World.sets_takeOut hh _)]
    exact (World.isLive_setShard (World.hasShard_of_handle? hh) _ s).trans hs
  | @takeAll _ _ s k _ hk =>
    have e := w.takeAll_snd (s := s) (k := k)
    refine .inl ⟨by rw [e]; rfl, by rw [e]; rfl, fun s' hs => ?_⟩
    rw [World.isLive, World.collection_congr World.sets_takeAll]
    exact (World.isLive_setShard hk _ s').trans hs
  | @store _ _ s k h _ ha =>
    refine .inl ⟨rfl, rfl, fun s' hs => ?_⟩
    rw [World.isLive, World.collection_congr (World.sets_store h)]
    exact (World.isLive_setShard ha.shard _ s').trans hs
  | call r =>
    refine .inl ⟨rfl, rfl, fun s hs => ?_⟩
    show ((w.countCall r.ticket.owner).2.collection s).isLive = true
    by_cases ho : r.ticket.owner < w.sets.size
    · rw [World.collection_countCall ho]
      split
      · subst_vars; exact hs
      · exact hs
    · rw [World.countCall, World.modify_sets_of_size_le (Nat.le_of_not_lt ho)]
      exact hs
  | @newSet _ _ b channel =>
    have e := w.newSet_eq b channel
    refine .inl ⟨by rw [e], by rw [e], fun s hs => ?_⟩
    have hlt := World.lt_size_of_isLive hs
    obtain ⟨c, v, ⟨-, rfl⟩ | ⟨-, -, rfl⟩, hv⟩ := w.newSet_snd b channel
    all_goals
      rw [hv, World.isLive, World.collection_push]
      exact (congrArg Collection.isLive (if_neg (Nat.ne_of_lt hlt))).trans hs
  | _ => exact .inl (.of_sets rfl rfl rfl)

/-- Sets live on unless they are unmade. -/
theorem Move.isLive (hm : Move L (w, D) (w', D')) :
    (∀ s, w.isLive s → w'.isLive s) ∨ ∃ s, w' = w.unmake s ∧ D' = D := by
  obtain h | ⟨-, hs⟩ | ⟨s, -, -, rfl, rfl⟩ := hm.stays
  · exact .inl h.live
  · exact .inl fun s h => by rwa [World.isLive, World.collection_congr hs]
  · exact .inr ⟨s, rfl, rfl⟩

/-- Every move leaves sets that have a name as they should be. -/
theorem Move.housed (hm : Move L (w, D) (w', D')) (hw : w.Housed) : w'.Housed := by
  obtain h | ⟨h, -⟩ | ⟨s, hn, -, rfl, -⟩ := hm.stays
  · exact h.housed hw
  · exact h.housed
  · exact hw.unmake hn

/-- What is in use stays in use. -/
theorem Move.serves (hm : Move L (w, D) (w', D')) {x : Option String × SetId} (hx : x ∈ L.used)
    (hw : w.Serves x) : w'.Serves x := by
  obtain h | ⟨h, -⟩ | ⟨s, -, hu, rfl, -⟩ := hm.stays
  · exact h.serves hw
  · exact h.serves x hx
  · exact hw.unmake fun e => hu ⟨x, hx, e⟩

/-- A move enters a set, which it is then due to leave, or leaves one, or leaves locks alone. -/
theorem Move.locking (hm : Move L (w, D) (w', D')) :
    (∃ s, s ∉ w.entered ∧ w' = w.lock s ∧ D' = .leave s ::ₘ D) ∨
    (∃ s, s ∉ L.locked ∧ w' = w.unlock s ∧ D = .leave s ::ₘ D') ∨
      w'.entered = w.entered ∧ ∀ s, D'.count (.leave s) = D.count (.leave s) := by
  cases hm with
  | enter h => exact .inl ⟨_, h, rfl, rfl⟩
  | leave h => exact .inr (.inl ⟨_, h, rfl, rfl⟩)
  | release =>
    refine .inr (.inr ⟨?_, by simp⟩)
    rw [World.release_eq]
  | drain c =>
    refine .inr (.inr ⟨?_, fun _ => rfl⟩)
    rw [World.drain_eq]
    rfl
  | takeNotices =>
    refine .inr (.inr ⟨?_, by simp⟩)
    rw [World.takeNotices_eq]
  | reap _ hh | takeOut _ hh =>
    refine .inr (.inr ⟨?_, by simp⟩)
    rw [World.takeOut_snd hh]
    rfl
  | unwatch =>
    refine .inr (.inr ⟨?_, by simp⟩)
    rw [World.unwatch_eq]
  | takeAll =>
    refine .inr (.inr ⟨?_, by simp⟩)
    rw [World.takeAll_snd]
    rfl
  | newSet b =>
    refine .inr (.inr ⟨?_, fun _ => rfl⟩)
    rw [World.newSet_eq]
  | unmake =>
    refine .inr (.inr ⟨?_, fun _ => rfl⟩)
    rw [World.unmake_eq]
  | _ => exact .inr (.inr ⟨rfl, by simp⟩)

/-- What is locked stays locked. -/
theorem Move.entered {s : SetId} (hs : s ∈ L.locked) (he : s ∈ w.entered)
    (hm : Move L (w, D) (w', D')) : s ∈ w'.entered := by
  obtain ⟨_, -, rfl, -⟩ | ⟨s', hL, rfl, -⟩ | ⟨h, -⟩ := hm.locking
  · exact List.mem_cons_of_mem _ he
  · rw [World.unlock, (Act.swapRemove_perm ..).mem_iff]
    exact (List.mem_erase_of_ne fun e => absurd (e ▸ hs) hL).mpr he
  · rwa [h]

/-- Who enters a set has to leave it. -/
theorem Move.locks (hm : Move L (w, D) (w', D'))
    (h : ∀ s, w.entered.count s = D.count (.leave s)) (s : SetId) :
    w'.entered.count s = D'.count (.leave s) := by
  obtain ⟨s', -, rfl, rfl⟩ | ⟨s', -, rfl, rfl⟩ | ⟨he, hd⟩ := hm.locking
  · rw [World.lock, List.count_cons, Multiset.count_cons]
    by_cases hs : s = s'
    · simp [hs, ← h]
    · simp [hs, Ne.symm hs, h]
  · have := h s
    rw [Multiset.count_cons] at this
    rw [World.unlock, (Act.swapRemove_perm ..).count_eq, List.count_erase, this]
    by_cases hs : s = s'
    · simp [hs]
    · simp [hs, Ne.symm hs]
  · rw [he, hd, h]

/-! ## Scenes -/

namespace Scene

/-- The world is as the scene says. -/
structure On (L : Scene) (w : World) : Prop where
  locked : ∀ s ∈ L.locked, s ∈ w.entered
  used : ∀ x ∈ L.used, w.Serves x

variable {L' : Scene} {s : SetId}

theorem On.idle (w : World) : Scene.idle.On w :=
  ⟨fun _ h => absurd h List.not_mem_nil, fun _ h => absurd h List.not_mem_nil⟩

theorem On.lock (h : L.On w) (s : SetId) : (L.lock s).On (w.lock s) where
  locked s' hs' := by
    rcases List.mem_cons.mp hs' with rfl | hs'
    · exact List.mem_cons_self
    · exact List.mem_cons_of_mem _ (h.locked s' hs')
  used x hx := World.Stays.serves (.of_sets rfl rfl rfl) (h.used x hx)

theorem On.use (h : L.On w) {name : Option String} (hs : w.Serves (name, s)) :
    (L.use name s).On w where
  locked := h.locked
  used x hx := by
    rcases List.mem_cons.mp hx with rfl | hx
    · exact hs
    · exact h.used x hx

theorem On.isLive (h : L.On w) (hs : L.Uses s) : w.isLive s := by
  obtain ⟨x, hx, rfl⟩ := hs
  exact (h.used x hx).isLive

theorem On.lt_size (h : L.On w) (hs : L.Uses s) : s < w.sets.size :=
  World.lt_size_of_isLive (h.isLive hs)

end Scene

namespace Course

theorem locks (h : Course L (w, D) (w', D')) (hw : ∀ s, w.entered.count s = D.count (.leave s)) :
    ∀ s, w'.entered.count s = D'.count (.leave s) :=
  h.keeps (I := fun q => ∀ s, q.1.entered.count s = q.2.count (.leave s)) (fun _ _ hm => hm.locks) hw

theorem on (h : Course L (w, D) (w', D')) (ho : L.On w) : L.On w' :=
  h.keeps (I := fun q => L.On q.1) (fun _ _ hm hI =>
    ⟨fun s hs => hm.entered hs (hI.locked s hs), fun x hx => hm.serves hx (hI.used x hx)⟩) ho

theorem housed (h : Course L (w, D) (w', D')) (hw : w.Housed) : w'.Housed :=
  h.keeps (I := fun q => q.1.Housed) (fun _ _ hm => hm.housed) hw

end Course

/-! ## Points -/

namespace World

theorem collection_empty (s : SetId) : World.empty.collection s = default :=
  collection_default (Nat.zero_le s)

theorem handle?_empty (t : Ticket) : World.empty.handle? t = none := by
  rw [handle?, shard, collection_empty]
  rfl

/-- Nothing is in order. -/
theorem sane_empty : World.empty.Sane 0 where
  formed :=
    { shards := fun s k => by rw [shard, collection_empty]; exact Shard.wf_withRoom 0
      roomy := fun s hs => absurd hs (Nat.not_lt_zero s)
      channel := fun s hs => absurd hs (Nat.not_lt_zero s)
      fits := fun t h hh => by simp [handle?_empty] at hh
      named := ⟨by simp [World.empty], by simp [World.empty], by simp [World.empty],
        by simp [World.empty]⟩ }
  counted := ⟨List.nodup_nil, fun e => rfl⟩
  recorded :=
    { stored := fun t h hh => by simp [handle?_empty] at hh
      issued := fun t e h => by simp [World.empty] at h
      unique := fun t e e' h => by simp [World.empty] at h
      watched := fun e x hx => by simp [World.empty, watchers] at hx
      unwatched := fun t e h => by simp at h }

theorem housed_empty : World.empty.Housed :=
  ⟨fun _ hx => absurd hx List.not_mem_nil, List.nodup_nil⟩

/-- A world and what is due in it at some point of some run. -/
def Point (w : World) (D : Duties) : Prop :=
  Course .idle (empty, 0) (w, D)

theorem point_empty : empty.Point 0 :=
  .refl

namespace Point

theorem sane (h : w.Point D) : w.Sane D :=
  Course.sane h sane_empty

theorem housed (h : w.Point D) : w.Housed :=
  Course.housed h housed_empty

theorem formed (h : w.Point D) : w.Formed := h.sane.formed

/-- A set is locked when code under way is due to leave it. -/
theorem mem_entered (h : w.Point D) {s : SetId} : s ∈ w.entered ↔ .leave s ∈ D := by
  have hc := Course.locks h (fun _ => rfl) s
  rw [← List.count_pos_iff, ← Multiset.count_pos, hc]

/-- Where nothing is due no set is locked. -/
theorem unlocked (h : w.Point 0) : w.entered = [] :=
  List.eq_nil_iff_forall_not_mem.mpr fun _ hs => Multiset.notMem_zero _ (h.mem_entered.mp hs)

theorem counted (h : w.Point D) : w.Counted D := h.sane.counted

theorem recorded (h : w.Point D) : w.Recorded D := h.sane.recorded

end Point

end World

/-- Where a run gets to from a point of a run is a point of a run. -/
theorem Course.point (h : Course L (w, D) (w', D')) (hw : w.Point D) : w'.Point D' :=
  Relation.ReflTransGen.trans hw (h.mono L.idle_le)

end WeakSet
