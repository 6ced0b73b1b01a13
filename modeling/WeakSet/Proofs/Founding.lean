import WeakSet.Proofs.Owners

/-!
# Sets come and go in a steady world

A set that is made has nothing and no name, and then gets one. A set that is dropped loses its name
and its cursors. Its entries nobody can ask for any more.
-/

namespace WeakSet

open Act Duties World

variable {run : Runner} {w : World} {D : Duties} {s : SetId} {name : String} {b : Blueprint}
  {c : ChannelId}

namespace World

/-! ## Making -/

/-- A set that is to be made has no name, and there is nothing in it. -/
theorem Steady.isNewSet (h : w.Steady D) : w.registry.IsNewSet w.sets.size :=
  fun x hx => Nat.ne_of_lt (lt_size_of_isLive (h.quiet.named x hx))

theorem Steady.dict_size (h : w.Steady D) : w.dict w.sets.size = Dict.empty :=
  dict_ext h.quiet.distinct h.quiet.weak fun v e t => by
    refine iff_of_false ?_ (by simp [Dict.empty])
    rintro ⟨ho, ⟨x, hx, -⟩, -⟩
    exact absurd (hasShard_of_handle? hx).1 (ho ▸ Nat.lt_irrefl _)

/-- A set was made, which has nothing and no name. -/
structure Founded (w : World) (D : Duties) (w' : World) : Prop where
  steady : w'.Steady D
  registry : w'.registry = w.registry
  serves : w'.Serves (none, w.sets.size)

theorem Steady.founded (h : w.Steady D) (hl : b.listener.IsPlain) (hk : b.settings.kind = .weak)
    (hc : w.kind? c = some .queue) (hu : ∀ s < w.sets.size, w.channelOf s ≠ c) :
    w.Founded D (w.newSet b (some c)).2 := by
  have hs := h.newSet hl hk hc hu
  have hd : (w.newSet b (some c)).2.dict = w.dict :=
    h.quiet.dict_congr hs.quiet (fun _ => rfl) (fun _ => rfl) (handle?_newSet w b (some c))
  refine ⟨hs, Registry.ext rfl rfl rfl rfl hd, ?_, ?_, fun x hx he => ?_⟩
  · rw [isLive, collection_newSet, if_pos rfl]
    rfl
  · exact List.any_eq_false.mpr fun x hx => by simpa using h.isNewSet x hx
  · obtain ⟨y, hy, he'⟩ := List.any_eq_true.mp (h.quiet.held x hx)
    rw [decide_eq_true_eq] at he'
    exact h.isNewSet y hy (he'.trans he)

theorem Steady.registry_newChannel (h : w.Steady D) (kind : ChannelKind) :
    (w.newChannel kind).2.registry = w.registry := by
  refine Registry.ext rfl rfl rfl rfl ?_
  exact h.quiet.dict_congr (h.newChannel kind).quiet (fun _ => rfl) (fun _ => rfl) fun _ => rfl

theorem Steady.note (h : w.Steady D) {x : Entry} (hp : x.isPlain) (hx : x.isCalm) :
    (w.note x).Steady D :=
  h.course (s := 0) (.single (.note (L := .idle) hp)) (.note hx 0 w) h.dealt

end World

/-- A set is made with a queue that no other set has. -/
theorem exec_construct_on (h : w.Steady D) (hl : b.listener.IsPlain)
    (hk : b.settings.kind = .weak) (hc : w.kind? c = some .queue)
    (hu : ∀ s < w.sets.size, w.channelOf s ≠ c) :
    ∃ w', (construct b (some c)).exec w = (.ok w.sets.size, w') ∧ w.Founded D w' := by
  have hn := h.note (x := .line (.created b.settings.shardCount b.settings.capacity
    b.settings.kind)) rfl rfl
  have hf := hn.founded hl hk hc hu
  exact ⟨_, rfl, hf.steady, hf.registry, hf.serves⟩

/-- A set is made with a new queue. -/
theorem exec_construct (h : w.Steady D) (hl : b.listener.IsPlain) (hk : b.settings.kind = .weak) :
    ∃ w', (construct b none).exec w = (.ok w.sets.size, w') ∧ w.Founded D w' := by
  have hn := h.note (x := .line (.created b.settings.shardCount b.settings.capacity
    b.settings.kind)) rfl rfl
  have hf := (hn.newChannel .queue).founded hl hk (c := w.channels.size)
    (by rw [kind?_newChannel]; exact if_pos rfl)
    fun s hs => Nat.ne_of_lt (h.sane.formed.channel s hs)
  exact ⟨_, rfl, hf.steady, hf.registry.trans (hn.registry_newChannel .queue), hf.serves⟩

namespace World

/-! ## Naming -/

/-- A set that has no name gets one that is free. -/
theorem Steady.nameSet (h : w.Steady D) (hs : w.Serves (none, s))
    (hn : w.setNames.find? name = none) :
    (w.nameSet name s).Steady D ∧
      (w.nameSet name s).registry = { w.registry with sets := w.setNames.put name s } := by
  have he : w.nameSet name s = { w with setNames := w.setNames.put name s } := by
    rw [World.nameSet, hn]
  have hfresh : ∀ x ∈ w.setNames, x.1 ≠ name ∧ x.2 ≠ s := by
    refine fun x hx => ⟨fun hxn => ?_, fun hxs => ?_⟩
    · exact Table.not_mem_of_find? hn (hxn ▸ List.mem_map_of_mem hx)
    · exact absurd (List.any_eq_true.mpr ⟨x, hx, by simpa using hxs⟩)
        (Bool.eq_false_iff.mp hs.2.1)
  rw [he]
  have hput : WellNamed { w with setNames := w.setNames.put name s } .idle :=
    (h.point.wellNamed (.idle w)).put hs (by simp [Scene.Spares, Scene.idle])
      (by simp [Scene.Leaves, Scene.idle])
  refine ⟨h.rename w.walking w.tickets hput (fun x hx => ?_)
    (fun x hx y hy hxy => ?_) fun x hx => ?_, rfl⟩
  · rcases Table.mem_put hx with rfl | hx
    · exact hs.1
    · exact h.quiet.named x hx
  · rcases Table.mem_put hx with rfl | hx <;> rcases Table.mem_put hy with rfl | hy
    · rfl
    · exact absurd hxy (by simp [(hfresh y hy).1.symm, (hfresh y hy).2.symm])
    · exact absurd hxy (by simp [(hfresh x hx).1, (hfresh x hx).2])
    · exact h.quiet.names x hx y hy hxy
  · obtain ⟨y, hy, hyx⟩ := List.any_eq_true.mp (h.quiet.held x hx)
    refine List.any_eq_true.mpr ⟨y, List.mem_cons_of_mem _ (List.mem_filter.mpr ⟨hy, ?_⟩), hyx⟩
    simpa using (hfresh y hy).1

/-! ## Dropping -/

theorem element?_unmake (w : World) (s : SetId) (e : ElementId) :
    (w.unmake s).element? e = w.element? e := by
  rw [← element?_unwatchEach (w.ticketsOf s) w e, unmake_eq]
  rfl

theorem strong_unmake (w : World) (s : SetId) (e : ElementId) :
    (w.unmake s).strong e = w.strong e := by
  rw [← strong_unwatchEach (w.ticketsOf s) w e, unmake_eq]
  rfl

theorem size_sets_unmake (w : World) (s : SetId) : (w.unmake s).sets.size = w.sets.size := by
  rw [unmake_eq]
  exact Array.size_modify

theorem collection_unmake (hs : s < w.sets.size) (s' : SetId) :
    (w.unmake s).collection s' =
      if s' = s then { w.collection s with isLive := false } else w.collection s' := by
  rw [← collection_endSet hs, unmake_eq]
  rfl

/-- What is known of a set is known after it or another was unmade, except that it exists. -/
theorem mould_unmake (hs : s < w.sets.size) (s' : SetId) :
    ((w.unmake s).collection s').mould = (w.collection s').mould := by
  rw [collection_unmake hs]
  split
  · subst_vars
    rfl
  · rfl

theorem Quiet.unmake (hq : w.Quiet) (hw : w.Sane D) (hs : s < w.sets.size)
    (hn : w.isNamed s = false) : (w.unmake s).Quiet := by
  have hm := mould_unmake hs
  have hch : ∀ s', (w.unmake s).channelOf s' = w.channelOf s' := fun s' => channelOf_eq (hm s')
  have hset : ∀ s', ((w.unmake s).collection s').settings = (w.collection s').settings := fun s' =>
    Collection.settings_eq (hm s')
  have hlis : ∀ s', ((w.unmake s).collection s').listener = (w.collection s').listener := fun s' =>
    Collection.listener_eq (hm s')
  have hpend : ∀ c, (w.unmake s).pending c = w.pending c := fun c => by
    rw [unmake_eq]
    rfl
  have hkind : ∀ c, (w.unmake s).kind? c = w.kind? c := fun c => by
    rw [unmake_eq]
    rfl
  have hsize := size_sets_unmake w s
  have hl := later_unmake w s
  have hnames : (w.unmake s).setNames = w.setNames := by rw [unmake_eq]
  exact
    { scriptless e x hx := by
        rw [element?_unmake] at hx
        exact hq.scriptless e x hx
      deaf s' := by
        rw [hlis]
        exact hq.deaf s'
      weakSets s' hs' := by
        rw [hset]
        exact hq.weakSets s' (hsize ▸ hs')
      weak t h hh := by
        rw [handle?_unmake] at hh
        exact hq.weak t h hh
      distinct := hq.distinct.of_handles hw hl fun t h hh => by rwa [handle?_unmake] at hh
      queue s' hs' := by
        rw [hch, hkind]
        exact hq.queue s' (hsize ▸ hs')
      own s₁ h₁ s₂ h₂ he := by
        rw [hch, hch] at he
        exact hq.own s₁ (hsize ▸ h₁) s₂ (hsize ▸ h₂) he
      notices s' hs' t ht ho := by
        rw [hch, hpend] at ht
        obtain ⟨hi, hd⟩ := hq.notices s' (hsize ▸ hs') t ht ho
        refine ⟨hl.issued t hi, fun h hh => ?_⟩
        rw [handle?_unmake] at hh
        rw [isAlive, strong_unmake]
        exact hd h hh
      addressed c t ht := by
        rw [hpend] at ht
        rw [hsize]
        exact hq.addressed c t ht
      unlocked := by
        rw [unmake_eq]
        exact hq.unlocked
      idle := by
        rw [unmake_eq]
        exact hq.idle
      calm := by
        rw [unmake_eq]
        exact hq.calm
      named x hx := by
        rw [hnames] at hx
        refine isLive_unmake (fun he => ?_) (hq.named x hx)
        simpa [he] using List.any_eq_false.mp hn x hx
      names := by
        rw [hnames]
        exact hq.names
      held := by
        rw [unmake_eq]
        exact hq.held }

/-- The world after a set was dropped, its cursors first. -/
def dropped (w : World) (name : String) (s : SetId) : World :=
  let v := World.unmake { w with cursors := w.cursors.filter fun e => e.2.set ≠ s } s
  { v with setNames := v.setNames.erase name }

/-- It makes no difference that a set loses its name after it is unmade. -/
theorem dropped_eq (w : World) (name : String) (s : SetId) :
    w.dropped name s = World.unmake { w with
      setNames := w.setNames.erase name
      cursors := w.cursors.filter fun e => e.2.set ≠ s } s := by
  have hv : (World.unmake { w with cursors := w.cursors.filter fun e => e.2.set ≠ s } s).setNames =
      w.setNames := by rw [unmake_eq]
  rw [dropped, hv, ← unmake_setNames]

theorem Steady.unmake (h : w.Steady D) (hs : s < w.sets.size) (hn : w.isNamed s = false) :
    (w.unmake s).Steady D :=
  h.moves (.single (.unmake (L := .idle) hn (by simp [Scene.Uses, Scene.idle])))
    (h.quiet.unmake h.sane hs hn) h.dealt

/-- A set goes, and its name and its cursors. -/
theorem Steady.dropped (h : w.Steady D) (hn : w.setNames.find? name = some s) :
    (w.dropped name s).Steady D := by
  have hmem := Table.mem_of_find? hn
  have hother : ∀ x ∈ w.setNames.erase name, x ∈ w.setNames ∧ x.2 ≠ s := fun x hx => by
    refine ⟨Table.mem_of_mem_erase hx, fun he => ?_⟩
    have hx' := h.quiet.names x (Table.mem_of_mem_erase hx) _ hmem (.inr he)
    have hne := (List.mem_filter.mp hx).2
    simp [hx'] at hne
  have hnamed := h.sane.formed.named
  have hhoused := h.point.housed
  rw [dropped_eq]
  refine Steady.unmake ?_ (lt_size_of_isLive (h.quiet.named _ hmem)) ?_
  · refine h.rename w.walking w.tickets ⟨⟨fun x hx => hnamed.sets x (hother x hx).1,
      fun x hx => (hnamed.cursors x (List.mem_of_mem_filter hx)).of_sets rfl, hnamed.channels,
      hnamed.tickets⟩,
      ⟨fun x hx => hhoused.live x (hother x hx).1,
        hhoused.once.sublist (List.filter_sublist.map _)⟩, by simp [Scene.idle]⟩
      (fun x hx => h.quiet.named x (hother x hx).1)
      (fun x hx y hy => h.quiet.names x (hother x hx).1 y (hother y hy).1) fun x hx => ?_
    obtain ⟨hx, hxs⟩ := List.mem_filter.mp hx
    obtain ⟨y, hy, hyx⟩ := List.any_eq_true.mp (h.quiet.held x hx)
    refine List.any_eq_true.mpr ⟨y, List.mem_filter.mpr ⟨hy, ?_⟩, hyx⟩
    rw [decide_eq_true_eq] at hyx hxs ⊢
    intro he
    have hy' := h.quiet.names y hy _ hmem (.inl he)
    rw [hy'] at hyx
    exact hxs hyx.symm
  · exact List.any_eq_false.mpr fun x hx => by simpa using (hother x hx).2

theorem Steady.registry_dropped (h : w.Steady D) (hn : w.setNames.find? name = some s) :
    (w.dropped name s).registry = { w.registry with
      sets := w.setNames.erase name
      cursors := w.registry.cursors.filter fun x => x.2.1 ≠ s } := by
  have hx : ∀ e, (w.dropped name s).element? e = w.element? e := fun e => by
    rw [dropped_eq, element?_unmake]
    rfl
  have ha : ∀ e, (w.dropped name s).isAlive e = w.isAlive e := fun e => by
    rw [dropped_eq, isAlive, strong_unmake]
    rfl
  have hh : ∀ t, (w.dropped name s).handle? t = w.handle? t := fun t => by
    rw [dropped_eq, handle?_unmake]
    rfl
  have ho : (w.dropped name s).owners = w.owners := by rw [dropped_eq, unmake_eq]
  have hs : (w.dropped name s).setNames = w.setNames.erase name := by rw [dropped_eq, unmake_eq]
  have hc : (w.dropped name s).cursors.mapValues Cursor.aim =
      w.registry.cursors.filter fun x => x.2.1 ≠ s := by
    have hw : (w.dropped name s).cursors = w.cursors.filter fun x => x.2.set ≠ s := by
      rw [dropped_eq, unmake_eq]
    show _ = (w.cursors.mapValues Cursor.aim).filter fun x => x.2.1 ≠ s
    rw [hw, Table.mapValues, Table.mapValues, List.filter_map]
    rfl
  have hf : (w.dropped name s).face = w.face := funext fun e => face_congr (hx e)
  have hd := h.quiet.dict_congr (h.dropped hn).quiet hx ha hh
  rw [World.registry, ho, hs, hc, hf, hd]
  rfl

end World

end WeakSet
