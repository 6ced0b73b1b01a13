import WeakSet.Proofs.Steady

/-!
# Elements and sets come, and elements go

In a quiet world an element or a set may come, and a reference may be let go of. With the last
reference to an element its entries go from the dictionaries of all sets, and nothing else does
(`Quiet.dict_release`), although its handles stay until they are swept.
-/

namespace WeakSet

open Act Duties World

variable {L : Scene} {run : Runner} {w w' : World} {D : Duties} {e : ElementId} {s : SetId}
  {c : ChannelId}

/-! ## Letting go -/

variable (run) in
/-- An element without scripts ends in silence. -/
theorem exec_release (hw : w.Scriptless) (e : ElementId) :
    (Act.release run e).exec w = (.ok (), (w.release e).2) := by
  have hn : (w.release e).1 = none := by
    unfold World.release
    rcases hc : w.cells[e]? with _ | c
    · rfl
    · have hd : c.element.onDrop = none := (hw e c.element (by rw [World.element?, hc]; rfl)).1
      simp only [hd]
      split <;> rfl
  rw [Act.release, exec_bind_ok (exec_update _ w), hn]
  rfl

namespace World

theorem kind?_announce (w : World) (x : Watcher) (c : ChannelId) :
    (w.announce x).kind? c = w.kind? c := by
  unfold announce
  split
  · simp only [kind?, note, enqueue, Array.getElem?_modify]
    split
    · rw [Option.map_map]
      rfl
    · rfl
  · rfl

theorem kind?_foldl_announce (xs : List Watcher) (w : World) (c : ChannelId) :
    (xs.foldl announce w).kind? c = w.kind? c := by
  induction xs generalizing w with
  | nil => rfl
  | cons x xs ih => exact (ih (w.announce x)).trans (kind?_announce w x c)

theorem kind?_release (he : 0 < w.strong e) (c : ChannelId) :
    (w.release e).2.kind? c = w.kind? c := by
  obtain ⟨-, x, -, hc⟩ | ⟨-, hc⟩ := channels_release he
  · rw [kind?, hc]
    exact kind?_foldl_announce _ (w.expire e x) c
  · rw [kind?, hc, kind?]

theorem isAlive_release (he : 0 < w.strong e) {e' : ElementId} (ha : (w.release e).2.isAlive e') :
    w.isAlive e' := by
  rw [isAlive_iff, strong_release he] at ha
  rw [isAlive_iff]
  split at ha
  · subst_vars
    exact he
  · exact ha

theorem Tame.release (hw : w.Sane (.hold e ::ₘ D)) : w.Tame (w.release e).2 := by
  have he : 0 < w.strong e :=
    isAlive_iff.mp (hw.counted.isAlive_of_hold (Multiset.mem_cons_self _ _))
  have hr := release_eq w e
  have hl : Later w (w.release e).2 := later_release (isAlive_iff.mpr he)
  have hsets : (w.release e).2.sets = w.sets := by rw [hr]
  refine ⟨.of_sets (by rw [hr]) (by rw [hr]) hsets, ⟨by rw [hr], by rw [hr]⟩, fun e' x hx => ?_,
    by rw [hsets], fun s => by rw [collection_congr hsets], kind?_release he, fun c t ht => ?_,
    fun x hx => ?_⟩
  · rw [element?_release he] at hx
    exact .inl hx
  · refine (mem_pending_release he ht).imp id ?_
    rintro ⟨hd, x, hx, rfl⟩
    have hst := (hw.recorded.watched e x hx).1
    refine ⟨hl.issued _ (hw.recorded.issued _ _ hst).1, fun h hh => ?_⟩
    rw [handle?_congr hsets] at hh
    rwa [hw.recorded.unique _ _ _ (hw.recorded.stored _ _ hh) hst]
  · obtain ⟨l, hj, hall⟩ := journal_release w e
    rw [hj, List.mem_append] at hx
    refine hx.imp id fun hx => ?_
    have := hall x hx
    cases x <;> first | rfl | cases this

/-- Letting go of a reference keeps a world quiet. -/
theorem Quiet.release (hq : w.Quiet) (hw : w.Sane (.hold e ::ₘ D)) : (w.release e).2.Quiet :=
  hq.tame (L := .idle) hw (.single .release) (.release hw)

/-- With the last reference to an element its entries go. -/
theorem Quiet.dict_release (hq : w.Quiet) (hw : w.Sane (.hold e ::ₘ D)) (s : SetId) :
    (w.release e).2.dict s = (w.dict s).filter fun _ e' => (w.release e).2.isAlive e' := by
  have he : 0 < w.strong e :=
    isAlive_iff.mp (hw.counted.isAlive_of_hold (Multiset.mem_cons_self _ _))
  have hh : ∀ t, (w.release e).2.handle? t = w.handle? t := handle?_congr (by rw [release_eq])
  have hq' := hq.release hw
  refine dict_ext hq'.distinct hq'.weak fun v e' t => ?_
  rw [Dict.filter_eq_some, hq.dict_eq_some]
  constructor
  · rintro ⟨ho, ⟨h, hx, rfl⟩, ha, hv⟩
    rw [hh] at hx
    rw [value_congr (element?_release he _)] at hv
    exact ⟨⟨ho, ⟨h, hx, rfl⟩, isAlive_release he ha, hv⟩, ha⟩
  · rintro ⟨⟨ho, ⟨h, hx, rfl⟩, -, hv⟩, ha⟩
    refine ⟨ho, ⟨h, by rw [hh, hx], rfl⟩, ha, ?_⟩
    rw [value_congr (element?_release he _), hv]

/-! ## New elements -/

theorem Tame.create {x : Element} (hx : x.onDrop = none ∧ x.onEqual = none) :
    w.Tame (w.create x).2 := by
  refine ⟨.of_sets rfl rfl rfl, ⟨rfl, rfl⟩, fun e y hy => ?_, rfl, fun _ => rfl, fun _ => rfl,
    fun _ _ ht => .inl ht, fun _ hy => .inl hy⟩
  rw [element?_create] at hy
  split at hy
  · obtain rfl := Option.some.inj hy
    exact .inr hx
  · exact .inl hy

/-- A new element without scripts keeps a world quiet. -/
theorem Quiet.create {x : Element} (hq : w.Quiet) (hw : w.Sane D)
    (hx : x.onDrop = none ∧ x.onEqual = none) : (w.create x).2.Quiet :=
  hq.tame (L := .idle) hw (.single (.create x)) (.create hx)

/-- A new element is in no set. -/
theorem Quiet.dict_create {x : Element} (hq : w.Quiet) (hw : w.Sane D)
    (hx : x.onDrop = none ∧ x.onEqual = none) (s : SetId) : (w.create x).2.dict s = w.dict s := by
  have hq' := hq.create hw hx
  refine dict_ext hq'.distinct hq'.weak fun v e t => ?_
  rw [hq.dict_eq_some]
  have hold : ∀ h, w.handle? t = some h → h.element ≠ w.cells.size := fun h hh =>
    Nat.ne_of_lt (hw.formed.fits t h hh).element
  have hval : ∀ h, w.handle? t = some h → (w.create x).2.value h.element = w.value h.element :=
    fun h hh => value_congr (by rw [element?_create, if_neg (hold h hh)])
  constructor
  · rintro ⟨ho, ⟨h, hh, rfl⟩, ha, hv⟩
    rw [isAlive, strong_create, if_neg (hold h hh)] at ha
    rw [hval h hh] at hv
    exact ⟨ho, ⟨h, hh, rfl⟩, ha, hv⟩
  · rintro ⟨ho, ⟨h, hh, rfl⟩, ha, hv⟩
    refine ⟨ho, ⟨h, hh, rfl⟩, ?_, (hval h hh).trans hv⟩
    rwa [isAlive, strong_create, if_neg (hold h hh)]

/-! ## New channels and sets -/

theorem kind?_newChannel (w : World) (kind : ChannelKind) (c : ChannelId) :
    (w.newChannel kind).2.kind? c = if c = w.channels.size then some kind else w.kind? c := by
  change (((w.channels.push { kind := kind })[c]?).map Channel.kind) = _
  rw [Array.getElem?_push]
  split <;> rfl

/-- No set has a new channel, and nothing waits in it. -/
theorem Quiet.newChannel (hq : w.Quiet) (hw : w.Sane D) (kind : ChannelKind) :
    (w.newChannel kind).2.Quiet where
  scriptless := hq.scriptless
  deaf := hq.deaf
  weakSets := hq.weakSets
  weak := hq.weak
  distinct := hq.distinct
  queue s hs := by
    have hne : (w.newChannel kind).2.channelOf s ≠ w.channels.size :=
      Nat.ne_of_lt (hw.formed.channel s hs)
    rw [kind?_newChannel, if_neg hne]
    exact hq.queue s hs
  own := hq.own
  notices s hs t ht ho := hq.notices s hs t (by rwa [pending_newChannel] at ht) ho
  addressed c t ht := hq.addressed c t (by rwa [pending_newChannel] at ht)
  unlocked := hq.unlocked
  idle := hq.idle
  calm := hq.calm
  named := hq.named
  names := hq.names
  held := hq.held

/-- The sets after one was made. -/
theorem collection_newSet (w : World) (b : Blueprint) (c : ChannelId) (s : SetId) :
    (w.newSet b (some c)).2.collection s =
      if s = w.sets.size then b.toCollection c else w.collection s :=
  collection_push w (b.toCollection c) s

theorem size_sets_newSet (w : World) (b : Blueprint) (c : ChannelId) :
    (w.newSet b (some c)).2.sets.size = w.sets.size + 1 :=
  Array.size_push ..

/-- A set may be made with a queue that no other set has. -/
theorem Quiet.newSet {b : Blueprint} (hq : w.Quiet) (hw : w.Sane D) (hl : b.listener.IsPlain)
    (hk : b.settings.kind = .weak) (hc : w.kind? c = some .queue)
    (hu : ∀ s < w.sets.size, w.channelOf s ≠ c) : (w.newSet b (some c)).2.Quiet := by
  have hset : ∀ s, s < (w.newSet b (some c)).2.sets.size → s = w.sets.size ∨ s < w.sets.size :=
    fun s hs => by
      rw [size_sets_newSet] at hs
      omega
  have hold : ∀ s, s < w.sets.size → (w.newSet b (some c)).2.collection s = w.collection s :=
    fun s hs => by rw [collection_newSet, if_neg (Nat.ne_of_lt hs)]
  have hnew : (w.newSet b (some c)).2.collection w.sets.size = b.toCollection c := by
    rw [collection_newSet, if_pos rfl]
  have hch : ∀ s, s < w.sets.size → (w.newSet b (some c)).2.channelOf s = w.channelOf s :=
    fun s hs => congrArg Collection.channel (hold s hs)
  have hchnew : (w.newSet b (some c)).2.channelOf w.sets.size = c :=
    congrArg Collection.channel hnew
  have hd : (w.newSet b (some c)).2.Distinct :=
    hq.distinct.of_handles hw (later_newSet w b (some c)) fun t h hh => by
      rwa [handle?_newSet] at hh
  exact
    { scriptless := hq.scriptless
      deaf s := by
        rw [collection_newSet]
        split
        · exact hl
        · exact hq.deaf s
      weakSets s hs := by
        rcases hset s hs with rfl | hs
        · rw [hnew]
          exact hk
        · rw [hold s hs]
          exact hq.weakSets s hs
      weak t h hh := hq.weak t h (by rwa [handle?_newSet] at hh)
      distinct := hd
      queue s hs := by
        rcases hset s hs with rfl | hs
        · rw [hchnew]
          exact hc
        · rw [hch s hs]
          exact hq.queue s hs
      own s hs s' hs' hss := by
        rcases hset s hs with rfl | hs <;> rcases hset s' hs' with rfl | hs'
        · rfl
        · rw [hchnew, hch s' hs'] at hss
          exact absurd hss.symm (hu s' hs')
        · rw [hchnew, hch s hs] at hss
          exact absurd hss (hu s hs)
        · rw [hch s hs, hch s' hs'] at hss
          exact hq.own s hs s' hs' hss
      notices s hs t ht ho := by
        rw [pending_newSet] at ht
        rcases hset s hs with rfl | hs
        · exact absurd (hq.addressed _ t ht) (ho ▸ Nat.lt_irrefl _)
        · rw [hch s hs] at ht
          obtain ⟨hi, hd⟩ := hq.notices s hs t ht ho
          refine ⟨(later_newSet w b (some c)).issued t hi, fun h hh => ?_⟩
          rw [handle?_newSet] at hh
          exact hd h hh
      addressed c' t ht := by
        rw [size_sets_newSet]
        exact Nat.lt_succ_of_lt (hq.addressed c' t ht)
      unlocked := hq.unlocked
      idle := hq.idle
      calm := hq.calm
      named x hx := by
        rw [isLive, hold _ (lt_size_of_isLive (hq.named x hx))]
        exact hq.named x hx
      names := hq.names
      held := hq.held }

/-! ## Steady worlds -/

/-- Moves keep a world steady if it stays quiet and no ticket is in hand after them. -/
theorem Steady.moves {D' : Duties} (h : w.Steady D) (hc : Course L (w, D) (w', D'))
    (hq : w'.Quiet) (hd : ∀ t, .deal t ∉ D') : w'.Steady D' :=
  ⟨hq, hc.point h.point, hc.covered h.sane h.covered, hd⟩

theorem Steady.release (h : w.Steady (.hold e ::ₘ D)) : (w.release e).2.Steady D :=
  h.moves (.single (.release (L := .idle))) (h.quiet.release h.sane)
    fun t ht => h.dealt t (Multiset.mem_cons_of_mem ht)

theorem Steady.create {x : Element} (h : w.Steady D) (hx : x.onDrop = none ∧ x.onEqual = none) :
    (w.create x).2.Steady (.hold w.cells.size ::ₘ D) :=
  h.moves (.single (.create (L := .idle) x)) (h.quiet.create h.sane hx) fun t ht =>
    h.dealt t (by simpa using ht)

theorem Steady.newChannel (h : w.Steady D) (kind : ChannelKind) :
    (w.newChannel kind).2.Steady D :=
  h.moves (.single (.newChannel (L := .idle) kind)) (h.quiet.newChannel h.sane kind) h.dealt

theorem Steady.newSet {b : Blueprint} (h : w.Steady D) (hl : b.listener.IsPlain)
    (hk : b.settings.kind = .weak) (hc : w.kind? c = some .queue)
    (hu : ∀ s < w.sets.size, w.channelOf s ≠ c) : (w.newSet b (some c)).2.Steady D := by
  have hlt : ∀ c' ∈ some c, c' < w.channels.size := by
    rintro _ ⟨⟩
    refine Nat.lt_of_not_le fun hle => ?_
    rw [kind?, Array.getElem?_eq_none hle] at hc
    cases hc
  exact h.moves (.single (.newSet (L := .idle) b hlt)) (h.quiet.newSet h.sane hl hk hc hu) h.dealt

/-- A set comes with a queue of its own if none is given. -/
theorem Steady.newSet_none {b : Blueprint} (h : w.Steady D) (hl : b.listener.IsPlain)
    (hk : b.settings.kind = .weak) : (w.newSet b none).2.Steady D := by
  refine (h.newChannel .queue).newSet hl hk (c := w.channels.size) ?_ fun s hs => ?_
  · rw [kind?_newChannel, if_pos rfl]
  · exact Nat.ne_of_lt (h.sane.formed.channel s hs)

/-- The empty world is steady. -/
theorem steady_empty : World.empty.Steady 0 where
  quiet :=
    { scriptless := fun e x hx => by cases hx
      deaf := fun s n => by
        rw [collection_empty]
        rfl
      weakSets := fun s hs => absurd hs (Nat.not_lt_zero s)
      weak := fun t h hh => by simp [handle?_empty] at hh
      distinct := distinct_empty
      queue := fun s hs => absurd hs (Nat.not_lt_zero s)
      own := fun s hs => absurd hs (Nat.not_lt_zero s)
      notices := fun s hs => absurd hs (Nat.not_lt_zero s)
      addressed := fun c t ht => by cases ht
      unlocked := rfl
      idle := rfl
      calm := by simp [World.empty]
      named := by simp [World.empty]
      names := by simp [World.empty]
      held := by simp [World.empty] }
  point := point_empty
  covered := World.covered_empty
  dealt := by simp

end World

end WeakSet
