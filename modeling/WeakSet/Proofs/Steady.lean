import WeakSet.Proofs.Unscripted

/-!
# Operations of a set in a quiet world

A world is `Steady` if it is quiet, in order, and keeps track of its handles; code may be under way
that holds references. Every operation of a set comes to a result there, changes nothing but the set
and leaves the world steady (`Does`), and its result and what it makes of the set are known by what
the dictionary of the set was.
-/

namespace WeakSet

open Act Duties World

namespace World

/-- A quiet world in order, in which code under way may hold references. -/
structure Steady (w : World) (D : Duties) : Prop where
  quiet : w.Quiet
  point : w.Point D
  covered : w.Covered D
  dealt : ∀ t, .deal t ∉ D

/-- Every handle of a set is of a living element. -/
def IsFresh (w : World) (s : SetId) : Prop :=
  ∀ t h, t.owner = s → w.handle? t = some h → w.isAlive h.element

variable {L : Scene} {w w' w'' : World} {D D' : Duties} {s : SetId} {es : List ElementId}

theorem Framed.shardCount (hf : Framed s es w w') : w'.shardCount s = w.shardCount s := by
  have := congrArg (fun c => c.shards.size) (hf.mould s)
  simp only [Collection.mould, Array.size_replicate] at this
  exact this

theorem Framed.target (hf : Framed s es w w') (q : Query) : q.target w' = q.target w :=
  target_congr hf.element q

theorem Quiet.undisturbed (h : w.Quiet) (hs : s < w.sets.size) : w.Undisturbed s where
  own s' hs' he := h.own s' hs' s hs he
  undrained hm := by cases h.calm _ hm
  unbarred hm := by cases h.calm _ hm

theorem Steady.sane (h : w.Steady D) : w.Sane D :=
  h.point.sane

theorem Steady.course (h : w.Steady D) (hc : Course L (w, D) (w', D')) (hf : Framed s es w w')
    (hd : ∀ t, .deal t ∉ D') : w'.Steady D' :=
  ⟨h.quiet.framed h.sane hc hf, hc.point h.point, hc.covered h.sane h.covered, hd⟩

/-- A set whose queue is empty has no handle of an element that ended. -/
theorem Steady.isFresh (h : w.Steady D) (hs : s < w.sets.size) (hl : w.isLive s)
    (hp : w.pending (w.channelOf s) = []) : w.IsFresh s := by
  rintro t x rfl hx
  rcases h.covered t x hx hl (h.quiet.undisturbed hs) with ht | ht
  · exact ht.1
  · rcases ht.2 with ht | ht
    · rw [hp] at ht
      cases ht
    · exact absurd ht (h.dealt t)

end World

/-- An operation of set `s` comes to a result, changes no other set and leaves the world steady. -/
structure Does {α : Type} (s : SetId) (a : Act α) (w : World) (D : Duties) (x : α) (w' : World) :
    Prop where
  exec : a.exec w = (.ok x, w')
  steady : w'.Steady D
  framed : Framed s [] w w'
  later : World.Later w w'

variable {α β : Type} {run : Runner} {w w' w'' : World} {D : Duties} {s : SetId} {es : List ElementId}

namespace Does

variable {x : α} {y : β}

theorem of_balanced_in {L : Scene} {a : Act α} (h : w.Steady D) (ho : L.On w)
    (hb : Balanced L a w D) (hx : a.exec w = (.ok x, w')) (hf : Framed s [] w w') :
    Does s a w D x w' :=
  have hc := hb.ok hx h.point ho
  ⟨hx, h.course hc hf h.dealt, hf, hc.later h.sane⟩

theorem of_balanced {a : Act α} (h : w.Steady D) (hb : Balanced .idle a w D)
    (hx : a.exec w = (.ok x, w')) (hf : Framed s [] w w') : Does s a w D x w' :=
  of_balanced_in h (.idle w) hb hx hf

theorem pure (h : w.Steady D) (x : α) : Does s (pure x) w D x w :=
  ⟨rfl, h, .refl s w, .refl w⟩

theorem bind {a : Act α} {f : α → Act β} (ha : Does s a w D x w') (hf : Does s (f x) w' D y w'') :
    Does s (a >>= f) w D y w'' :=
  ⟨(exec_bind_ok ha.exec f).trans hf.exec, hf.steady, ha.framed.trans hf.framed,
    ha.later.trans hf.later⟩

theorem map {a : Act α} (ha : Does s a w D x w') (f : α → β) : Does s (f <$> a) w D (f x) w' :=
  ⟨by rw [exec_map, ha.exec]; rfl, ha.steady, ha.framed, ha.later⟩

theorem size {a : Act α} (ha : Does s a w D x w') (hs : s < w.sets.size) : s < w'.sets.size :=
  ha.framed.sets.symm ▸ hs

/-- What an operation makes of the registry. -/
theorem registry {a : Act α} (ha : Does s a w D x w') (h : w.Steady D) :
    w'.registry = w.registry.update s (w'.dict s) :=
  ha.framed.registry h.quiet ha.steady.quiet rfl

/-- An operation that leaves the dictionary of its set as it is changes nothing. -/
theorem registry_same {a : Act α} (ha : Does s a w D x w') (h : w.Steady D)
    (hd : w'.dict s = w.dict s) : w'.registry = w.registry := by
  rw [ha.registry h, hd]
  exact w.registry.update_dict s

end Does

/-! ## Sweeping -/

theorem does_sweep (hr : run.Sound) (h : w.Steady D) (hs : s < w.sets.size) :
    ∃ n w', Does s (sweep run s) w D n w' ∧ w'.dict s = w.dict s ∧
      (w.isLive s → w'.IsFresh s) := by
  obtain ⟨n, w', hx, hf, ht, hp⟩ := exec_sweep run h.quiet hs
  have hd : Does s (sweep run s) w D n w' := .of_balanced h (balanced_sweep hr hs) hx hf
  refine ⟨n, w', hd, ?_, fun hl => ?_⟩
  · exact ht.dict_same hf h.quiet hd.steady.quiet
  · refine hd.steady.isFresh (hd.size hs) (hf.live s ▸ hl) ?_
    rw [channelOf_eq (hf.mould s)]
    exact hp

/-- An operation that begins with a sweep. -/
theorem does_swept (hr : run.Sound) (h : w.Steady D) (hs : s < w.sets.size) :
    ∃ w', Does s (discard (sweep run s)) w D () w' ∧ w'.dict s = w.dict s ∧
      (w.isLive s → w'.IsFresh s) := by
  obtain ⟨n, w', hd, hm, hc⟩ := does_sweep hr h hs
  exact ⟨w', hd.map fun _ => (), hm, hc⟩

/-! ## Looking -/

theorem does_ticketOf (hr : run.Sound) (h : w.Steady D) (hs : s < w.sets.size) (q : Query) :
    ∃ w', Does s (ticketOf run s q) w D ((w.dict s (q.target w)).map Prod.snd) w' ∧
      w'.dict s = w.dict s := by
  obtain ⟨w₁, h₁, hm, -⟩ := does_swept hr h hs
  have hx := exec_find run (s := s) h₁.steady.sane.formed h₁.steady.quiet q
  rw [h₁.framed.target, hm] at hx
  exact ⟨w₁, h₁.bind ⟨hx, h₁.steady, .refl s w₁, .refl w₁⟩, hm⟩

theorem does_contains (hr : run.Sound) (h : w.Steady D) (hs : s < w.sets.size) (q : Query) :
    ∃ w', Does s (contains run s q) w D (w.dict s (q.target w)).isSome w' ∧
      w'.dict s = w.dict s := by
  obtain ⟨w', hd, hm⟩ := does_ticketOf hr h hs q
  have := hd.map Option.isSome
  rw [Option.isSome_map] at this
  exact ⟨w', this, hm⟩

theorem does_allOf (hr : run.Sound) (h : w.Steady D) (hs : s < w.sets.size) (qs : List Query) :
    ∃ w', Does s (allOf (contains run s) qs) w D
        (qs.all fun q => (w.dict s (q.target w)).isSome) w' ∧ w'.dict s = w.dict s := by
  induction qs generalizing w with
  | nil => exact ⟨w, .pure h true, rfl⟩
  | cons q qs ih =>
    obtain ⟨w₁, h₁, hm₁⟩ := does_contains hr h hs q
    rw [allOf, List.all_cons]
    rcases hq : (w.dict s (q.target w)).isSome with _ | _ <;> rw [hq] at h₁
    · exact ⟨w₁, h₁.bind (.pure h₁.steady false), hm₁⟩
    · obtain ⟨w₂, h₂, hm₂⟩ := ih h₁.steady (h₁.size hs)
      simp only [h₁.framed.target, hm₁] at h₂
      exact ⟨w₂, h₁.bind h₂, hm₂.trans hm₁⟩

theorem does_containsAll (hr : run.Sound) (h : w.Steady D) (hs : s < w.sets.size)
    (qs : List Query) :
    ∃ b w', Does s (containsAll run s qs) w D b w' ∧ w'.dict s = w.dict s ∧
      (b = true ↔ qs ≠ [] ∧ ∀ q ∈ qs, (w.dict s (q.target w)).isSome) := by
  unfold containsAll
  rcases qs with _ | ⟨q, qs⟩
  · exact ⟨false, w, .pure h false, rfl, by simp⟩
  · obtain ⟨w', hd, hm⟩ := does_allOf hr h hs (q :: qs)
    exact ⟨_, w', hd, hm, by simp⟩

/-! ## Putting in -/

theorem World.SameButCounts.handle? (h : w.SameButCounts w') (t : Ticket) :
    w'.handle? t = w.handle? t :=
  handle?_congr (by rw [h.rest]) t

/-- What a section held is let go of. -/
theorem exec_close (run : Runner) {es : List ElementId} (hf : Framed s es w w') (x : α) :
    ∃ w'', (Section.close run ⟨es, .ok x⟩).exec w' = (.ok x, w'') ∧ Framed s [] w w'' ∧
      w'.SameButCounts w'' := by
  obtain ⟨w'', hx, hf', hs⟩ := hf.giveBack run
  exact ⟨w'', exec_bind_ok hx _, hf', hs⟩

/-- What an act held is let go of. -/
theorem exec_holding (run : Runner) {es : List ElementId} {a : Act α} {x : α} {w₀ : World}
    (hx : a.exec w = (.ok x, w')) (hf : Framed s es w₀ w') :
    ∃ w'', (holding run es a).exec w = (.ok x, w'') ∧ Framed s [] w₀ w'' ∧
      w'.SameButCounts w'' := by
  obtain ⟨w'', hr, hf', hs⟩ := hf.giveBack run
  refine ⟨w'', ?_, hf', hs⟩
  rw [holding, exec_bind_ok (exec_attempt a w), hx, exec_bind_ok hr, exec_settle]

/-- A set has one more handle, of an element whose value it did not have. -/
theorem World.Framed.dict_insert {t : Ticket} {x : Handle} (hf : Framed s es w w') (hq : w.Quiet)
    (hq' : w'.Quiet) (hh : ∀ t', w'.handle? t' = if t' = t then some x else w.handle? t')
    (ho : t.owner = s) (ha : w.isAlive x.element) (hn : w.handle? t = none)
    (hv : w.dict s (w.value x.element) = none) :
    w'.dict s = (w.dict s).insert (w.value x.element) (x.element, t) := by
  refine dict_ext hq'.distinct hq'.weak fun v e t' => ?_
  rw [Dict.insert_eq_some, hq.dict_eq_some]
  constructor
  · rintro ⟨ho', ⟨y, hy, rfl⟩, ha', rfl⟩
    rw [hf.isAlive] at ha'
    rw [hf.value]
    rw [hh] at hy
    split at hy
    · subst_vars
      obtain rfl := Option.some.inj hy
      exact .inl ⟨rfl, rfl⟩
    · have hhas : w.Has s (w.value y.element) y.element t' := ⟨ho', ⟨y, hy, rfl⟩, ha', rfl⟩
      refine .inr ⟨fun he => ?_, hhas⟩
      rw [he] at hhas
      cases hv.symm.trans (hq.dict_eq_some.mpr hhas)
  · rintro (⟨rfl, he⟩ | ⟨-, ho', ⟨y, hy, rfl⟩, ha', rfl⟩)
    · obtain ⟨rfl, rfl⟩ := Prod.mk.injEq .. ▸ he
      exact ⟨ho, ⟨x, by rw [hh, if_pos rfl], rfl⟩, by rwa [hf.isAlive], hf.value _⟩
    · refine ⟨ho', ⟨y, ?_, rfl⟩, by rwa [hf.isAlive], hf.value _⟩
      rw [hh, if_neg, hy]
      rintro rfl
      cases hn.symm.trans hy

/-- The locked part of an insertion stores a handle, unless the dictionary has the value. -/
theorem exec_insertSection (run : Runner) (e : ElementId) (hf : w.Formed) (hq : w.Quiet)
    (hs : s < w.sets.size) :
    ∃ es t? w', (insertSection run s e).exec w = (.ok ⟨es, .ok t?⟩, w') ∧ Framed s es w w' ∧
      match w.dict s (w.value e) with
      | some _ => t? = none ∧ ∀ t, w'.handle? t = w.handle? t
      | none => ∃ t x, t? = some t ∧ t.owner = s ∧ x.element = e ∧ ¬ w.Issued t ∧
          ∀ t', w'.handle? t' = if t' = t then some x else w.handle? t' := by
  obtain ⟨es, w₁, hf₁, hs₁, hx⟩ := exec_probeThen_eq run (s := s) (q := .element e)
    (World.Scriptless.unhooked hq.scriptless) (by simp [hq.unlocked])
  have hv : (Query.element e).target w = w.value e := rfl
  have hfound := World.hit_eq hf hq s (w.value e)
  rw [hv] at hx
  rcases hd : w.dict s (w.value e) with _ | y <;> rw [hd] at hfound
  · have hnone : w.hit s (w.value e) = none := by simpa using hfound
    have hsets : w₁.sets = w.sets := by rw [hs₁.rest]
    have hk : w₁.HasShard s (w.shardFor s (w.value e)) := by
      rw [World.HasShard, World.shardCount, World.collection_congr hsets, hsets]
      exact World.hasShard_shardFor hf hs (w.value e)
    rw [hnone] at hx
    obtain ⟨x, hxe⟩ : ∃ x : Handle, x =
      ⟨e, w.hashOf s (w.value e), (w₁.collection s).settings.kind⟩ := ⟨_, rfl⟩
    have hi := World.not_issued_nextTicket (w := w₁) (s := s) (k := w.shardFor s (w.value e)) x
    have hfr := hf₁.trans (.store hk x)
    rw [List.append_nil] at hfr
    rw [World.issued_congr hsets] at hi
    refine ⟨es, _, _, hx (some (w₁.nextTicket s _ x)) (w₁.store s _ x).2 (by rw [hxe]; rfl), hfr,
      w₁.nextTicket s _ x, x, rfl, rfl, by rw [hxe], hi, fun t' => ?_⟩
    rw [World.handle?_store (hf.shards.congr hsets) hk, hs₁.handle?]
  · obtain ⟨key, hkey, -⟩ := Option.map_eq_some_iff.mp (hfound.trans (Option.map_some ..))
    rw [hkey] at hx
    exact ⟨es, none, w₁, hx none w₁ rfl, hf₁, rfl, hs₁.handle?⟩

/-- An element comes into a set, or one of the same value is there. -/
theorem does_insert (hr : run.Sound) {e : ElementId} (h : w.Steady D) {name : Option String}
    (hv : w.Serves (name, s)) (he : .hold e ∈ D) :
    ∃ t? w', Does s (insert run s e) w D t? w' ∧
      (w.dict s).Inserts (w.value e) e t? (w'.dict s) ∧ ∀ t ∈ t?, ¬ w.Issued t := by
  have hs : s < w.sets.size := World.lt_size_of_isLive hv.isLive
  have hon : (Scene.idle.use name s).On w := (Scene.On.idle w).use hv
  have hb : Balanced (Scene.idle.use name s) (insert run s e) w D :=
    balanced_insert hr (Scene.idle.uses_use name s) he
  obtain ⟨w₁, h₁, hm, -⟩ := does_swept hr h hs
  have hq := h₁.steady.quiet
  obtain ⟨es, t?, w₂, h₂, hf₂, ht⟩ := exec_insertSection run e h₁.steady.sane.formed hq (h₁.size hs)
  obtain ⟨w₃, h₃, hf₃, hs₃⟩ := exec_close run hf₂ t?
  rw [h₁.framed.value, hm] at ht
  unfold Dict.Inserts
  rcases hd : w.dict s (w.value e) with _ | x <;> simp only [hd] at ht
  · obtain ⟨t, x, rfl, ho, rfl, hi, hh⟩ := ht
    have hf₄ := hf₃.trans (.note (x := .line (.inserted t)) rfl s w₃)
    have hx : (insert run s x.element).exec w = (.ok (some t), w₃.note (.line (.inserted t))) := by
      rw [insert, exec_bind_ok h₁.exec, exec_bind_ok h₂, exec_bind_ok h₃]
      rfl
    have hdo : Does s (insert run s x.element) w D (some t) (w₃.note (.line (.inserted t))) :=
      .of_balanced_in h hon hb hx (h₁.framed.trans hf₄)
    have hh₄ : ∀ t', (w₃.note (.line (.inserted t))).handle? t' =
        if t' = t then some x else w₁.handle? t' := fun t' => (hs₃.handle? t').trans (hh t')
    have hn : w₁.handle? t = none :=
      Option.eq_none_iff_forall_ne_some.mpr fun y hy => hi (issued_of_handle? hy)
    have hal : w₁.isAlive x.element := by
      rw [h₁.framed.isAlive]
      exact h.sane.counted.isAlive_of_hold he
    refine ⟨_, _, hdo, ⟨t, rfl, ?_⟩, ?_⟩
    · rw [← hm, ← h₁.framed.value]
      refine hf₄.dict_insert hq hdo.steady.quiet hh₄ ho hal hn ?_
      rw [hm, h₁.framed.value, hd]
    · rintro _ ⟨⟩ hi'
      exact hi (h₁.later.issued t hi')
  · obtain ⟨rfl, hh⟩ := ht
    have hx : (insert run s e).exec w = (.ok none, w₃) := by
      rw [insert, exec_bind_ok h₁.exec, exec_bind_ok h₂, exec_bind_ok h₃]
      rfl
    have hdo : Does s (insert run s e) w D none w₃ :=
      .of_balanced_in h hon hb hx (h₁.framed.trans hf₃)
    refine ⟨_, _, hdo, ⟨rfl, ?_⟩, by simp⟩
    have ht : Trims s (fun _ => True) w₁ w₃ := .of_handles fun t => (hs₃.handle? t).trans (hh t)
    exact (ht.dict_same hf₃ hq hdo.steady.quiet).trans hm

/-! ## Taking out -/

/-- An act gives set `s` other entries, and says whether they differ. -/
def Makes (s : SetId) (a : Act Bool) (w : World) (D : Duties) (m : Dict) : Prop :=
  ∃ b w', Does s a w D b w' ∧ w'.dict s = m ∧ (b = true ↔ m ≠ w.dict s)

/-- The locked part of a removal takes out the handle that the dictionary has for the value. -/
theorem exec_removeSection (run : Runner) (q : Query) (hf : w.Formed) (hq : w.Quiet) :
    ∃ es r w', (removeSection run s q).exec w = (.ok ⟨es, .ok r⟩, w') ∧ Framed s es w w' ∧
      match w.dict s (q.target w) with
      | none => r = none ∧ ∀ t, w'.handle? t = w.handle? t
      | some x => ∃ h, r = some (x.2, h) ∧
          ∀ t', w'.handle? t' = if t' = x.2 then none else w.handle? t' := by
  obtain ⟨es, w₁, hf₁, hs₁, hx⟩ := exec_probeThen_eq run (s := s) (q := q)
    (World.Scriptless.unhooked hq.scriptless) (by simp [hq.unlocked])
  have hfound := World.hit_eq hf hq s (q.target w)
  rcases hd : w.dict s (q.target w) with _ | ⟨e, t⟩ <;> rw [hd] at hfound
  · have hnone : w.hit s (q.target w) = none := by simpa using hfound
    rw [hnone] at hx
    exact ⟨es, none, w₁, hx none w₁ rfl, hf₁, rfl, hs₁.handle?⟩
  · obtain ⟨key, hkey, ht⟩ := Option.map_eq_some_iff.mp (hfound.trans (Option.map_some ..))
    obtain ⟨x, hh, -⟩ := (hq.dict_eq_some.mp hd).handle
    have hh₁ : w₁.handle? t = some x := (hs₁.handle? t).trans hh
    have ho : t.owner = s := (hq.dict_eq_some.mp hd).owner
    have htake : (w₁.lock s).takeOut t .removed = (some x, (w₁.takeOut t .removed).2.lock s) := by
      rw [World.takeOut_lock, World.takeOut_fst, hh₁]
    rw [hkey] at hx
    have hfr := hf₁.trans (ho ▸ World.Framed.takeOut w₁ t .removed)
    rw [List.append_nil] at hfr
    refine ⟨es, _, _, hx (some (t, x)) (w₁.takeOut t .removed).2 ?_, hfr, x, rfl, fun t' => ?_⟩
    · simp only [exec_update, ht, htake]
    · rw [World.handle?_takeOut hh₁, hs₁.handle?]

/-- A set has one handle less. -/
theorem World.Framed.dict_takeOut {t : Ticket} {x : Handle} (hf : Framed s es w w') (hq : w.Quiet)
    (hq' : w'.Quiet) (hx : w.handle? t = some x) (ho : t.owner = s)
    (hh : ∀ t', w'.handle? t' = if t' = t then none else w.handle? t') :
    w'.dict s = (w.dict s).filter fun _ e => e ≠ x.element := by
  have ht : Trims s (· ≠ x.element) w w' := by
    refine ⟨fun t' y hy => ?_, fun t' y ho' ha hy => ?_⟩
    · rw [hh] at hy
      split at hy
      · cases hy
      · exact hy
    · rw [hh, hy]
      by_cases he : t' = t
      · subst he
        obtain rfl := Option.some.inj (hy.symm.trans hx)
        simp
      · rw [if_neg he]
        refine iff_of_true rfl fun hxy => he ?_
        have hhas : w.Has s (w.value y.element) y.element t' := ⟨ho', ⟨y, hy, rfl⟩, ha, rfl⟩
        exact (hhas.unique ⟨ho, ⟨x, hx, hxy.symm⟩, ha, rfl⟩ hq.distinct hq.weak).2
  exact ht.dict hf hq hq' fun _ => .rfl

theorem World.handle?_bookRemoval (w : World) (e : ElementId) (t t' : Ticket) :
    ((w.unwatch e t).note (.line (.removed t))).handle? t' = w.handle? t' :=
  handle?_congr (by rw [unwatch_eq]; rfl) t'

theorem World.Framed.bookRemoval (s : SetId) (w : World) (e : ElementId) (t : Ticket) :
    Framed s [] w ((w.unwatch e t).note (.line (.removed t))) :=
  (unwatch s w e t).trans (.note rfl s _)

/-- What equals a query goes. -/
theorem makes_remove (hr : run.Sound) (h : w.Steady D) (hs : s < w.sets.size) (q : Query) :
    Makes s (remove run s q) w D ((w.dict s).filter fun v _ => v ≠ q.target w) := by
  obtain ⟨w₁, h₁, hm, -⟩ := does_swept hr h hs
  have hq := h₁.steady.quiet
  obtain ⟨es, r, w₂, h₂, hf₂, ht⟩ := exec_removeSection (s := s) run q h₁.steady.sane.formed hq
  obtain ⟨w₃, h₃, hf₃, hs₃⟩ := exec_close run hf₂ r
  rw [h₁.framed.target] at ht
  rcases hd : w₁.dict s (q.target w) with _ | ⟨e, t⟩ <;> simp only [hd] at ht
  · obtain ⟨rfl, hh⟩ := ht
    have hx : (remove run s q).exec w = (.ok false, w₃) := by
      rw [remove, exec_bind_ok h₁.exec, exec_bind_ok h₂, exec_bind_ok h₃]
      rfl
    have hdo : Does s (remove run s q) w D false w₃ :=
      .of_balanced h (balanced_remove hr q hs) hx (h₁.framed.trans hf₃)
    have htr : Trims s (fun _ => True) w₁ w₃ := .of_handles fun t => (hs₃.handle? t).trans (hh t)
    have hsame : w₃.dict s = w.dict s := (htr.dict_same hf₃ hq hdo.steady.quiet).trans hm
    have hnot : ((w.dict s).filter fun v _ => v ≠ q.target w) = w.dict s := by
      refine Classical.not_not.mp fun hne => ?_
      rw [← Ne, Dict.filter_value_ne_iff, ← hm, hd] at hne
      cases hne
    exact ⟨false, w₃, hdo, hsame.trans hnot.symm, by simp [hnot]⟩
  · obtain ⟨x, rfl, hh⟩ := ht
    obtain ⟨ho, ⟨y, hy, rfl⟩, ha, hv⟩ := hq.dict_eq_some.mp hd
    have hx : (remove run s q).exec w =
        (.ok true, (w₃.unwatch x.element t).note (.line (.removed t))) := by
      rw [remove, exec_bind_ok h₁.exec, exec_bind_ok h₂, exec_bind_ok h₃]
      rfl
    have hf₄ := hf₃.trans (.bookRemoval s w₃ x.element t)
    have hdo : Does s (remove run s q) w D true _ :=
      .of_balanced h (balanced_remove hr q hs) hx (h₁.framed.trans hf₄)
    have hdict := hf₄.dict_takeOut hq hdo.steady.quiet hy ho fun t' => by
      rw [World.handle?_bookRemoval, hs₃.handle?, hh]
    rw [Dict.filter_congr (q := fun v _ => v ≠ q.target w)] at hdict
    · refine ⟨true, _, hdo, hm ▸ hdict, ?_⟩
      rw [Dict.filter_value_ne_iff, ← hm, hd]
      simp
    · intro v e' t' he'
      refine not_congr ⟨?_, ?_⟩
      · rintro rfl
        exact (hq.dict_eq_some.mp he').value.symm.trans hv
      · rintro rfl
        obtain ⟨rfl, -⟩ := Prod.mk.injEq .. ▸ Option.some.inj (he'.symm.trans hd)
        rfl

end WeakSet
