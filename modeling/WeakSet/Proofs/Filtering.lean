import WeakSet.Proofs.Bulk

/-!
# Filtering in a quiet world

A filter asks about the element of every handle of a shard whose element is alive, and takes out the
handles of those that are not to be kept. If what it asks decides by a property of elements and does
nothing but write to the journal (`Decides`), then the filter keeps of a dictionary the entries that
have the property (`makes_retain`). A clear empties the shards one after the other (`exec_clear`).
-/

namespace WeakSet

open Act Duties World

variable {run : Runner} {w w' : World} {D : Duties} {s : SetId} {k : Nat}

/-- An act answers by a property of elements while set `s` is gone through. -/
def Decides (s : SetId) (keep : ElementId → Act Bool) (p : ElementId → Bool) (w : World) : Prop :=
  ∀ w₁ es e, Framed s es w w₁ →
    ∃ w₂, (keep e).exec w₁ = (.ok (p e), w₂) ∧ Framed s [] w₁ w₂ ∧ w₂.sets = w₁.sets

theorem Decides.framed {keep : ElementId → Act Bool} {p : ElementId → Bool} {es : List ElementId}
    (h : Decides s keep p w) (hf : Framed s es w w') : Decides s keep p w' :=
  fun w₁ es' e hf' => h w₁ (es ++ es') e (hf.trans hf')

/-! ## The steps of a filter -/

/-- The keys and elements of handles whose element is alive. -/
def World.pins (w : World) (xs : List (SlotKey × Handle)) : List (SlotKey × ElementId) :=
  (xs.filter fun x => w.isAlive x.2.element).map fun x => (x.1, x.2.element)

theorem World.mem_pins {xs : List (SlotKey × Handle)} {key : SlotKey} {e : ElementId} :
    (key, e) ∈ w.pins xs ↔ ∃ h, (key, h) ∈ xs ∧ w.isAlive h.element ∧ h.element = e := by
  simp [pins, and_assoc]

theorem World.isAlive_of_mem_pins {xs : List (SlotKey × Handle)} {e : ElementId}
    (he : e ∈ (w.pins xs).map Prod.snd) : w.isAlive e := by
  obtain ⟨⟨key, e'⟩, hx, rfl⟩ := List.mem_map.mp he
  obtain ⟨h, -, ha, rfl⟩ := mem_pins.mp hx
  exact ha

theorem exec_pinAll (xs : List (SlotKey × Handle)) (w : World) :
    (pinAll xs).exec w = (.ok (w.pins xs), ((w.pins xs).map Prod.snd).foldl World.acquire w) := by
  induction xs generalizing w with
  | nil => rfl
  | cons x xs ih =>
    obtain ⟨key, h⟩ := x
    by_cases ha : w.isAlive h.element
    · have hup : (upgrade h.element).exec w = (.ok (some h.element), w.acquire h.element) := by
        rw [upgrade, exec_update, if_pos ha]
      have hpins : (w.acquire h.element).pins xs = w.pins xs := by
        simp only [World.pins, World.isAlive_acquire ha]
      have hcons : w.pins ((key, h) :: xs) = (key, h.element) :: w.pins xs := by
        simp [World.pins, ha]
      have hrest := ih (w.acquire h.element)
      rw [hpins] at hrest
      rw [pinAll, exec_bind_ok hup, hcons]
      exact exec_bind_ok hrest _
    · have hup : (upgrade h.element).exec w = (.ok none, w) := by
        rw [upgrade, exec_update, if_neg ha]
      have hcons : w.pins ((key, h) :: xs) = w.pins xs := by
        simp [World.pins, ha]
      rw [pinAll, exec_bind_ok hup, hcons]
      exact ih w

theorem exec_rejected {keep : ElementId → Act Bool} {p : ElementId → Bool}
    (h : Decides s keep p w) (ps : List (SlotKey × ElementId)) :
    ∃ w', (rejected keep ps).exec w =
        (.ok ((ps.filter fun x => !p x.2).map Prod.fst), w') ∧
      Framed s [] w w' ∧ w'.sets = w.sets := by
  induction ps generalizing w with
  | nil => exact ⟨w, rfl, .refl s w, rfl⟩
  | cons x ps ih =>
    obtain ⟨key, e⟩ := x
    obtain ⟨w₁, h₁, hf₁, hs₁⟩ := h w [] e (.refl s w)
    obtain ⟨w₂, h₂, hf₂, hs₂⟩ := ih (h.framed hf₁)
    refine ⟨w₂, ?_, hf₁.trans hf₂, hs₂.trans hs₁⟩
    rw [rejected, exec_bind_ok h₁]
    rcases hp : p e with _ | _
    · rw [List.filter_cons_of_pos (by simp [hp])]
      exact exec_bind_ok h₂ _
    · rw [List.filter_cons_of_neg (by simp [hp])]
      exact h₂

/-- The handles of some keys of a shard are taken out. -/
theorem exec_takeOutAll (keys : List SlotKey) (w : World)
    (hh : ∀ key ∈ keys, ∃ h, w.handle? ⟨s, k, key⟩ = some h) (hn : keys.Nodup) :
    ∃ w', (takeOutAll s k keys).exec (w.lock s) = (.ok keys, w'.lock s) ∧ Framed s [] w w' ∧
      ∀ t, w'.handle? t =
        if t.owner = s ∧ t.shard = k ∧ t.key ∈ keys then none else w.handle? t := by
  induction keys generalizing w with
  | nil => exact ⟨w, rfl, .refl s w, by simp⟩
  | cons key keys ih =>
    obtain ⟨h, hh₀⟩ := hh key (by simp)
    obtain ⟨hkey, hn'⟩ := List.nodup_cons.mp hn
    have hf₁ := World.Framed.takeOut w ⟨s, k, key⟩ .filtered
    have hh₁ := World.handle?_takeOut hh₀ .filtered
    have htake : (update (·.takeOut ⟨s, k, key⟩ .filtered)).exec (w.lock s) =
        (.ok (some h), (w.takeOut ⟨s, k, key⟩ .filtered).2.lock s) := by
      rw [exec_update, World.takeOut_lock, World.takeOut_fst, hh₀]
    obtain ⟨w₂, h₂, hf₂, hh₂⟩ := ih (w.takeOut ⟨s, k, key⟩ .filtered).2 (fun key' hk' => by
      rw [hh₁, if_neg]
      · exact hh key' (by simp [hk'])
      · simp only [Ticket.mk.injEq, true_and]
        rintro rfl
        exact hkey hk') hn'
    refine ⟨w₂, ?_, hf₁.trans hf₂, fun t => ?_⟩
    · rw [takeOutAll, exec_bind_ok htake]
      exact exec_bind_ok h₂ _
    · obtain ⟨s', k', key'⟩ := t
      rw [hh₂, hh₁]
      simp only [Ticket.mk.injEq, List.mem_cons]
      by_cases ho : s' = s ∧ k' = k
      · obtain ⟨rfl, rfl⟩ := ho
        by_cases he : key' = key <;> simp [he]
      · simp only [← and_assoc, ho, false_and, ite_false]

/-- The elements whose handles were taken out are watched no longer. -/
theorem exec_unwatchTaken (taken : List SlotKey) (ps : List (SlotKey × ElementId)) (w : World) :
    ∃ w', (ps.forM fun (key, e) =>
        if taken.contains key then change (·.unwatch e ⟨s, k, key⟩) else pure ()).exec w =
        (.ok (), w') ∧ Framed s [] w w' ∧ w'.sets = w.sets := by
  induction ps generalizing w with
  | nil => exact ⟨w, rfl, .refl s w, rfl⟩
  | cons x ps ih =>
    rw [List.forM_eq_forM] at ih ⊢
    rw [List.forM_cons]
    by_cases hx : taken.contains x.1
    · obtain ⟨w', h', hf', hs'⟩ := ih (w.unwatch x.2 ⟨s, k, x.1⟩)
      simp only [hx, ite_true]
      exact ⟨w', h', (World.Framed.unwatch s w x.2 ⟨s, k, x.1⟩).trans hf',
        hs'.trans (by rw [World.unwatch_eq])⟩
    · simp only [hx, Bool.false_eq_true, ite_false]
      exact ih w

/-- The keys of a shard whose elements are alive and are not to be kept. -/
def World.doomed (w : World) (s : SetId) (k : Nat) (p : ElementId → Bool) : List SlotKey :=
  ((w.pins (w.shard s k).entries).filter fun x => !p x.2).map Prod.fst

theorem World.mem_doomed {p : ElementId → Bool} {key : SlotKey} :
    key ∈ w.doomed s k p ↔
      ∃ h, w.handle? ⟨s, k, key⟩ = some h ∧ w.isAlive h.element ∧ p h.element = false := by
  simp only [doomed, List.mem_map, List.mem_filter, Prod.exists, mem_pins, Shard.mem_entries,
    exists_and_right, exists_eq_right, Bool.not_eq_true', handle?]
  constructor
  · rintro ⟨e, ⟨h, hh, ha, rfl⟩, hp⟩
    exact ⟨h, hh, ha, hp⟩
  · rintro ⟨h, hh, ha, hp⟩
    exact ⟨_, ⟨h, hh, ha, rfl⟩, hp⟩

theorem World.nodup_doomed (w : World) (s : SetId) (k : Nat) (p : ElementId → Bool) :
    (w.doomed s k p).Nodup := by
  have hp : ((w.pins (w.shard s k).entries).map Prod.fst).Nodup := by
    rw [pins, List.map_map]
    exact (Shard.nodup_keys_entries _).sublist (List.filter_sublist.map _)
  exact hp.sublist (List.filter_sublist.map _)

/-- The elements of a shard that are alive are pinned under the lock. -/
theorem exec_pinShard (hn : s ∉ w.entered) (k : Nat) :
    (guarded s do pinAll (← look (·.shard s k)).entries).exec w =
      (.ok (w.pins (w.shard s k).entries),
        ((w.pins (w.shard s k).entries).map Prod.snd).foldl World.acquire w) := by
  have hx := exec_pinAll (w.shard s k).entries (w.lock s)
  rw [show (w.lock s).pins (w.shard s k).entries = w.pins (w.shard s k).entries from rfl,
    World.foldl_acquire_lock] at hx
  exact exec_guarded_lock hn ((exec_bind_ok (exec_look _ _) _).trans hx)

/-- What a filter of a shard does when it knows which keys go. -/
def dropKeys (s : SetId) (k : Nat) (ps : List (SlotKey × ElementId)) (keys : List SlotKey) :
    Act Bool := do
  if keys.isEmpty then
    return false
  let taken ← guarded s (takeOutAll s k keys)
  ps.forM fun (key, e) =>
    if taken.contains key then change (·.unwatch e ⟨s, k, key⟩) else pure ()
  return !taken.isEmpty

theorem retainShard_eq (run : Runner) (s : SetId) (keep : ElementId → Act Bool) (k : Nat) :
    retainShard run s keep k = (do
      let ps ← guarded s do pinAll (← look (·.shard s k)).entries
      holding run (ps.map Prod.snd) (rejected keep ps >>= dropKeys s k ps)) :=
  rfl

/-- The keys that go lose their handles. -/
theorem exec_dropKeys {keys : List SlotKey} (ps : List (SlotKey × ElementId)) (hn : s ∉ w.entered)
    (hh : ∀ key ∈ keys, ∃ h, w.handle? ⟨s, k, key⟩ = some h) (hnd : keys.Nodup) :
    ∃ w', (dropKeys s k ps keys).exec w = (.ok (!keys.isEmpty), w') ∧ Framed s [] w w' ∧
      ∀ t, w'.handle? t = if t.owner = s ∧ t.shard = k ∧ t.key ∈ keys then none else w.handle? t := by
  unfold dropKeys
  rcases he : keys.isEmpty with _ | _
  · obtain ⟨w₁, h₁, hf₁, hh₁⟩ := exec_takeOutAll keys w hh hnd
    obtain ⟨w₂, h₂, hf₂, hs₂⟩ := exec_unwatchTaken (s := s) (k := k) keys ps w₁
    have htake : (guarded s (takeOutAll s k keys)).exec w = (.ok keys, w₁) := exec_guarded_lock hn h₁
    refine ⟨w₂, ?_, hf₁.trans hf₂, fun t => ?_⟩
    · simp only [Bool.false_eq_true, ite_false]
      rw [exec_bind_ok htake, exec_bind_ok h₂, he]
      rfl
    · rw [World.handle?_congr hs₂, hh₁]
  · refine ⟨w, by simp only [ite_true]; rfl, .refl s w, fun t => ?_⟩
    rw [List.isEmpty_iff.mp he]
    simp

/-- A shard is filtered: the doomed keys lose their handles. -/
theorem exec_retainShard (run : Runner) {keep : ElementId → Act Bool} {p : ElementId → Bool}
    (hn : s ∉ w.entered) (hp : Decides s keep p w) (k : Nat) :
    ∃ w', (retainShard run s keep k).exec w = (.ok (!(w.doomed s k p).isEmpty), w') ∧
      Framed s [] w w' ∧
      ∀ t, w'.handle? t =
        if t.owner = s ∧ t.shard = k ∧ t.key ∈ w.doomed s k p then none else w.handle? t := by
  have hpin := exec_pinShard hn k
  have hdoomed : ((w.pins (w.shard s k).entries).filter fun x => !p x.2).map Prod.fst =
      w.doomed s k p := rfl
  generalize hps : w.pins (w.shard s k).entries = ps at hpin hdoomed
  have hes : ∀ e ∈ ps.map Prod.snd, w.isAlive e := fun e he =>
    World.isAlive_of_mem_pins (hps ▸ he)
  obtain ⟨hs₁, hc₁⟩ := World.foldl_acquire _ (w := w) fun e he =>
    World.lt_size_of_strong (World.isAlive_iff.mp (hes e he))
  have hf₁ : Framed s (ps.map Prod.snd) w _ := .of_counts hs₁ hes hc₁
  -- the predicate decides which keys go, and takes nothing out
  obtain ⟨w₂, h₂, hf₂, hs₂⟩ := exec_rejected (hp.framed hf₁) ps
  rw [hdoomed] at h₂
  have hf₂ := hf₁.trans hf₂
  rw [List.append_nil] at hf₂
  have hh₂ : ∀ t, w₂.handle? t = w.handle? t := fun t =>
    (World.handle?_congr hs₂ t).trans (hs₁.handle? t)
  have hn₂ : s ∉ w₂.entered := by
    rw [hf₂.rest]
    exact hn
  obtain ⟨w₃, h₃, hf₃, hh₃⟩ := exec_dropKeys (k := k) ps hn₂
    (fun key hk => by
      obtain ⟨h, hh, -⟩ := World.mem_doomed.mp hk
      exact ⟨h, (hh₂ _).trans hh⟩) (w.nodup_doomed s k p)
  have hf₃ := hf₂.trans hf₃
  rw [List.append_nil] at hf₃
  obtain ⟨w₄, h₄, hf₄, hs₄⟩ := exec_holding run ((exec_bind_ok h₂ _).trans h₃) hf₃
  refine ⟨w₄, ?_, hf₄, fun t => ?_⟩
  · rw [retainShard_eq, exec_bind_ok hpin]
    exact h₄
  · rw [hs₄.handle?, hh₃, hh₂]

/-! ## Filters -/

theorem World.Framed.shardFor {es : List ElementId} (hf : Framed s es w w') (v : Value) :
    w'.shardFor s v = w.shardFor s v := by
  have hscheme : (w'.collection s).scheme = (w.collection s).scheme :=
    Collection.scheme_eq (hf.mould s)
  rw [World.shardFor, World.shardFor, World.hashOf, World.hashOf, hscheme, hf.shardCount]

/-- A handle is in the shard of the value of its element. -/
theorem World.Formed.shard_eq (hf : w.Formed) {t : Ticket} {h : Handle} (hh : w.handle? t = some h) :
    t.shard = w.shardFor t.owner (w.value h.element) := by
  rw [(hf.fits t h hh).place, (hf.fits t h hh).hash]
  rfl

/-- The entries of one shard are filtered. -/
theorem makes_retainShard (hr : run.Sound) {keep : ElementId → Act Bool} {p : ElementId → Bool}
    (h : w.Steady D) (hp : Decides s keep p w)
    (hb : ∀ e w D, Balanced .idle (keep e) w D) (k : Nat) :
    Makes s (retainShard run s keep k) w D
      ((w.dict s).filter fun v e => w.shardFor s v = k → p e) := by
  obtain ⟨w', hx, hf, hh⟩ := exec_retainShard run (by simp [h.quiet.unlocked]) hp k
  have hd : Does s (retainShard run s keep k) w D _ w' :=
    .of_balanced h (balanced_retainShard hr k fun e w' D _ => hb e w' D) hx hf
  have hmem : ∀ t x, t.owner = s → w.isAlive x.element → w.handle? t = some x →
      (t.shard = k ∧ t.key ∈ w.doomed s k p ↔
        ¬ (w.shardFor s (w.value x.element) = k → p x.element)) := by
    rintro ⟨_, k', key⟩ y rfl ha hy
    rw [← h.sane.formed.shard_eq hy, World.mem_doomed, Classical.not_imp]
    refine and_congr_right ?_
    rintro rfl
    constructor
    · rintro ⟨z, hz, -, hn⟩
      obtain rfl := Option.some.inj (hy.symm.trans hz)
      simp [hn]
    · exact fun hn => ⟨y, hy, ha, by simpa using hn⟩
  have ht : Trims s (fun e => w.shardFor s (w.value e) = k → p e) w w' := by
    refine ⟨fun t x hx => ?_, fun t x ho ha hx => ?_⟩
    · rw [hh] at hx
      split at hx
      · cases hx
      · exact hx
    · rw [hh, hx]
      by_cases hk : t.shard = k ∧ t.key ∈ w.doomed s k p
      · rw [if_pos ⟨ho, hk⟩]
        exact iff_of_false (by simp) ((hmem t x ho ha hx).mp hk)
      · rw [if_neg fun hk' => hk hk'.2]
        exact iff_of_true rfl (Classical.not_not.mp fun hn => hk ((hmem t x ho ha hx).mpr hn))
  refine ⟨_, w', hd, ht.dict hf h.quiet hd.steady.quiet fun _ => .rfl, ?_⟩
  rw [Dict.filter_ne_iff]
  constructor
  · intro hne
    obtain ⟨key, hkey⟩ := List.exists_mem_of_ne_nil _ (by simpa using hne)
    obtain ⟨x, hx, ha, hn⟩ := World.mem_doomed.mp hkey
    refine ⟨_, _, _, h.quiet.dict_eq_some.mpr ⟨rfl, ⟨x, hx, rfl⟩, ha, rfl⟩, ?_⟩
    exact (hmem _ x rfl ha hx).mp ⟨rfl, hkey⟩
  · rintro ⟨v, e, t, hm, hn⟩
    obtain ⟨ho, ⟨x, hx, rfl⟩, ha, rfl⟩ := h.quiet.dict_eq_some.mp hm
    have := List.ne_nil_of_mem ((hmem t x ho ha hx).mpr hn).2
    simpa using this

/-- A filter keeps the entries that have the property. -/
theorem makes_retain (hr : run.Sound) {keep : ElementId → Act Bool} {p : ElementId → Bool}
    (h : w.Steady D) (hs : s < w.sets.size) (hp : Decides s keep p w)
    (hb : ∀ e w D, Balanced .idle (keep e) w D) :
    Makes s (retain run s keep) w D ((w.dict s).filter fun _ e => p e) := by
  obtain ⟨w₁, h₁, hm, -⟩ := does_swept hr h hs
  have hs₁ := h₁.size hs
  have hkind : (w₁.collection s).settings.kind = .weak := h₁.steady.quiet.weakSets s hs₁
  have hP : IsMaking fun ks (m m' : Dict) =>
      m' = m.filter fun v e => w₁.shardFor s v ∈ ks → p e :=
    isMaking_filter (by simp) (by simp [or_imp])
  obtain ⟨m, rfl, b, w₂, h₂, hm₂, hb₂⟩ := makes_anyOf (s := s) (f := retainShard run s keep)
    (List.range (w₁.shardCount s)) hP h₁.steady fun k _ w' h' hf => by
      refine ⟨_, rfl, ?_⟩
      rw [Dict.filter_congr (q := fun v e => w'.shardFor s v = k → p e) (by simp [hf.shardFor])]
      exact makes_retainShard hr h' (hp.framed (h₁.framed.trans hf)) hb k
  have hfilter : ((w₁.dict s).filter fun v e => w₁.shardFor s v ∈ List.range (w₁.shardCount s) →
      p e) = (w.dict s).filter fun _ e => p e := by
    rw [hm]
    refine Dict.filter_congr fun v e t _ => ?_
    have hlt := (World.hasShard_shardFor h₁.steady.sane.formed hs₁ v).2
    simp [hlt]
  rw [hfilter] at hm₂ hb₂
  refine ⟨b, w₂, h₁.bind ⟨?_, h₂.steady, h₂.framed, h₂.later⟩, hm₂, hm ▸ hb₂⟩
  rw [exec_bind_ok (exec_look _ _), shards, exec_bind_ok (exec_look _ _), ← h₂.exec, hkind]
  rfl

/-! ## What filters ask -/

/-- The predicate of a command decides by what elements look like. -/
theorem decides_predicate (run : Runner) (s : SetId) (keep : Face → Bool) (w : World) :
    Decides s (Session.predicate run s keep []) (fun e => keep (w.face e)) w := by
  intro w₁ es e hf
  have hface : w₁.face e = w.face e := face_congr (hf.element e)
  by_cases hu : (w₁.collection s).isUnordered
  · refine ⟨w₁, ?_, .refl s w₁, rfl⟩
    rw [Session.predicate, exec_bind_ok (exec_look _ _), exec_bind_ok (exec_look _ _), hu, hface]
    rfl
  · refine ⟨w₁.note (.considered (w.face e)), ?_, .note (by rfl) s w₁, rfl⟩
    rw [Session.predicate, exec_bind_ok (exec_look _ _), exec_bind_ok (exec_look _ _),
      Bool.eq_false_iff.mpr hu, hface]
    rfl

theorem exec_meetsAny (run : Runner) (hw : w.Unhooked) (e : ElementId) (qs : List Query) :
    (meetsAny run e qs).exec w = (.ok (qs.any fun q => w.value e = q.target w), w) := by
  induction qs with
  | nil => rfl
  | cons q qs ih =>
    rw [meetsAny, exec_bind_ok (exec_matchesQuery hw q e), List.any_cons]
    by_cases hv : w.value e = q.target w
    · simp only [hv, decide_true, ite_true, Bool.true_or]
      rfl
    · simp only [hv, decide_false, Bool.false_eq_true, ite_false, Bool.false_or]
      exact ih

theorem decides_meetsAny (run : Runner) (s : SetId) (hw : w.Unhooked) (qs : List Query) :
    Decides s (meetsAny run · qs) (fun e => qs.any fun q => w.value e = q.target w) w := by
  intro w₁ es e hf
  have hx := exec_meetsAny run (hf.unhooked hw) e qs
  simp only [hf.value, hf.target] at hx
  exact ⟨w₁, hx, .refl s w₁, rfl⟩

theorem makes_retainAll (hr : run.Sound) (h : w.Steady D) (hs : s < w.sets.size) {qs : List Query}
    (hn : qs ≠ []) :
    Makes s (retainAll run s qs) w D
      ((w.dict s).filter fun v _ => v ∈ qs.map fun q => q.target w) := by
  have hm := makes_retain hr h hs
    (decides_meetsAny run s (Scriptless.unhooked h.quiet.scriptless) qs)
    fun e _ _ => balanced_meetsAny hr e qs
  have he : qs.isEmpty = false := by simpa using hn
  rw [retainAll, he]
  rw [Dict.filter_congr (q := fun _ e => (qs.any fun q => w.value e = q.target w) = true)]
  · exact hm
  · intro v e t hd
    rw [(h.quiet.dict_eq_some.mp hd).value]
    simp only [List.mem_map, List.any_eq_true, decide_eq_true_eq, @eq_comm _ v]

/-- For no queries nothing goes. -/
theorem does_retainAll_nil (hr : run.Sound) (h : w.Steady D) (hs : s < w.sets.size) :
    ∃ w', Does s (retainAll run s []) w D false w' ∧ w'.dict s = w.dict s := by
  obtain ⟨w₁, h₁, hm, -⟩ := does_swept hr h hs
  exact ⟨w₁, h₁.bind (.pure h₁.steady false), hm⟩

/-! ## Clearing -/

theorem World.takeAll_lock (w : World) (s : SetId) (k : Nat) :
    (w.lock s).takeAll s k = ((w.takeAll s k).1, (w.takeAll s k).2.lock s) := by
  refine Prod.ext rfl ?_
  change ((w.lock s).takeAll s k).2 = (w.takeAll s k).2.lock s
  rw [takeAll_snd, takeAll_snd]
  rfl

theorem exec_forgetAll (xs : List (Ticket × Handle)) (w : World) :
    (xs.forM fun (t, h) => forget t h).exec w = (.ok (), w.unwatchEach xs) := by
  induction xs generalizing w with
  | nil => rfl
  | cons x xs ih =>
    rw [List.forM_eq_forM] at ih ⊢
    rw [List.forM_cons]
    exact ih (w.unwatch x.2.element x.1)

theorem World.Framed.unwatchEach (s : SetId) (w : World) (xs : List (Ticket × Handle)) :
    Framed s [] w (w.unwatchEach xs) :=
  .of_cells (unwatchEach_eq xs w) (size_cells_unwatchEach xs w)
    (fun e => element?_unwatchEach xs w e) (by simp) fun e => strong_unwatchEach xs w e

namespace World

/-- A shard is emptied, and none of its elements is watched for it any more. -/
def emptied (w : World) (s : SetId) (k : Nat) : World :=
  (w.takeAll s k).2.unwatchEach (w.ticketsIn s k)

theorem sets_emptied (w : World) (s : SetId) (k : Nat) :
    (w.emptied s k).sets = (w.setShard s k (w.shard s k).drain.2).sets := by
  rw [emptied, unwatchEach_eq]
  exact sets_takeAll

theorem journal_emptied (w : World) (s : SetId) (k : Nat) :
    (w.emptied s k).journal.toList =
      w.journal.toList ++ (w.ticketsIn s k).map fun x => .departed x.1 .cleared := by
  rw [emptied, unwatchEach_eq, takeAll_snd, Array.toList_append]

theorem Framed.emptied (hk : w.HasShard s k) : Framed s [] w (w.emptied s k) :=
  (Framed.takeAll hk).trans (.unwatchEach s _ _)

theorem ticketsIn_emptied (hk : w.HasShard s k) {k' : Nat} (h : k' ≠ k) :
    (w.emptied s k).ticketsIn s k' = w.ticketsIn s k' := by
  rw [ticketsIn, ticketsIn, shard, collection_congr (sets_emptied w s k), ← shard, shard_setShard hk,
    if_neg fun hs => h hs.2]

/-- Several shards are emptied. -/
theorem framed_foldl_emptied {ks : List Nat} (hk : ∀ k ∈ ks, w.HasShard s k) :
    Framed s [] w (ks.foldl (·.emptied s ·) w) ∧
      ∀ t, (ks.foldl (·.emptied s ·) w).handle? t =
        if t.owner = s ∧ t.shard ∈ ks then none else w.handle? t := by
  induction ks generalizing w with
  | nil => exact ⟨.refl s w, by simp⟩
  | cons k ks ih =>
    have hf := Framed.emptied (hk k (by simp))
    obtain ⟨hfs, hhs⟩ := ih (w := w.emptied s k) fun k' hm => by
      rw [HasShard, hf.sets, hf.shardCount]
      exact hk k' (by simp [hm])
    refine ⟨hf.trans hfs, fun t => ?_⟩
    rw [List.foldl_cons, hhs, handle?_congr (sets_emptied w s k), handle?_setShard (hk k (by simp)),
      Shard.get?_drain]
    by_cases ho : t.owner = s <;> by_cases he : t.shard = k <;> simp [ho, he]

theorem journal_foldl_emptied {ks : List Nat} (hn : ks.Nodup) (hk : ∀ k ∈ ks, w.HasShard s k) :
    (ks.foldl (·.emptied s ·) w).journal.toList =
      w.journal.toList ++ (ks.flatMap (w.ticketsIn s)).map fun x => .departed x.1 .cleared := by
  induction ks generalizing w with
  | nil => simp
  | cons k ks ih =>
    have hf := Framed.emptied (hk k (by simp))
    have hsame : ks.flatMap ((w.emptied s k).ticketsIn s) = ks.flatMap (w.ticketsIn s) :=
      List.flatMap_congr fun k' hm => ticketsIn_emptied (hk k (by simp)) fun e =>
        (List.nodup_cons.mp hn).1 (e ▸ hm)
    rw [List.foldl_cons, ih (List.nodup_cons.mp hn).2 fun k' hm => ?_, journal_emptied, hsame,
      List.flatMap_cons, List.map_append, List.append_assoc]
    rw [HasShard, hf.sets, hf.shardCount]
    exact hk k' (by simp [hm])

end World

theorem exec_clearShard (hn : s ∉ w.entered) (k : Nat) :
    (clearShard s k).exec w = (.ok (), w.emptied s k) := by
  have htake : (guarded s (update (·.takeAll s k))).exec w =
      (.ok (w.takeAll s k).1, (w.takeAll s k).2) := by
    refine exec_guarded_lock hn ?_
    rw [exec_update, World.takeAll_lock]
  exact (exec_bind_ok htake _).trans (exec_forgetAll _ _)

theorem exec_clearShards (hn : s ∉ w.entered) (ks : List Nat) :
    (ks.forM (clearShard s)).exec w = (.ok (), ks.foldl (·.emptied s ·) w) := by
  induction ks generalizing w with
  | nil => rfl
  | cons k ks ih =>
    have he : (w.emptied s k).entered = w.entered := by
      rw [World.emptied, World.unwatchEach_eq, World.takeAll_snd]
      rfl
    rw [List.forM_eq_forM] at ih ⊢
    rw [List.forM_cons, exec_bind_ok (exec_clearShard hn k), ih (he ▸ hn), List.foldl_cons]

/-- A clear that is let in takes out every handle, and says so in one line. -/
theorem exec_clear (hn : s ∉ w.entered) :
    (clear s).exec w =
      (.ok (), ((List.range (w.shardCount s)).foldl (·.emptied s ·) w).note (.line .cleared)) := by
  rw [clear, shards, exec_bind_ok (exec_look _ _), exec_bind_ok (exec_clearShards hn _)]
  rfl

/-- Nothing is left. -/
theorem does_clear (h : w.Steady D) :
    ∃ w', Does s (clear s) w D () w' ∧ w'.dict s = Dict.empty := by
  have hx := exec_clear (s := s) (w := w) (by simp [h.quiet.unlocked])
  obtain ⟨hf, hh⟩ := World.framed_foldl_emptied (World.hasShard_of_mem_range (w := w) (s := s))
  have hd := Does.of_balanced h balanced_clear hx (hf.trans (.note rfl s _))
  refine ⟨_, hd, dict_ext hd.steady.quiet.distinct hd.steady.quiet.weak fun v e t => ?_⟩
  refine iff_of_false ?_ (by simp [Dict.empty])
  rintro ⟨rfl, ⟨x, hx, -⟩, -⟩
  change World.handle? (List.foldl _ _ _) t = some x at hx
  rw [hh] at hx
  split at hx
  · cases hx
  · rename_i hn
    exact hn ⟨rfl, List.mem_range.mpr (World.hasShard_of_handle? hx).2⟩

end WeakSet
