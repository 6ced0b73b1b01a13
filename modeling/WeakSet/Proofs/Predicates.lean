import WeakSet.Proofs.Filtering
import WeakSet.Proofs.Verdicts

/-!
# Filtering with any predicate

What a filter asks is code of the client's: it may insert, remove, clear, sweep and walk in the set that is
filtered, let go of elements, and panic. All that a filter relies on is that the code leads from one point
of a run to another and gives back its locks (`IsPredicate`).

A filter asks in turn about the elements of the handles that are there with a living element when it comes
to a shard (`Asked`). What it takes out are the handles that the predicate does not keep, as far as they are
still there when it has been asked about all of them (`FiltersShard`), and nothing else (`World.Loses`). A
panic of the predicate ends it, and the shards that were done stay as they are (`Filters`).
-/

namespace WeakSet

open Act Duties

/-- Code of the client's that answers questions about elements. -/
structure IsPredicate (keep : ElementId → Act Bool) : Prop where
  balanced : ∀ e w D, Balanced .idle (keep e) w D
  entered : ∀ e w, ((keep e).exec w).2.entered = w.entered

/-- How a predicate is asked about elements in turn: the world before, the keys and elements, the keys of
those that it does not keep, how it ends, and the world after. The first panic ends it. -/
inductive Asked (keep : ElementId → Act Bool) : World → List (SlotKey × ElementId) → List SlotKey →
    Except Panic Unit → World → Prop where
  | done {w : World} : Asked keep w [] [] (.ok ()) w
  | kept {w v w' : World} {key : SlotKey} {e : ElementId} {ps : List (SlotKey × ElementId)}
      {keys : List SlotKey} {o : Except Panic Unit} (hx : (keep e).exec w = (.ok true, v))
      (h : Asked keep v ps keys o w') : Asked keep w ((key, e) :: ps) keys o w'
  | rejected {w v w' : World} {key : SlotKey} {e : ElementId} {ps : List (SlotKey × ElementId)}
      {keys : List SlotKey} {o : Except Panic Unit} (hx : (keep e).exec w = (.ok false, v))
      (h : Asked keep v ps keys o w') : Asked keep w ((key, e) :: ps) (key :: keys) o w'
  | panic {w v : World} {key : SlotKey} {e : ElementId} {ps : List (SlotKey × ElementId)} {p : Panic}
      (hx : (keep e).exec w = (.error p, v)) : Asked keep w ((key, e) :: ps) [] (.error p) v

namespace World

/-- References are held to the elements of a shard that are alive. -/
def pinned (w : World) (s : SetId) (k : Nat) : World :=
  ((w.pins (w.shard s k).entries).map Prod.snd).foldl acquire w

/-- Handles are taken out of a world and the watchers for them removed, and nothing else happens to
handles or to watchers whose channel somebody has. -/
structure Loses (w : World) (ts : List Ticket) (w' : World) : Prop where
  rest : w' = { w with cells := w'.cells, sets := w'.sets, journal := w'.journal }
  handles : ∀ t, w'.handle? t = if t ∈ ts then none else w.handle? t
  watchers : ∀ e x, w.hasChannel x.channel →
    (w'.watchers e).count x = if x.ticket ∈ ts then 0 else (w.watchers e).count x
  strong : ∀ e, w'.strong e = w.strong e
  journal : w'.journal.toList = w.journal.toList ++ ts.map (.departed · .filtered)

end World

/-- How one shard is filtered: the world before, the tickets of the handles that are taken out, and the
world after. The predicate is asked about every handle that is there with a living element. Those go that it
does not keep and that are still there afterwards. -/
inductive FiltersShard (run : Runner) (s : SetId) (keep : ElementId → Act Bool) (k : Nat) (w : World)
    (ts : List Ticket) (w' : World) : Prop where
  | mk {v u : World} {keys : List SlotKey}
      (hask : Asked keep (w.pinned s k) (w.pins (w.shard s k).entries) keys (.ok ()) v)
      (hout : ∀ t, t ∈ ts ↔ ∃ h, w.handle? t = some h ∧ w.isAlive h.element ∧
        t.owner = s ∧ t.shard = k ∧ t.key ∈ keys ∧ v.handle? t = some h)
      (hlose : v.Loses ts u)
      (hlet : (releaseAll run ((w.pins (w.shard s k).entries).map Prod.snd)).exec u = (.ok (), w'))

/-- How shards are filtered in turn: the world before, the shards, the tickets of the handles that are
taken out, how it ends, and the world after. Where the predicate panics, the references of that shard are let
go of and nothing else is done. -/
inductive Filters (run : Runner) (s : SetId) (keep : ElementId → Act Bool) : World → List Nat →
    List Ticket → Except Panic Unit → World → Prop where
  | done {w : World} : Filters run s keep w [] [] (.ok ()) w
  | shard {w v w' : World} {k : Nat} {ks : List Nat} {ts ts' : List Ticket} {o : Except Panic Unit}
      (hk : FiltersShard run s keep k w ts v) (h : Filters run s keep v ks ts' o w') :
      Filters run s keep w (k :: ks) (ts ++ ts') o w'
  | panic {w v w' : World} {k : Nat} {ks : List Nat} {keys : List SlotKey} {p : Panic}
      (hask : Asked keep (w.pinned s k) (w.pins (w.shard s k).entries) keys (.error p) v)
      (hlet : (releaseAll run ((w.pins (w.shard s k).entries).map Prod.snd)).exec v = (.ok (), w')) :
      Filters run s keep w (k :: ks) [] (.error p) w'

variable {run : Runner} {keep : ElementId → Act Bool} {w v u w' : World} {D : Duties} {s : SetId}
  {k : Nat} {ps : List (SlotKey × ElementId)} {keys : List SlotKey} {o : Except Panic Unit}

/-! ## Asking -/

/-- The keys that are not kept, unless the predicate panics. -/
theorem exists_asked (keep : ElementId → Act Bool) (ps : List (SlotKey × ElementId)) (w : World) :
    ∃ keys o v, Asked keep w ps keys o v ∧ (rejected keep ps).exec w = (o.map fun _ => keys, v) := by
  induction ps generalizing w with
  | nil => exact ⟨[], .ok (), w, .done, rfl⟩
  | cons x ps ih =>
    obtain ⟨key, e⟩ := x
    rw [rejected]
    rcases hx : (keep e).exec w with ⟨p | b, v₁⟩
    · exact ⟨[], .error p, v₁, .panic hx, exec_bind_error hx _⟩
    · obtain ⟨keys, o, v, ha, hv⟩ := ih v₁
      rw [exec_bind_ok hx]
      cases b with
      | true => exact ⟨keys, o, v, .kept hx ha, hv⟩
      | false =>
        refine ⟨key :: keys, o, v, .rejected hx ha, ?_⟩
        simp only [Bool.false_eq_true, ite_false]
        cases o with
        | ok _ => exact exec_bind_ok hv _
        | error p => exact exec_bind_error hv _

theorem IsPredicate.entered_of_exec {e : ElementId} {r : Except Panic Bool} (hk : IsPredicate keep)
    (hx : (keep e).exec w = (r, v)) : v.entered = w.entered := by
  have := hk.entered e w
  rwa [hx] at this

namespace Asked

theorem entered (hk : IsPredicate keep) (h : Asked keep w ps keys o v) : v.entered = w.entered := by
  induction h with
  | done => rfl
  | kept hx _ ih | rejected hx _ ih => exact ih.trans (hk.entered_of_exec hx)
  | panic hx => exact hk.entered_of_exec hx

theorem sublist (h : Asked keep w ps keys o v) : keys.Sublist (ps.map Prod.fst) := by
  induction h with
  | done => exact .slnil
  | kept _ _ ih => exact .cons _ ih
  | rejected _ _ ih => exact .cons_cons _ ih
  | panic _ => exact List.nil_sublist _

end Asked

/-! ## Taking out what is still there -/

theorem World.handle?_takeOut_any (w : World) (t : Ticket) (d : Departure) (t' : Ticket) :
    (w.takeOut t d).2.handle? t' = if t' = t then none else w.handle? t' := by
  rcases hh : w.handle? t with _ | h
  · rw [World.takeOut_none hh]
    split
    · subst_vars
      exact hh
    · rfl
  · exact World.handle?_takeOut hh d t'

theorem World.hasChannel_takeOut (w : World) (t : Ticket) (d : Departure) (c : ChannelId) :
    (w.takeOut t d).2.hasChannel c = w.hasChannel c := by
  rcases w.takeOut_cases t d with ⟨-, e⟩ | ⟨h, -, e⟩ <;> rw [e]
  rw [World.hasChannel, World.hasChannel]
  exact congrArg _ (World.any_modify _ _ fun _ => rfl)

/-- Of some keys of a shard those lose their handles that have one. -/
theorem exec_takeOutAll_stored (keys : List SlotKey) (w : World) (hn : keys.Nodup) :
    ∃ w' : World, (takeOutAll s k keys).exec (w.lock s) =
        (.ok (keys.filter fun key => (w.handle? ⟨s, k, key⟩).isSome), w'.lock s) ∧
      w' = { w with sets := w'.sets, journal := w'.journal } ∧
      (∀ c, w'.hasChannel c = w.hasChannel c) ∧
      (∀ t, w'.handle? t =
        if t.owner = s ∧ t.shard = k ∧ t.key ∈ keys then none else w.handle? t) ∧
      w'.journal.toList = w.journal.toList ++
        (keys.filter fun key => (w.handle? ⟨s, k, key⟩).isSome).map (.departed ⟨s, k, ·⟩ .filtered) := by
  induction keys generalizing w with
  | nil => exact ⟨w, rfl, rfl, fun _ => rfl, by simp, by simp⟩
  | cons key keys ih =>
    obtain ⟨hkey, hn'⟩ := List.nodup_cons.mp hn
    have hx : (update (·.takeOut ⟨s, k, key⟩ .filtered)).exec (w.lock s) =
        (.ok (w.handle? ⟨s, k, key⟩), (w.takeOut ⟨s, k, key⟩ .filtered).2.lock s) := by
      rw [exec_update, World.takeOut_lock, World.takeOut_fst]
    obtain ⟨w', h', hr, hc, hh', hj⟩ := ih (w.takeOut ⟨s, k, key⟩ .filtered).2 hn'
    have hstored : (keys.filter fun key' =>
        ((w.takeOut ⟨s, k, key⟩ .filtered).2.handle? ⟨s, k, key'⟩).isSome) =
        keys.filter fun key' => (w.handle? ⟨s, k, key'⟩).isSome := by
      refine List.filter_congr fun key' hk' => ?_
      rw [World.handle?_takeOut_any, if_neg]
      rintro ⟨⟩
      exact hkey hk'
    have hchannels (c : ChannelId) : w'.hasChannel c = w.hasChannel c :=
      (hc c).trans (w.hasChannel_takeOut _ _ c)
    have hhandles : ∀ t, w'.handle? t =
        if t.owner = s ∧ t.shard = k ∧ t.key ∈ key :: keys then none else w.handle? t := by
      rintro ⟨s', k', key'⟩
      rw [hh', World.handle?_takeOut_any]
      by_cases hk : s' = s ∧ k' = k
      · obtain ⟨rfl, rfl⟩ := hk
        by_cases he : key' = key <;> simp [he]
      · simp only [Ticket.mk.injEq, ← and_assoc, hk, false_and, ite_false]
    rw [hstored] at h' hj
    rw [takeOutAll, exec_bind_ok hx]
    rcases hh : w.handle? ⟨s, k, key⟩ with _ | h
    · rw [World.takeOut_none hh] at hr hj
      rw [List.filter_cons_of_neg (by simp [hh])]
      exact ⟨w', h', hr, hchannels, hhandles, hj⟩
    · rw [World.takeOut_snd hh] at hr hj
      rw [List.filter_cons_of_pos (by simp [hh])]
      refine ⟨w', exec_bind_ok h' _, hr.trans rfl, hchannels, hhandles, ?_⟩
      rw [hj]
      simp [World.note, World.setShard]

theorem World.count_watchers_unwatch_of_hasChannel {x : Watcher} (hc : w.hasChannel x.channel)
    (e e' : ElementId) (t : Ticket) :
    ((w.unwatch e t).watchers e').count x =
      if e' = e ∧ w.isAlive e ∧ x.ticket = t then 0 else (w.watchers e').count x := by
  by_cases ht : x.ticket = t
  · rw [World.watchers_unwatch]
    by_cases he : e' = e ∧ w.isAlive e
    · rw [if_pos he, if_pos ⟨he.1, he.2, ht⟩, List.count_eq_zero]
      simp [ht]
    · rw [if_neg he, if_neg fun h => he ⟨h.1, h.2.1⟩]
  · rw [if_neg fun h => ht h.2.2]
    exact World.count_watchers_unwatch ht hc e' e

/-- The pinned elements whose handles were taken out lose the watchers for them. -/
theorem exec_unwatchTaken_watchers (taken : List SlotKey) (ps : List (SlotKey × ElementId)) (w : World) :
    ∃ w' : World, (ps.forM fun (key, e) =>
        if taken.contains key then change (·.unwatch e ⟨s, k, key⟩) else pure ()).exec w =
        (.ok (), w') ∧ w' = { w with cells := w'.cells } ∧ (∀ e, w'.strong e = w.strong e) ∧
      ∀ e x, w.hasChannel x.channel → (w'.watchers e).count x =
        if w.isAlive e ∧ ∃ key ∈ taken, (key, e) ∈ ps ∧ x.ticket = ⟨s, k, key⟩ then 0
        else (w.watchers e).count x := by
  induction ps generalizing w with
  | nil => exact ⟨w, rfl, rfl, fun _ => rfl, by simp⟩
  | cons p ps ih =>
    obtain ⟨key, e₀⟩ := p
    rw [List.forM_eq_forM] at ih ⊢
    rw [List.forM_cons]
    by_cases hk : taken.contains key
    · obtain ⟨w', h', hr, hs, hw⟩ := ih (w.unwatch e₀ ⟨s, k, key⟩)
      simp only [hk, ite_true]
      refine ⟨w', h', by rw [hr, World.unwatch_eq], fun e => (hs e).trans (World.strong_unwatch ..),
        fun e x hx => ?_⟩
      have hx' : (w.unwatch e₀ ⟨s, k, key⟩).hasChannel x.channel := by
        rwa [World.hasChannel_congr (by rw [World.unwatch_eq]) (by rw [World.unwatch_eq])]
      have hmem : key ∈ taken := by simpa using hk
      rw [hw e x hx', World.isAlive_congr (World.strong_unwatch ..),
        World.count_watchers_unwatch_of_hasChannel hx]
      by_cases he : e = e₀ ∧ w.isAlive e₀ ∧ x.ticket = ⟨s, k, key⟩
      · obtain ⟨rfl, ha, ht⟩ := he
        rw [if_pos (show e = e ∧ _ from ⟨rfl, ha, ht⟩), ite_self]
        exact (if_pos ⟨ha, key, hmem, by simp, ht⟩).symm
      · rw [if_neg he]
        refine if_congr (and_congr_right fun ha => exists_congr fun key' => and_congr_right fun _ =>
          and_congr_left fun ht => ?_) rfl rfl
        rw [List.mem_cons, or_iff_right]
        rintro ⟨⟩
        exact he ⟨rfl, ha, ht⟩
    · obtain ⟨w', h', hr, hs, hw⟩ := ih w
      simp only [hk, Bool.false_eq_true, ite_false]
      refine ⟨w', h', hr, hs, fun e x hx => ?_⟩
      rw [hw e x hx]
      refine if_congr (and_congr_right fun _ => exists_congr fun key' => and_congr_right fun hm =>
        and_congr_left fun _ => ?_) rfl rfl
      rw [List.mem_cons, or_iff_right]
      rintro ⟨⟩
      simp [hm] at hk

/-! ## One shard -/

/-- References are taken to the elements of a shard that are alive. -/
theorem course_pinned (hw : w.Sane D) (s : SetId) (k : Nat) :
    Course .idle (w, D) (w.pinned s k, holds ((w.pins (w.shard s k).entries).map Prod.snd) + D) :=
  course_acquire hw fun _ he => World.isAlive_of_mem_pins he

/-- The handles that go were there with a living element, and are the same still. -/
theorem mem_taken_iff {D' : Duties} (hw : w.Sane D) (hc : Course .idle (w, D) (v, D'))
    (hkeys : keys.Sublist ((w.pins (w.shard s k).entries).map Prod.fst)) (t : Ticket) :
    t ∈ (keys.filter fun key => (v.handle? ⟨s, k, key⟩).isSome).map (Ticket.mk s k) ↔
      ∃ h, w.handle? t = some h ∧ w.isAlive h.element ∧
        t.owner = s ∧ t.shard = k ∧ t.key ∈ keys ∧ v.handle? t = some h := by
  rw [List.mem_map]
  constructor
  · rintro ⟨key, hm, rfl⟩
    obtain ⟨hm, hs⟩ := List.mem_filter.mp hm
    obtain ⟨⟨_, e⟩, hp, rfl⟩ := List.mem_map.mp (hkeys.subset hm)
    obtain ⟨h, he, ha, rfl⟩ := World.mem_pins.mp hp
    have hh : w.handle? ⟨s, k, _⟩ = some h := Shard.mem_entries.mp he
    obtain ⟨h', hh'⟩ := Option.isSome_iff_exists.mp hs
    obtain rfl := Option.some.inj (hh.symm.trans (hc.handle?_old hw (World.issued_of_handle? hh) hh'))
    exact ⟨h, hh, ha, rfl, rfl, hm, hh'⟩
  · rintro ⟨h, -, -, rfl, rfl, hk, hh⟩
    exact ⟨t.key, List.mem_filter.mpr ⟨hk, by simp [hh]⟩, rfl⟩

/-- What is not to be kept is taken out and watched no longer. -/
theorem exists_loses {ts : List Ticket} (hv : v.Point (holds (ps.map Prod.snd) + D)) (hn : s ∉ v.entered)
    (hkeys : keys.Nodup) (hps : ∀ t ∈ ts, ∃ h, v.handle? t = some h ∧ (t.key, h.element) ∈ ps)
    (hts : ts = (keys.filter fun key => (v.handle? ⟨s, k, key⟩).isSome).map (Ticket.mk s k)) :
    ∃ u, (dropKeys s k ps keys).exec v = (.ok (!ts.isEmpty), u) ∧ v.Loses ts u := by
  unfold dropKeys
  by_cases he : keys.isEmpty
  · rw [List.isEmpty_iff.mp he] at hts
    subst hts
    exact ⟨v, by rw [if_pos he]; rfl, rfl, by simp, by simp, fun _ => rfl, by simp⟩
  obtain ⟨taken, htaken⟩ : ∃ taken, taken = keys.filter fun key => (v.handle? ⟨s, k, key⟩).isSome :=
    ⟨_, rfl⟩
  obtain ⟨w₁, h₁, hr₁, hc₁, hh₁, hj₁⟩ := exec_takeOutAll_stored (s := s) (k := k) keys v hkeys
  obtain ⟨u, h₂, hr₂, hs₂, hw₂⟩ := exec_unwatchTaken_watchers (s := s) (k := k) taken ps w₁
  rw [← htaken] at h₁ hj₁ hts
  have hcells : w₁.cells = v.cells := by rw [hr₁]
  have hmem (key : SlotKey) : Ticket.mk s k key ∈ ts ↔ key ∈ taken := by
    rw [hts, List.mem_map]
    exact ⟨fun ⟨_, hm, h⟩ => (Ticket.mk.inj h).2.2 ▸ hm, fun hm => ⟨key, hm, rfl⟩⟩
  refine ⟨u, ?_, ⟨by rw [hr₂, hr₁], fun t => ?_, fun e x hx => ?_, fun e => ?_, ?_⟩⟩
  · rw [if_neg he, exec_bind_ok (exec_guarded_lock hn h₁), exec_bind_ok h₂, hts]
    cases taken <;> rfl
  · rw [World.handle?_congr (show u.sets = w₁.sets by rw [hr₂]), hh₁]
    obtain ⟨s', k', key⟩ := t
    by_cases ho : s' = s ∧ k' = k
    · obtain ⟨rfl, rfl⟩ := ho
      rw [if_congr (hmem key) rfl rfl, htaken]
      rcases hh : v.handle? ⟨s', k', key⟩ with _ | h <;> simp [hh]
    · rw [if_neg fun h => ho ⟨h.1, h.2.1⟩, if_neg]
      rw [hts, List.mem_map]
      rintro ⟨_, -, ⟨⟩⟩
      exact ho ⟨rfl, rfl⟩
  · rw [hw₂ e x ((hc₁ x.channel).trans hx), World.isAlive_congr (World.strong_congr hcells e),
      World.watchers_congr hcells]
    by_cases ht : x.ticket ∈ ts
    · rw [if_pos ht]
      refine ite_eq_left_iff.mpr fun hno => List.count_eq_zero.mpr fun hm => hno ?_
      -- the watcher of a handle is with the element of the handle, and that is pinned
      obtain ⟨h, hh, hp⟩ := hps _ ht
      obtain rfl := hv.recorded.unique _ _ _ (hv.recorded.watched e x hm).1 (hv.recorded.stored _ _ hh)
      have ha : v.isAlive h.element := hv.counted.isAlive_of_hold
        (Multiset.mem_add.mpr (.inl (hold_mem_holds.mpr (List.mem_map_of_mem hp))))
      obtain ⟨key, hk, he⟩ := List.mem_map.mp (hts ▸ ht)
      rw [← he] at hp
      exact ⟨ha, key, hk, hp, he.symm⟩
    · rw [if_neg ht, if_neg]
      rintro ⟨-, key, hk, -, he⟩
      exact ht (he ▸ (hmem key).mpr hk)
  · rw [hs₂, World.strong_congr hcells]
  · rw [show u.journal = w₁.journal by rw [hr₂], hj₁, hts, List.map_map]
    rfl

theorem exec_holding_of {α : Type} {es : List ElementId} {a : Act α} {r : Except Panic α}
    (h : a.exec w = (r, u)) (hx : (releaseAll run es).exec u = (.ok (), w')) :
    (holding run es a).exec w = (r, w') := by
  rw [holding, exec_bind_ok (exec_attempt a w), h, exec_bind_ok hx, exec_settle]

/-- Letting go of references gives back all locks, and only adds to the journal. -/
theorem locking_releaseAll (hl : ∀ j, run.Returns j True) {es : List ElementId}
    (hx : (releaseAll run es).exec w = (.ok (), w')) :
    w'.entered = w.entered ∧ w.journal.toList <+: w'.journal.toList := by
  have h := locking_exec (fun j n F => (lends_locking (hl j)).releaseAll (F := F) es) w
  rwa [hx] at h

namespace FiltersShard

variable {ts : List Ticket}

theorem entered (hl : ∀ j, run.Returns j True) (hk : IsPredicate keep)
    (h : FiltersShard run s keep k w ts w') : w'.entered = w.entered := by
  obtain ⟨hask, -, hlose, hlet⟩ := h
  rw [(locking_releaseAll hl hlet).1, hlose.rest]
  exact (hask.entered hk).trans (by rw [World.pinned, World.foldl_acquire_eq])

theorem departed (hl : ∀ j, run.Returns j True) (h : FiltersShard run s keep k w ts w') {t : Ticket}
    (ht : t ∈ ts) : .departed t .filtered ∈ w'.journal.toList := by
  obtain ⟨-, -, hlose, hlet⟩ := h
  have hj := (locking_releaseAll hl hlet).2
  rw [hlose.journal] at hj
  exact hj.subset (List.mem_append_right _ (List.mem_map_of_mem ht))

end FiltersShard

section Shards

variable (hk : IsPredicate keep)

include hk

/-- A shard is filtered, unless the predicate panics. -/
theorem exec_retainShard_asked (hw : w.Point D) (hn : s ∉ w.entered) (k : Nat) :
    (∃ ts v, FiltersShard run s keep k w ts v ∧
      (retainShard run s keep k).exec w = (.ok (!ts.isEmpty), v)) ∨
    ∃ keys p u v, Asked keep (w.pinned s k) (w.pins (w.shard s k).entries) keys (.error p) u ∧
      (releaseAll run ((w.pins (w.shard s k).entries).map Prod.snd)).exec u = (.ok (), v) ∧
      (retainShard run s keep k).exec w = (.error p, v) := by
  obtain ⟨ps, hps⟩ : ∃ ps, ps = w.pins (w.shard s k).entries := ⟨_, rfl⟩
  obtain ⟨keys, o, v, ha, hx⟩ := exists_asked keep ps (w.pinned s k)
  have c₁ := course_pinned hw.sane s k
  have hpin : (guarded s do pinAll (← look (·.shard s k)).entries).exec w =
      (.ok (w.pins (w.shard s k).entries), w.pinned s k) := exec_pinShard hn k
  rw [retainShard_eq, exec_bind_ok hpin, ← hps]
  rw [← hps] at c₁
  cases o with
  | error p =>
    obtain ⟨u, hu⟩ := exec_releaseAll run (ps.map Prod.snd) v
    exact .inr ⟨keys, p, v, u, ha, hu, exec_holding_of (exec_bind_error hx _) hu⟩
  | ok _ =>
    have c₂ : Course .idle (w.pinned s k, holds (ps.map Prod.snd) + D)
        (v, holds (ps.map Prod.snd) + D) :=
      (balanced_rejected ps fun e w' _ => hk.balanced e w' _).ok hx (c₁.point hw) (.idle _)
    have hv : v.Point (holds (ps.map Prod.snd) + D) := c₂.point (c₁.point hw)
    have hkeys : keys.Sublist (ps.map Prod.fst) := ha.sublist
    have hnodup : (ps.map Prod.fst).Nodup := by
      rw [hps, World.pins, List.map_map]
      exact (Shard.nodup_keys_entries _).sublist (List.filter_sublist.map _)
    have hmem := mem_taken_iff (k := k) hw.sane (c₁.trans c₂) (hps ▸ hkeys)
    have hent : s ∉ v.entered := by
      rw [ha.entered hk, World.pinned, World.foldl_acquire_eq]
      exact hn
    obtain ⟨u, hu, hlose⟩ := exists_loses (s := s) (k := k) hv hent (hnodup.sublist hkeys)
      (fun t ht => by
        obtain ⟨h, hh, hal, ho, hs, -, hv⟩ := (hmem t).mp ht
        refine ⟨h, hv, hps ▸ World.mem_pins.mpr ⟨h, Shard.mem_entries.mpr ?_, hal, rfl⟩⟩
        subst ho hs
        exact hh) rfl
    obtain ⟨x, hx'⟩ := exec_releaseAll run (ps.map Prod.snd) u
    refine .inl ⟨_, x, ⟨hps ▸ ha, hmem, hlose, hps ▸ hx'⟩, exec_holding_of ?_ hx'⟩
    exact (exec_bind_ok hx _).trans hu

/-- Shards are filtered in turn, and the result is whether anything went. -/
theorem exec_retainShards_asked (hr : run.Sound) (hl : ∀ j, run.Returns j True) (ks : List Nat)
    (b : Bool) (hw : w.Point D) (hn : s ∉ w.entered) :
    ∃ ts o w', Filters run s keep w ks ts o w' ∧
      (ks.foldlM (fun changed k => return (← retainShard run s keep k) || changed) b).exec w =
        (o.map fun _ => !ts.isEmpty || b, w') ∧
      Course .idle (w, D) (w', D) ∧ ∀ t ∈ ts, .departed t .filtered ∈ w'.journal.toList := by
  induction ks generalizing w b with
  | nil => exact ⟨[], .ok (), w, .done, rfl, .refl, by simp⟩
  | cons k ks ih =>
    have hc : Course .idle (w, D) (((retainShard run s keep k).exec w).2, D) :=
      (balanced_retainShard hr (s := s) k fun e w' D _ => hk.balanced e w' D).course hw (.idle w)
    rw [List.foldlM_cons]
    rcases exec_retainShard_asked hk hw hn k with ⟨ts, v, hf, hx⟩ | ⟨keys, p, u, v, ha, hu, hx⟩ <;>
      rw [hx] at hc
    · obtain ⟨ts', o, w', hf', hx', hc', hd⟩ := ih (!ts.isEmpty || b) (hc.point hw)
        (by rwa [hf.entered hl hk])
      refine ⟨ts ++ ts', o, w', .shard hf hf', ?_, hc.trans hc', fun t ht => ?_⟩
      · have hstep : (do return (← retainShard run s keep k) || b : Act Bool).exec w =
            (.ok (!ts.isEmpty || b), v) := exec_bind_ok hx _
        rw [exec_bind_ok hstep, hx']
        cases ts <;> simp
      · exact (List.mem_append.mp ht).elim
          (fun h => (hc'.later (hc.point hw).sane).mem_journal (hf.departed hl h)) (hd t)
    · exact ⟨[], .error p, v, .panic ha hu, exec_bind_error (exec_bind_error hx _) _, hc, by simp⟩

end Shards

/-! ## Every point of every run -/

namespace IsPredicate

theorem const (b : Bool) : IsPredicate fun _ => pure b where
  balanced _ _ _ := .pure rfl
  entered _ _ := rfl

/-- What a filter asks of a set that lets nobody reach its elements is nothing. -/
theorem of_kind (hk : IsPredicate keep) (kind : Kind) :
    IsPredicate fun e => if kind = .weak then keep e else return false := by
  cases kind with
  | weak => exact hk
  | phantom => exact .const false

end IsPredicate

namespace Session

/-- The predicate of a command is a predicate, whatever its scripts do. -/
theorem isPredicate_predicate (depth : Nat) (s : SetId) (keep : Face → Bool)
    (on : List (String × Script)) : IsPredicate (predicate (runner depth) s keep on) where
  balanced e _ _ := balanced_predicate (sound_runner depth) keep on e
  entered e w := (locking_exec (fun j _ _ =>
    ((total_locking (Runner.obeys (A := .locking j True) World.locking_note
      total_locking depth)).honoured.predicateScript keep (fun _ _ => trivial) e).forget) w).1

/-- A filter with any predicate. At every point of every run, and for a set that is not entered, a filter
whose sweep does not panic goes through the shards as `Filters` says, and the result is whether anything
went. What it took out is gone for good and never reported. What its predicate kept, and all else of the set,
is reported once by a sweep after its element ended, or else taken out before in another way, as long as no
entry to the set was refused and nobody else took tickets out of its channel. -/
theorem filter_takes_out_what_is_rejected (depth : Nat) :
    (∀ cs, (carryOutAll depth .empty cs).Point 0) ∧
    let run := runner depth
    (∀ s keep on, IsPredicate (predicate run s keep on)) ∧
    ∀ (w : World) D s keep, w.Point D → s < w.sets.size → s ∉ w.entered → IsPredicate keep →
      (∀ p w', (sweep run s).exec w = (.error p, w') → (retain run s keep).exec w = (.error p, w')) ∧
      ∀ n w₁, (sweep run s).exec w = (.ok n, w₁) →
        ∃ ts o w₂,
          Filters run s
            (fun e => if (w₁.collection s).settings.kind = .weak then keep e else return false)
            w₁ (List.range (w₁.shardCount s)) ts o w₂ ∧
          (retain run s keep).exec w = (o.map fun _ => !ts.isEmpty, w₂) ∧
          ∀ w₃ D₃, World.Later w₂ w₃ → w₃.Point D₃ →
            (∀ t ∈ ts, w₃.handle? t = none ∧ t ∉ w₃.books.reported) ∧
            ∀ t e, t.owner = s → .stored t e ∈ w₂.journal.toList → ¬ w₂.isAlive e →
              s ∉ w₃.entered → w₃.isLive s → w₃.Undisturbed s → w₃.delivers (w₃.channelOf s) →
              .deal t ∉ D₃ → .report t ∉ D₃ →
                let w₄ := ((sweep run s).exec w₃).2
                w₄.books.removed.count t + w₄.books.reported.count t = 1 := by
  have hr := sound_runner depth
  refine ⟨point_carryOutAll depth, isPredicate_predicate depth,
    fun w D s keep hw hs hn hk => ⟨fun p w' h => (stops_of_sweep h).retain keep, fun n w₁ hsw => ?_⟩⟩
  have c₁ : Course .idle (w, D) (w₁, D) := (balanced_sweep hr hs).ok hsw hw (.idle w)
  have hn₁ : s ∉ w₁.entered := by
    rwa [(c₁.point hw).mem_entered, ← hw.mem_entered]
  obtain ⟨ts, o, w₂, hf, hx, c₂, hd⟩ := exec_retainShards_asked
    (hk.of_kind (w₁.collection s).settings.kind) hr (returns_runner depth)
    (List.range (w₁.shardCount s)) false (c₁.point hw) hn₁
  refine ⟨ts, o, w₂, hf, ?_, fun w₃ D₃ hl hw₃ => ⟨fun t ht => ?_, fun t e ho hst he hn₃
    hlive hu hdel hdeal hrep => ?_⟩⟩
  · have hdis : (discard (sweep (runner depth) s)).exec w = (.ok (), w₁) := by
      rw [exec_discard, hsw]
      rfl
    simp only [Bool.or_false] at hx
    rw [retain, exec_bind_ok hdis, exec_bind_ok (exec_look _ _), shards, exec_bind_ok (exec_look _ _)]
    exact hx
  · exact hw₃.kept.of_removed (World.mem_removed.mpr ⟨.filtered, by decide, hl.mem_journal (hd t ht)⟩)
  · refine accounted_of_sweep hr hw₃ (World.lt_size_of_isLive hlive) hn₃ hlive hu hdel ho
      (World.mem_stored.mpr ⟨e, hl.mem_journal hst⟩) (fun h hh => ?_) hdeal hrep
    obtain rfl := hw₃.recorded.unique _ _ _ (hl.mem_journal hst) (hw₃.recorded.stored t h hh)
    have hw₂ := c₂.point (c₁.point hw)
    rcases hh₂ : w₂.handle? t with _ | h₂
    · rw [hl.gone t (hw₂.recorded.issued t _ hst).1 hh₂] at hh
      cases hh
    · have he₂ := hw₂.recorded.unique _ _ _ hst (hw₂.recorded.stored t h₂ hh₂)
      exact hl.dead_of_not_isAlive (he₂ ▸ (hw₂.formed.fits t h₂ hh₂).element) he

/-- A set with two elements, and a third that is not in it. -/
def trioRun : List Command :=
  [.new "x" (.number 1) none none, .new "y" (.number 2) none none, .new "z" (.number 3) none none,
    .newChannel "c" (.ok .queue),
    .build "s" (.ok ⟨{ capacity := 4, concurrency := 1 }, some "c", .constant 7, .silent⟩),
    .insert "s" "x" none, .insert "s" "y" none]

/-- The predicate keeps the first element and lets go of its last owner. Asked about the second it adds the
third. The second goes and is never reported, the third stays, and the first is reported by the next
sweep. -/
theorem filter_takes_out_what_is_rejected_trio :
    let w := carryOutAll 1 .empty trioRun
    let keep := predicate (runner 1) 0 (fun f => f.tag = "x")
      [("x", [.drop ["x"]]), ("y", [.add "s" "z"])]
    ∃ w₂, (retain (runner 1) 0 keep).exec w = (.ok true, w₂) ∧ w₂.handle? ⟨0, 0, 1, 1⟩ = none ∧
      (w₂.handle? ⟨0, 0, 2, 1⟩).isSome ∧ ¬ w₂.isAlive 0 ∧
      (⟨0, 0, 1, 1⟩ : Ticket) ∉ w₂.books.reported ∧
      ((sweep (runner 1) 0).exec w₂).2.books.reported.count ⟨0, 0, 0, 1⟩ = 1 := by
  intro w keep
  obtain ⟨hpoint, hkeep, h⟩ := filter_takes_out_what_is_rejected 1
  have hw : w.Point 0 := hpoint trioRun
  have hk : IsPredicate keep := hkeep _ _ _
  have hs : 0 < w.sets.size := by decide +kernel
  obtain ⟨ts, o, w₂, hf, hx, hafter⟩ := (h w 0 0 keep hw hs (by decide +kernel) hk).2 0 _
    (Prod.ext (by decide +kernel) rfl)
  have hw₂ : w₂.Point 0 := by
    have c : Course .idle (w, 0) (((retain (runner 1) 0 keep).exec w).2, 0) := by
      have := balanced_retain (sound_runner 1) hs (fun e w' D _ => hk.balanced e w' D) hw (.idle w)
      rwa [due_same] at this
    rw [hx] at c
    exact c.point hw
  have he : w₂ = ((retain (runner 1) 0 keep).exec w).2 := (congrArg Prod.snd hx).symm
  have hu : w₂.Undisturbed 0 := he ▸ ⟨by decide +kernel, by decide +kernel, by decide +kernel⟩
  have hone := (hafter w₂ 0 (.refl _) hw₂).2 ⟨0, 0, 0, 1⟩ 0 rfl (he ▸ by decide +kernel)
    (he ▸ by decide +kernel) (he ▸ by decide +kernel) (he ▸ by decide +kernel) hu
    (he ▸ by decide +kernel) (by simp) (by simp)
  have hnot : ((sweep (runner 1) 0).exec w₂).2.books.removed.count ⟨0, 0, 0, 1⟩ = 0 :=
    he ▸ by decide +kernel
  simp only [hnot, Nat.zero_add] at hone
  have hres : ((retain (runner 1) 0 keep).exec w).1 = .ok true := by decide +kernel
  exact ⟨w₂, Prod.ext hres he.symm, he ▸ by decide +kernel, he ▸ by decide +kernel,
    he ▸ by decide +kernel, he ▸ by decide +kernel, hone⟩

end Session

end WeakSet
