import WeakSet.Proofs.Iteration
import WeakSet.Proofs.Listing
import WeakSet.Proofs.Mirror
import WeakSet.Proofs.Predicates
import WeakSet.Proofs.Reentry

/-!
# What a cursor returned last

A cursor keeps a key of the shard that it is in, and both it and the set move on. `Cursor.Life` tells
what was done with a cursor, and in which world it returned an element last, if it did and nothing was
removed since. Whatever happened in between, the key is the key of the handle that was returned
(`Life.aimed`): a step keeps the keys of a shard apart and the shards too (`Cursor.Orderly`), and a key
that was given out leads to no other handle. So a removal takes out that handle or nothing
(`removes_last_returned`).
-/

namespace WeakSet

open Act Duties

variable {run : Runner} {w w' : World} {D D' : Duties} {s : SetId} {t : Ticket} {e : ElementId}

/-! ## Cursors in order -/

namespace Cursor

/-- No key and no shard comes twice. -/
structure Orderly (c : Cursor) : Prop where
  keys : (c.current.toList ++ c.pending).Nodup
  shards : c.ahead.Nodup
  apart : c.current.toList ++ c.pending ≠ [] → c.shard ∉ c.ahead

variable {c : Cursor} {key : SlotKey} {keys : List SlotKey} {k : Nat} {ks : List Nat}

namespace Orderly

theorem forget (h : c.Orderly) : { c with current := none }.Orderly where
  keys := (List.nodup_append.mp h.keys).2.1
  shards := h.shards
  apart hne := h.apart fun hn => hne (List.append_eq_nil_iff.mp hn).2

theorem tail (h : c.Orderly) (hp : c.pending = key :: keys) : { c with pending := keys }.Orderly where
  keys := by
    have hk := h.keys
    rw [hp] at hk
    exact hk.sublist ((List.sublist_cons_self key keys).append_left _)
  shards := h.shards
  apart _ := h.apart (by simp [hp])

theorem give (h : c.Orderly) (hp : c.pending = key :: keys) :
    { c with pending := keys, current := some key }.Orderly where
  keys := by
    have hk := (List.nodup_append.mp h.keys).2.1
    rwa [hp] at hk
  shards := h.shards
  apart _ := h.apart (by simp [hp])

theorem list (h : c.Orderly) (ha : c.ahead = k :: ks) (hc : c.current = none) (hk : keys.Nodup) :
    { c with shard := k, ahead := ks, pending := keys }.Orderly := by
  have hs := List.nodup_cons.mp (ha ▸ h.shards)
  exact ⟨by simpa [hc] using hk, hs.2, fun _ => hs.1⟩

theorem passOver (h : c.Orderly) : c.passOver.Orderly := by
  unfold Cursor.passOver
  split
  · rename_i hp
    exact h.forget.tail hp
  · rename_i hp ha
    have := h.forget.list ha rfl List.nodup_nil
    rwa [← hp] at this
  · exact h.forget

end Orderly

theorem nodup_keys (w : World) (s : SetId) (k : Nat) : (w.shard s k).keys.Nodup :=
  Shard.nodup_keys_entries _

/-! ## Where a step comes to -/

/-- The element that a step returned is that of the handle under the key that the cursor keeps. A step
that returned none keeps no key. -/
structure Lands (c : Cursor) (x : Step (Option ElementId)) (w : World) : Prop where
  set : x.cursor.set = c.set
  orderly : x.cursor.Orderly
  empty : (∀ e, x.outcome ≠ .ok (some e)) → x.cursor.current = none
  found : ∀ e, x.outcome = .ok (some e) →
    ∃ key, x.cursor.current = some key ∧ w.Offers ⟨x.cursor.set, x.cursor.shard, key⟩ e

theorem offers_of_visit (hw : w.Point D)
    (hx : (c.visit run key).exec w = (.ok (some e), w')) : w'.Offers ⟨c.set, c.shard, key⟩ e := by
  have hn : c.set ∉ w.entered := fun hm => by
    rw [exec_visit_of_mem hm] at hx
    cases hx
  have hk : (w.collection c.set).settings.kind = .weak := by
    by_contra hk
    cases visit_none hw hk hx
  obtain ⟨h, hh, ha, he, rfl⟩ | ⟨hne, -⟩ := visit_cases hw hn hk hx
  · obtain rfl := Option.some.inj (Except.ok.inj he)
    exact ⟨⟨h, hh, rfl⟩, (World.isAlive_acquire ha _).trans ha⟩
  · exact absurd rfl (hne e)

theorem lands_of_does (hr : run.Sound) {l : Deeds} {x : Step (Option ElementId)}
    (h : Does run c w l x w') (hw : w.Point D) (hs : c.set < w.sets.size) (hc : c.current = none)
    (ho : c.Orderly) : Lands c x w' := by
  induction h with
  | finish => exact ⟨rfl, ho, fun _ => hc, nofun⟩
  | list _ ha _ ih =>
    have h := ih hw hs hc (ho.list ha hc (nodup_keys _ _ _))
    exact ⟨h.set, h.orderly, h.empty, h.found⟩
  | @pass c w w₁ _ key _ _ _ hp hv _ ih =>
    have hv' := (leads_visit hr c hs key).ok (L := .idle) hv hw (.idle w)
    rw [holds_toList_none] at hv'
    have h := ih (hv'.point hw) (hs.trans_le (hv'.later hw.sane).sets) hc (ho.tail hp)
    exact ⟨h.set, h.orderly, h.empty, h.found⟩
  | fail hp => exact ⟨rfl, ho.tail hp, fun _ => hc, nofun⟩
  | give hp hv =>
    refine ⟨rfl, ho.give hp, fun hne => absurd rfl (hne _), fun e he => ⟨_, rfl, ?_⟩⟩
    obtain rfl := Option.some.inj (Except.ok.inj he)
    exact offers_of_visit hw hv

/-- Every step lands, also one that is refused. -/
theorem lands_next (hr : run.Sound) {x : Step (Option ElementId)} (hw : w.Point D)
    (hs : c.set < w.sets.size) (ho : c.Orderly) (hx : (c.next run).exec w = (.ok x, w')) :
    Lands c x w' := by
  by_cases hn : c.set ∈ w.entered
  · rw [exec_next_of_mem hn] at hx
    have hcur : c.passOver.current = none := by unfold passOver; split <;> rfl
    split at hx <;> cases hx <;> exact ⟨set_passOver c, ho.passOver, fun _ => hcur, nofun⟩
  · obtain ⟨y, v, l, hy, hd⟩ := exists_does hr c hw hs hn
    obtain ⟨hxy, rfl⟩ := Prod.mk.injEq .. ▸ hx.symm.trans hy
    obtain rfl := Except.ok.inj hxy
    have h := lands_of_does hr hd hw hs rfl ho.forget
    exact ⟨h.set, h.orderly, h.empty, h.found⟩

/-- A walk to the end leaves a cursor in order. -/
theorem orderly_restHere (c : Cursor) (ho : { c with pending := keys, current := none }.Orderly) :
    Yields (c.restHere run keys) fun x => x.cursor.Orderly := by
  induction keys with
  | nil => exact .pure ho
  | cons key keys ih =>
    have ho' := ho.tail rfl
    refine .seq fun r => ?_
    rcases r with p | _ | e
    · exact .pure ho'
    · exact ih ho'
    · exact .bind (ih ho') fun x hx => .pure hx

theorem orderly_restAhead (c : Cursor) (ho : { c with ahead := ks, current := none }.Orderly) :
    Yields (c.restAhead run ks) fun x => x.cursor.Orderly := by
  induction ks generalizing c with
  | nil => exact orderly_restHere { c with ahead := [] } ho
  | cons k ks ih =>
    refine .bind (orderly_restHere { c with ahead := k :: ks } ho) fun x hx => ?_
    split
    · exact .pure hx
    · have hkeys : Yields (guarded c.set (look fun w => (w.shard c.set k).keys)) List.Nodup := by
        intro w keys w' hx
        obtain ⟨-, v, hv, -⟩ := exec_guarded_eq_ok.mp hx
        cases hv
        exact nodup_keys _ _ _
      refine .attempt hkeys fun r hr => ?_
      rcases r with p | keys
      · exact .pure (ho.list rfl rfl List.nodup_nil)
      · exact .bind (ih _ (ho.list rfl rfl (hr keys rfl))) fun y hy => .pure hy

theorem orderly_rest (ho : c.Orderly) : Yields (c.rest run) fun x => x.cursor.Orderly := by
  refine .bind (orderly_restAhead c ho.forget) fun x hx => ?_
  split
  · exact .pure hx
  · exact .seq fun _ => .pure hx

/-! ## What was done with a cursor -/

/-- What a step returned, and the world in which. -/
def Step.returned (x : Step (Option ElementId)) (w : World) : Option (ElementId × World) :=
  match x.outcome with
  | .ok (some e) => some (e, w)
  | _ => none

/-- The life of a cursor of set `s` up to world `w`, and what its last step returned, if nothing was
removed with the cursor since. Between what is done with the cursor anything may happen. -/
inductive Life (run : Runner) (s : SetId) :
    World → Duties → Cursor → Option (ElementId × World) → Prop
  | start {w w' : World} {D : Duties} {c : Cursor} (hw : w.Point D) (hs : s < w.sets.size)
      (hx : (start run s).exec w = (.ok c, w')) : Life run s w' D c none
  | meanwhile {w w' : World} {D D' : Duties} {c : Cursor} {last : Option (ElementId × World)}
      (h : Life run s w D c last) (hc : Course .idle (w, D) (w', D')) : Life run s w' D' c last
  | next {w w' : World} {D : Duties} {c : Cursor} {last : Option (ElementId × World)}
      {x : Step (Option ElementId)} (h : Life run s w D c last)
      (hx : (c.next run).exec w = (.ok x, w')) :
      Life run s w' (x.due oneHeld + D) x.cursor (x.returned w')
  | removeCurrent {w w' : World} {D : Duties} {c : Cursor} {last : Option (ElementId × World)}
      {x : Step Bool} (h : Life run s w D c last) (hx : c.removeCurrent.exec w = (.ok x, w')) :
      Life run s w' D x.cursor none
  | rest {w w' : World} {D : Duties} {c : Cursor} {last : Option (ElementId × World)}
      {x : Step (List ElementId)} (h : Life run s w D c last)
      (hx : (c.rest run).exec w = (.ok x, w')) : Life run s w' (x.due holds + D) x.cursor none

/-- A cursor keeps the key of the handle that was returned last, and no key if there was none. -/
structure Aimed (s : SetId) (w : World) (D : Duties) (c : Cursor)
    (last : Option (ElementId × World)) : Prop where
  set : c.set = s
  point : w.Point D
  suits : w.Suits c
  orderly : c.Orderly
  empty : last = none → c.current = none
  kept : ∀ e v, last = some (e, v) → ∃ key E, c.current = some key ∧
    v.Offers ⟨s, c.shard, key⟩ e ∧ v.Point E ∧ Course .idle (v, E) (w, D)

theorem Aimed.course {last : Option (ElementId × World)} (h : Aimed s w D c last)
    (hc : Course .idle (w, D) (w', D')) : Aimed s w' D' c last :=
  { h with
    point := hc.point h.point
    suits := h.suits.later (hc.later h.point.sane)
    kept := fun e v hl => by
      obtain ⟨key, E, hkey, ho, hv, hvw⟩ := h.kept e v hl
      exact ⟨key, E, hkey, ho, hv, hvw.trans hc⟩ }

/-- A cursor that keeps no key. -/
theorem Aimed.reset {last : Option (ElementId × World)} (h : Aimed s w D c last) {b : Cursor}
    (hb : b.set = c.set ∧ b.current = none) (ho : b.Orderly) : Aimed s w D b none where
  set := hb.1.trans h.set
  point := h.point
  suits := ⟨hb.1 ▸ h.suits.set, by simp [hb.2]⟩
  orderly := ho
  empty _ := hb.2
  kept := nofun

theorem Life.aimed (hr : run.Sound) {last : Option (ElementId × World)}
    (h : Life run s w D c last) : Aimed s w D c last := by
  induction h with
  | @start w w' D c hw hs hx =>
    have hcourse := (balanced_start hr hs).ok (L := .idle) hx hw (.idle w)
    have hset := yields_start s w c w' hx
    have ho : c.Orderly := by
      obtain ⟨_, w₁, -, hx⟩ := exec_bind_eq_ok.mp hx
      obtain ⟨n, w₂, -, hx⟩ := exec_bind_eq_ok.mp hx
      obtain ⟨rfl, -⟩ := exec_pure_eq_ok.mp hx
      exact ⟨List.nodup_nil, List.nodup_range, fun h => absurd rfl h⟩
    have hsize := hs.trans_le (hcourse.later hw.sane).sets
    exact ⟨hset.1, hcourse.point hw, ⟨hset.1 ▸ hsize, by simp [hset.2]⟩, ho, fun _ => hset.2, nofun⟩
  | meanwhile _ hc ih => exact ih.course hc
  | @next w w' D c _ x _ hx ih =>
    have hcourse := (leads_next hr (E := D) c ih.suits.set).ok (L := .idle) hx ih.point (.idle w)
    have hl := lands_next hr ih.point ih.suits.set ih.orderly hx
    have hsize := ih.suits.set.trans_le (hcourse.later ih.point.sane).sets
    refine ⟨hl.set.trans ih.set, hcourse.point ih.point, ⟨hl.set ▸ hsize, fun hsome => ?_⟩, hl.orderly,
      fun hnone => hl.empty fun e he => ?_, fun e v hlast => ?_⟩
    · -- only a set that shows its elements gives a cursor a key to keep
      by_contra hk
      rw [hl.set, (hcourse.later ih.point.sane).settings ih.suits.set] at hk
      rw [current_next hr ih.point ih.suits.set hk hx] at hsome
      cases hsome
    · simp [Step.returned, he] at hnone
    · unfold Step.returned at hlast
      split at hlast
      · rename_i e' ho
        cases hlast
        obtain ⟨key, hkey, hoffers⟩ := hl.found _ ho
        rw [hl.set, ih.set] at hoffers
        exact ⟨key, _, hkey, hoffers, hcourse.point ih.point, .refl⟩
      · cases hlast
  | @removeCurrent w w' D c _ x _ hx ih =>
    have hcourse := (leads_removeCurrent (L := .idle) (E := D) ih.suits).ok hx ih.point (.idle w)
    rw [Step.due_zero, Multiset.zero_add] at hcourse
    rw [yields_removeCurrent c _ _ _ hx]
    exact (ih.course hcourse).reset ⟨rfl, rfl⟩ ih.orderly.forget
  | @rest w w' D c _ x _ hx ih =>
    have hcourse := (leads_rest hr (E := D) c ih.suits.set).ok (L := .idle) hx ih.point (.idle w)
    exact (ih.course hcourse).reset (yields_rest c _ _ _ hx) (orderly_rest ih.orderly _ _ _ hx)

section Meanwhile

variable {last : Option (ElementId × World)} {depth : Nat}

/-- Meanwhile a client may have commands carried out. -/
theorem Life.carryOutAll (h : Life (Session.runner depth) s w 0 c last) (cs : List Command) :
    Life (Session.runner depth) s (Session.carryOutAll depth w cs) 0 c last :=
  h.meanwhile (Session.course_carryOutAll depth (h.aimed (Session.sound_runner depth)).point cs)

/-- Meanwhile scripts may run. -/
theorem Life.script (h : Life (Session.runner depth) s w D c last) (role : Role) (script : Script) :
    Life (Session.runner depth) s ((Session.runner depth role script).exec w).2 D c last :=
  h.meanwhile (Session.course_script depth (h.aimed (Session.sound_runner depth)).point role script)

/-- Meanwhile the element that was returned is let go of. -/
theorem Life.release (h : Life run s w (.hold e ::ₘ D) c last) :
    Life run s (w.release e).2 D c last :=
  h.meanwhile (.single .release)

end Meanwhile

end Cursor

/-! ## What a removal does -/

namespace World

/-- The handle of ticket `t`, of element `e`, is gone for good, and so is its watcher if the element is
alive. No other handle, watcher or channel is touched. -/
structure Drops (w : World) (D : Duties) (t : Ticket) (e : ElementId) (w' : World) : Prop where
  stored : ∃ h, w.handle? t = some h ∧ h.element = e
  gone : w'.handle? t = none
  handles : ∀ t' ≠ t, w'.handle? t' = w.handle? t'
  channels : w'.channels = w.channels
  strong : ∀ e', w'.strong e' = w.strong e'
  /-- Watchers of sets that are gone may go too, before they are forgotten one by one. -/
  unwatched : w.isAlive e → (∀ t' e', .unwatch t' e' ∈ D → w.isLive t'.owner) →
    (w.watchers e).Perm (⟨w.channelOf t.owner, t⟩ :: w'.watchers e)
  order : (w'.watchers e).Sublist (w.watchers e)
  others : ∀ e' ≠ e, w'.watchers e' = w.watchers e'
  unreported : ∀ L w'' D'', Course L (w', D) (w'', D'') → t ∉ w''.books.reported

variable {h : Handle}

theorem handle?_removal (hh : w.handle? t = some h) (t' : Ticket) :
    (w.removal t h).handle? t' = if t' = t then none else w.handle? t' := by
  rw [removal, handle?_bookRemoval, handle?_takeOut hh]

/-- A removal is the end of watching in the world that lost the handle, but for a note. -/
theorem removal_cases (hh : w.handle? t = some h) : ∃ u : World,
    w.removal t h = (u.unwatch h.element t).note (.line (.removed t)) ∧ u.cells = w.cells ∧
      u.channels = w.channels ∧ (∀ c, u.hasChannel c = w.hasChannel c) ∧
      .departed t .removed ∈ u.journal.toList := by
  refine ⟨_, rfl, ?_, ?_, hasChannel_takeOut w t _, ?_⟩ <;> rw [takeOut_snd hh]
  · rfl
  · rfl
  · rw [note, Array.toList_push]
    exact List.mem_concat_self

theorem strong_removal (hh : w.handle? t = some h) (e : ElementId) :
    (w.removal t h).strong e = w.strong e := by
  obtain ⟨u, hu, hcells, -⟩ := removal_cases hh
  rw [hu]
  exact (strong_unwatch u h.element e t).trans (strong_congr hcells e)

theorem channels_removal (hh : w.handle? t = some h) : (w.removal t h).channels = w.channels := by
  obtain ⟨u, hu, -, hchannels, -⟩ := removal_cases hh
  rw [hu, unwatch_eq, ← hchannels]
  rfl

theorem departed_removal (hh : w.handle? t = some h) :
    .departed t .removed ∈ (w.removal t h).journal.toList := by
  obtain ⟨u, hu, -, -, -, hj⟩ := removal_cases hh
  rw [hu, unwatch_eq, note, Array.toList_push]
  exact List.mem_append_left _ hj

theorem watchers_removal (hh : w.handle? t = some h) (e : ElementId) :
    (w.removal t h).watchers e =
      if e = h.element ∧ w.isAlive h.element then
        (w.watchers h.element).filter fun x => x.ticket ≠ t && w.hasChannel x.channel
      else w.watchers e := by
  obtain ⟨u, hu, hcells, -, hc, -⟩ := removal_cases hh
  have hx := watchers_unwatch u h.element e t
  simp only [watchers_congr hcells, hc, isAlive, strong_congr hcells] at hx
  rw [hu]
  exact hx

/-- A watcher of a living element is of a set whose channel somebody has, unless its set is gone and has
yet to forget it. -/
theorem hasChannel_of_watcher (hw : w.Point D) (ha : w.isAlive e)
    (hD : ∀ t' e', .unwatch t' e' ∈ D → w.isLive t'.owner) {x : Watcher} (hx : x ∈ w.watchers e) :
    w.hasChannel x.channel := by
  have hlive : w.isLive x.ticket.owner := (hw.mirrored.backed e x ha hx).elim And.right (hD _ _)
  rw [(hw.recorded.watched e x hx).2]
  exact hasChannel_of_isLive (lt_size_of_isLive hlive) hlive

theorem drops_of_removal (hw : w.Point D) (hh : w.handle? t = some h) (hl : w.isLive t.owner)
    (hc : Course .idle (w, D) (w.removal t h, D)) : w.Drops D t h.element (w.removal t h) where
  stored := ⟨h, hh, rfl⟩
  gone := by rw [handle?_removal hh, if_pos rfl]
  handles t' hne := by rw [handle?_removal hh, if_neg hne]
  channels := channels_removal hh
  strong := strong_removal hh
  unwatched ha hD := by
    rw [watchers_removal hh, if_pos ⟨rfl, ha⟩, List.perm_iff_count]
    intro x
    by_cases hx : x ∈ w.watchers h.element
    · have hchannel := hasChannel_of_watcher hw ha hD hx
      by_cases ht : x.ticket = t
      · -- the one watcher with this ticket
        obtain rfl : x = ⟨w.channelOf t.owner, t⟩ := by
          rw [← ht, ← (hw.recorded.watched _ x hx).2]
        rw [hw.mirrored.watched t h hh hl ha, List.count_cons_self, List.count_eq_zero.mpr (by simp)]
      · rw [List.count_cons_of_ne (by rintro rfl; exact ht rfl), List.count_filter (by simp [ht, hchannel])]
    · have hne : x ≠ ⟨w.channelOf t.owner, t⟩ := by
        rintro rfl
        exact hx (List.count_pos_iff.mp (by rw [hw.mirrored.watched t h hh hl ha]; exact Nat.one_pos))
      rw [List.count_cons_of_ne hne.symm, List.count_eq_zero.mpr hx,
        List.count_eq_zero.mpr fun hm => hx (List.mem_of_mem_filter hm)]
  order := by
    rw [watchers_removal hh]
    split
    · exact List.filter_sublist
    · exact List.Sublist.refl _
  others e' hne := by rw [watchers_removal hh, if_neg fun hm => hne hm.1]
  unreported L w'' D'' hc' := by
    have hw' := hc.point hw
    exact ((hc'.point hw').kept.of_removed (mem_removed.mpr
      ⟨.removed, by simp, (hc'.later hw'.sane).mem_journal (departed_removal hh)⟩)).2

theorem shard_removal (hh : w.handle? t = some h) {k : Nat} (hk : k ≠ t.shard) (s : SetId) :
    (w.removal t h).shard s k = w.shard s k := by
  have hsets : (w.removal t h).sets = (w.takeOut t .removed).2.sets := by
    rw [removal, unwatch_eq]
    rfl
  rw [shard, collection_congr (hsets.trans (sets_takeOut hh .removed))]
  exact (shard_setShard (hasShard_of_handle? hh) _ s k).trans (if_neg fun hm => hk hm.2)

theorem IsFresh.removal (hf : w.IsFresh s) (hh : w.handle? t = some h) :
    (w.removal t h).IsFresh s := fun t' x ho hx => by
  rw [handle?_removal hh] at hx
  split at hx
  · cases hx
  · rw [isAlive, strong_removal hh]
    exact hf t' x ho hx

/-- A set that shows its elements has one handle of each. -/
theorem Suits.unique {c : Cursor} {v : World} {t' : Ticket} (hc : w.Suits c) (hcur : c.current.isSome)
    (hv : v.Point D') (hvw : Course .idle (v, D') (w, D)) (ht : t.owner = c.set)
    (ht' : t'.owner = c.set) (ho : v.Offers t e) (ho' : v.Offers t' e) : t = t' := by
  obtain ⟨⟨x, hx, rfl⟩, ha⟩ := ho
  obtain ⟨⟨y, hy, he⟩, -⟩ := ho'
  have hweak : ∀ u z, u.owner = c.set → v.handle? u = some z → z.kind = .weak := fun u z hu hz => by
    rw [(hv.formed.fits u z hz).kind, ← (hvw.later hv.sane).settings (hasShard_of_handle? hz).1, hu]
    exact hc.current hcur
  exact hv.distinct t t' x y (ht.trans ht'.symm) hx hy (hweak t x ht hx) (hweak t' y ht' hy) ha
    (he ▸ ha) (by rw [he])

end World

namespace Cursor

variable {c : Cursor} {key : SlotKey} {h : Handle}

/-- What a cursor has before it is the same in two worlds. -/
structure Undiverted (c : Cursor) (w w' : World) : Prop where
  before : c.before w' = c.before w
  handles : ∀ t ∈ c.before w, w'.handle? t = w.handle? t
  remaining : c.remaining w' = c.remaining w

theorem Undiverted.refl (c : Cursor) (w : World) : c.Undiverted w w :=
  ⟨rfl, fun _ _ => rfl, rfl⟩

/-- The handle that was returned last is behind the cursor. -/
theorem Orderly.not_mem_before (ho : c.Orderly) (hc : c.current = some key) (w : World) :
    ⟨c.set, c.shard, key⟩ ∉ c.before w := by
  have hkeys := ho.keys
  have happart := ho.apart
  rw [hc] at hkeys happart
  intro hm
  rcases List.mem_append.mp hm with hm | hm
  · obtain ⟨key', hkey', heq⟩ := List.mem_map.mp hm
    cases heq
    exact (List.nodup_cons.mp hkeys).1 hkey'
  · obtain ⟨k, hk, hm⟩ := List.mem_flatMap.mp hm
    obtain ⟨⟨t, x⟩, hx, rfl⟩ := List.mem_map.mp hm
    obtain ⟨-, rfl, -⟩ := World.mem_ticketsIn.mp hx
    exact happart (List.cons_ne_nil _ _) hk

theorem Orderly.undiverted (ho : c.Orderly) (hc : c.current = some key)
    (ht : t = ⟨c.set, c.shard, key⟩) (hh : w.handle? t = some h) :
    c.Undiverted w (w.removal t h) := by
  have hbefore : c.before (w.removal t h) = c.before w := by
    have hk (k) (hk : k ∈ c.ahead) : (w.removal t h).ticketsIn c.set k = w.ticketsIn c.set k := by
      have hne : k ≠ t.shard := by
        rintro rfl
        refine ho.apart (by simp [hc]) ?_
        rwa [ht] at hk
      rw [World.ticketsIn, World.ticketsIn, World.shard_removal hh hne]
    rw [before, before, List.flatMap_congr fun k hm => by rw [hk k hm]]
  have hhandles : ∀ t' ∈ c.before w, (w.removal t h).handle? t' = w.handle? t' := by
    intro t' hm
    rw [World.handle?_removal hh, if_neg]
    rintro rfl
    exact ho.not_mem_before hc w (ht ▸ hm)
  refine ⟨hbefore, hhandles, ?_⟩
  rw [remaining, remaining, hbefore]
  refine List.filterMap_congr fun t' hm => ?_
  simp only [World.reachable?, hhandles t' hm, World.isAlive, World.strong_removal hh]
  rfl

/-- What the removal with cursor `c`, whose last step returned `last`, comes to: whether it takes
something out, and the world afterwards. -/
structure Removes (run : Runner) (w : World) (D : Duties) (c : Cursor)
    (last : Option (ElementId × World)) (b : Bool) (w' : World) : Prop where
  exec : c.removeCurrent.exec w = (.ok ⟨{ c with current := none }, .ok b⟩, w')
  /-- One handle is that of the element that was returned. If it is there still it goes. -/
  returned : ∀ e v, last = some (e, v) →
    ∃ t, (∀ t', t'.owner = c.set ∧ v.Offers t' e ↔ t' = t) ∧ (b = true ↔ (w.handle? t).isSome) ∧
      (b = true → w.Drops D t e w')
  nothing : last = none → b = false
  vain : b = false → w' = w
  undiverted : c.Undiverted w w'
  /-- In a quiet world the elements that a walk to the end returns are the same. -/
  rest : ∀ E, w.Steady E → w.IsFresh c.set → ∃ es c₁ w₁ c₂ w₂,
    (c.rest run).exec w = (.ok ⟨c₁, .ok es⟩, w₁) ∧
    (Cursor.rest run { c with current := none }).exec w' = (.ok ⟨c₂, .ok es⟩, w₂)

theorem rest_of_undiverted (hr : run.Sound) (hs : c.set < w.sets.size) (hu : c.Undiverted w w')
    (hw : w.Steady D) (hf : w.IsFresh c.set) (hw' : w'.Steady D) (hf' : w'.IsFresh c.set)
    (hs' : c.set < w'.sets.size) : ∃ es c₁ w₁ c₂ w₂,
      (c.rest run).exec w = (.ok ⟨c₁, .ok es⟩, w₁) ∧
      (Cursor.rest run { c with current := none }).exec w' = (.ok ⟨c₂, .ok es⟩, w₂) := by
  obtain ⟨c₁, es₁, w₁, h₁, he₁⟩ := finds_rest hr hw c hs
  obtain ⟨c₂, es₂, w₂, h₂, he₂⟩ := finds_rest hr hw' { c with current := none } hs'
  have hes : es₂ = es₁ := by
    rw [he₁ hf, he₂ hf']
    exact hu.remaining
  exact ⟨es₁, c₁, w₁, c₂, w₂, h₁.exec, hes ▸ h₂.exec⟩

theorem removes_vain (hr : run.Sound) {last : Option (ElementId × World)}
    (ha : Aimed s w D c last)
    (hx : c.removeCurrent.exec w = (.ok ⟨{ c with current := none }, .ok false⟩, w))
    (hret : ∀ e v, last = some (e, v) → ∃ t, (∀ t', t'.owner = c.set ∧ v.Offers t' e ↔ t' = t) ∧
      w.handle? t = none) : Removes run w D c last false w where
  exec := hx
  returned e v hl := by
    obtain ⟨t, ht, hn⟩ := hret e v hl
    exact ⟨t, ht, by simp [hn], nofun⟩
  nothing _ := rfl
  vain _ := rfl
  undiverted := .refl c w
  rest E hw hf := rest_of_undiverted hr ha.suits.set (.refl c w) hw hf hw hf ha.suits.set

/-- Removal by a cursor removes what the cursor returned last. Whatever was done with a cursor and
meanwhile, by commands and scripts, to its set and all else: if its last step returned an element, and
nothing was removed with it since, one handle was that of the element when it was returned. The removal
takes something out if and only if that handle is there still. Then it is gone, its element if alive
loses the watcher for it and no other, and the ticket is not reported whatever comes later. Otherwise
nothing changes. What the cursor has before it stays as it is. Only while the set is locked is a removal
refused, if there is a handle to look for. -/
theorem removes_last_returned (depth : Nat) {last : Option (ElementId × World)}
    (h : Life (Session.runner depth) s w D c last) (hl : w.isLive s) :
    (s ∈ w.entered → c.removeCurrent.exec w =
      if last.isNone then (.ok ⟨{ c with current := none }, .ok false⟩, w)
      else (.ok ⟨{ c with current := none }, .error reentered⟩, w.note (.barred s))) ∧
    (s ∉ w.entered → ∃ b w', Removes (Session.runner depth) w D c last b w') := by
  have hr := Session.sound_runner depth
  have ha := h.aimed hr
  obtain rfl := ha.set
  rcases last with _ | ⟨e, v⟩
  · have hc := ha.empty rfl
    have hx : c.removeCurrent.exec w = (.ok ⟨{ c with current := none }, .ok false⟩, w) := by
      rw [removeCurrent, hc]
      rfl
    refine ⟨fun _ => hx, fun _ => ⟨false, w, removes_vain hr ha hx fun e v hl => ?_⟩⟩
    cases hl
  obtain ⟨key, E, hkey, ho, hv, hvw⟩ := ha.kept e v rfl
  refine ⟨fun hm => by rw [exec_removeCurrent_of_mem hm, hkey]; rfl, fun hn => ?_⟩
  obtain ⟨t, ht⟩ : ∃ t : Ticket, t = ⟨c.set, c.shard, key⟩ := ⟨_, rfl⟩
  rw [← ht] at ho
  have hx := exec_removeCurrent hn hkey ht
  have hone : ∀ t', t'.owner = c.set ∧ v.Offers t' e ↔ t' = t := fun t' => by
    constructor
    · rintro ⟨ho', h'⟩
      exact ha.suits.unique (by simp [hkey]) hv hvw ho' (by rw [ht]) h' ho
    · rintro rfl
      exact ⟨by rw [ht], ho⟩
  rcases hh : w.handle? t with _ | y <;> simp only [hh] at hx
  · refine ⟨false, w, removes_vain hr ha hx fun e' v' hl => ?_⟩
    cases hl
    exact ⟨t, hone, hh⟩
  · have hcourse := (leads_removeCurrent (L := .idle) (E := D) ha.suits).ok hx ha.point (.idle w)
    rw [Step.due_zero, Multiset.zero_add] at hcourse
    have hdrops := World.drops_of_removal ha.point hh (by rwa [ht]) hcourse
    have hy : y.element = e := by
      obtain ⟨z, hz, rfl⟩ := ho.stored
      have hyz := hvw.handle?_old hv.sane (World.issued_of_handle? hz) hh
      rw [Option.some.inj (hyz.symm.trans hz)]
    refine ⟨true, w.removal t y, hx, fun e' v' hl => ?_, by simp, by simp,
      ha.orderly.undiverted hkey ht hh, fun E hw hf => ?_⟩
    · cases hl
      exact ⟨t, hone, by simp [hh], fun _ => hy ▸ hdrops⟩
    · obtain ⟨x', b', w', hd, -⟩ := does_removeCurrent hw c ha.suits.set
      obtain ⟨-, rfl⟩ := Prod.mk.injEq .. ▸ hx.symm.trans hd.exec
      refine rest_of_undiverted hr ha.suits.set (ha.orderly.undiverted hkey ht hh) hw hf hd.steady ?_
        (hd.framed.sets ▸ ha.suits.set)
      exact hf.removal hh

/-- The first element is returned, and then removed and put back into its slot by the client: the
removal with the cursor takes nothing out. -/
theorem removes_last_returned_reinserted :
    let c : Cursor := ⟨0, 0, [], [⟨1, 1⟩], some ⟨0, 1⟩⟩
    ∃ w v, Life (Session.runner 0) 0 w 0 c (some (0, v)) ∧ w.isLive 0 ∧
      w.Offers ⟨0, 0, 0, 3⟩ 0 ∧ Removes (Session.runner 0) w 0 c (some (0, v)) false w := by
  intro c
  let w₀ := ((start (Session.runner 0) 0).exec (Session.carryOutAll 0 .empty pairRun)).2
  let back (v : World) :=
    Session.carryOutAll 0 (v.release 0).2 [.remove "s" (.owner "x"), .add "s" "x"]
  have hstart : Life (Session.runner 0) 0 w₀ 0 { set := 0, ahead := [0] } none :=
    .start (Session.point_carryOutAll 0 pairRun) (by decide +kernel) (Prod.ext (by decide +kernel) rfl)
  obtain ⟨a, ha⟩ : ∃ a, a = (next (Session.runner 0) { set := 0, ahead := [0] }).exec w₀ := ⟨_, rfl⟩
  have hcursor : a.1.map Step.cursor = .ok c := by rw [ha]; decide +kernel
  have hout : a.1.map Step.outcome = .ok (.ok (some 0)) := by rw [ha]; decide +kernel
  have hback : (back a.2).isLive 0 ∧ 0 ∉ (back a.2).entered ∧
      ((back a.2).handle? ⟨0, 0, 0, 3⟩).map Handle.element = some 0 ∧ (back a.2).isAlive 0 ∧
      (back a.2).handle? ⟨0, 0, 0, 1⟩ = none := by
    rw [ha]
    decide +kernel
  have hgiven : (a.2.handle? ⟨0, 0, 0, 1⟩).map Handle.element = some 0 ∧ a.2.isAlive 0 := by
    rw [ha]
    decide +kernel
  rcases a with ⟨_ | ⟨cursor, outcome⟩, v⟩
  · cases hout
  · obtain rfl := Except.ok.inj hcursor
    obtain rfl := Except.ok.inj hout
    have hnext : Life (Session.runner 0) 0 v (.hold 0 ::ₘ 0) c (some (0, v)) := hstart.next ha.symm
    have hlife : Life (Session.runner 0) 0 (back v) 0 c (some (0, v)) := hnext.release.carryOutAll _
    obtain ⟨hlive, hopen, hstored, halive, hgone⟩ := hback
    obtain ⟨b, w', h⟩ := (removes_last_returned 0 hlife hlive).2 hopen
    obtain ⟨t, ht, hb, -⟩ := h.returned 0 v rfl
    obtain rfl : ⟨0, 0, 0, 1⟩ = t := (ht _).mp ⟨rfl, Option.map_eq_some_iff.mp hgiven.1, hgiven.2⟩
    obtain rfl : b = false := by simpa [hgone] using hb
    obtain rfl := h.vain rfl
    exact ⟨back v, v, hlife, hlive, ⟨Option.map_eq_some_iff.mp hstored, halive⟩, h⟩

end Cursor

end WeakSet
