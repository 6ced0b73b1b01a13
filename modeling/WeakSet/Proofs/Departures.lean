import WeakSet.Proofs.Batches
import WeakSet.Proofs.Notices

/-!
# Why handles leave

The journal says why a handle left its set and what the listener was told of it.

* `World.Point.discreet`: only sets that show their elements have handles removed and tell their listeners
  of elements;
* `Course.of_ended`: an element that ended comes into no set, and its handles are not filtered out;
* `World.ticketsOn`, `World.sweptOn`, `World.reportsOn`: what became of the handles that an element had in a
  set.
-/

namespace WeakSet

open Act Duties

variable {L : Scene} {w w' : World} {D D' : Duties} {s : SetId} {t : Ticket} {e : ElementId}

namespace World

/-! ## What the books say of each other -/

namespace Kept

/-- What was reported or has to be was taken out by a sweep. -/
theorem mem_swept (h : w.Kept D) : t ∈ w.books.swept ↔ t ∈ w.books.reported ∨ .report t ∈ D := by
  rw [← List.count_pos_iff, ← List.count_pos_iff, ← Multiset.count_pos, h.swept t]
  omega

/-- A handle that is there was neither removed nor taken out by a sweep. -/
theorem of_handle {h : Handle} (hk : w.Kept D) (hh : w.handle? t = some h) :
    t ∉ w.books.removed ∧ t ∉ w.books.swept := by
  have honce := hk.once t
  have hthere := hk.there t
  rw [hh] at hthere
  simp only [Option.isSome_some, ite_true] at hthere
  exact ⟨List.count_eq_zero.mp (by omega), List.count_eq_zero.mp (by omega)⟩

/-- What was stored and neither removed nor taken out by a sweep is there. -/
theorem isSome_handle? (hk : w.Kept D) (hs : t ∈ w.books.stored) (hr : t ∉ w.books.removed)
    (hsw : t ∉ w.books.swept) : (w.handle? t).isSome := by
  have hthere := hk.there t
  have hstored := List.count_pos_iff.mpr hs
  rw [List.count_eq_zero.mpr hr, List.count_eq_zero.mpr hsw] at hthere
  by_contra hn
  rw [if_neg hn] at hthere
  omega

end Kept

theorem Recorded.issued_of_stored (hr : w.Recorded D) (ht : t ∈ w.books.stored) : w.Issued t := by
  obtain ⟨e, he⟩ := mem_stored.mp ht
  exact (hr.issued t e he).1

/-! ## What sets that do not show their elements keep to themselves -/

/-- Only sets that show their elements have handles removed, and only their listeners are told of
elements. -/
structure Discreet (w : World) : Prop where
  removed : ∀ t, .departed t .removed ∈ w.journal.toList →
    (w.collection t.owner).settings.kind = .weak
  told : ∀ t hash last named, .reported t hash last named ∈ w.journal.toList → last.isSome →
    (w.collection t.owner).settings.kind = .weak

theorem discreet_empty : World.empty.Discreet where
  removed t h := by simp [World.empty] at h
  told t _ _ _ h := by simp [World.empty] at h

end World

theorem Move.discreet (hw : w.Sane D) (hk : w.Kept D) (hm : Move L (w, D) (w', D'))
    (h : w.Discreet) : w'.Discreet := by
  have hl := hm.later hw.formed hw.counted
  have hkind {t : Ticket} (ht : t ∈ w.books.stored)
      (hkt : (w.collection t.owner).settings.kind = .weak) :
      (w'.collection t.owner).settings.kind = .weak := by
    rwa [hl.settings (World.lt_size_of_issued (hw.recorded.issued_of_stored ht))]
  refine ⟨fun t ht => ?_, fun t hash last named ht hlast => ?_⟩
  · rcases hm.adds hw ht with ht | ⟨x, hx, hweak⟩
    · exact hkind (hk.stored_of_removed (World.mem_removed.mpr ⟨.removed, by decide, ht⟩)) (h.removed t ht)
    · exact hkind (World.mem_stored.mpr ⟨_, hw.recorded.stored t x hx⟩)
        ((hw.formed.fits t x hx).kind.symm.trans hweak)
  · rcases hm.adds hw ht with ht | ⟨hd, hweak⟩
    · exact hkind (hk.stored_of_swept (hk.mem_swept.mpr (.inl (World.mem_reported.mpr ⟨_, _, _, ht⟩))))
        (h.told t hash last named ht hlast)
    · exact hkind (hk.stored_of_swept (hk.mem_swept.mpr (.inr hd))) (hweak hlast)

theorem World.Point.discreet (h : w.Point D) : w.Discreet :=
  (Course.keeps (I := fun q => q.1.Sane q.2 ∧ q.1.Kept q.2 ∧ q.1.Discreet)
    (fun _ _ hm hI => ⟨hm.sane hI.1, (hm.booking hI.1).kept hI.2.1, hm.discreet hI.1 hI.2.1 hI.2.2⟩) h
    ⟨World.sane_empty, World.kept_empty, World.discreet_empty⟩).2.2

/-! ## Elements that ended -/

/-- An element that ended comes into no set, and its handles are not filtered out. -/
theorem Course.of_ended (c : Course L (w, D) (w', D')) (hw : w.Sane D) (he : e < w.cells.size)
    (hd : ¬ w.isAlive e) :
    (.stored t e ∈ w'.journal.toList → .stored t e ∈ w.journal.toList) ∧
      (.stored t e ∈ w.journal.toList → .departed t .filtered ∈ w'.journal.toList →
        .departed t .filtered ∈ w.journal.toList) := by
  refine (c.keeps (I := fun q => q.1.Sane q.2 ∧ World.Later w q.1 ∧
    (.stored t e ∈ q.1.journal.toList → .stored t e ∈ w.journal.toList) ∧
      (.stored t e ∈ w.journal.toList → .departed t .filtered ∈ q.1.journal.toList →
        .departed t .filtered ∈ w.journal.toList)) ?_ ⟨hw, .refl w, id, fun _ => id⟩).2.2
  rintro ⟨v, E⟩ ⟨v', E'⟩ hm ⟨hv, hl, hstored, hfiltered⟩
  have hdead : ¬ v.isAlive e := hl.dead_of_not_isAlive he hd
  refine ⟨hm.sane hv, hl.trans (hm.later hv.formed hv.counted), fun ht => ?_, fun hst ht => ?_⟩
  · exact (hm.adds hv ht).elim hstored fun ha => absurd ha hdead
  · refine (hm.adds hv ht).elim (hfiltered hst) ?_
    rintro ⟨x, hx, ha⟩
    obtain rfl := hv.recorded.unique _ _ _ (hl.mem_journal hst) (hv.recorded.stored t x hx)
    exact absurd ha hdead

namespace World

/-- The tickets of the handles of an element in a set. -/
def ticketsOn (w : World) (s : SetId) (e : ElementId) : List Ticket :=
  ((w.ticketsOf s).filter fun x => x.2.element = e).map Prod.fst

/-- The tickets of the handles of an element that sweeps took out of a set. -/
def sweptOn (w : World) (s : SetId) (e : ElementId) : List Ticket :=
  w.books.swept.filter fun t => t.owner = s ∧ .stored t e ∈ w.journal.toList

/-- The tickets of the handles of an element that were reported to the listener of a set. -/
def reportsOn (w : World) (s : SetId) (e : ElementId) : List Ticket :=
  w.books.reported.filter fun t => t.owner = s ∧ .stored t e ∈ w.journal.toList

theorem mem_ticketsOn : t ∈ w.ticketsOn s e ↔
    t.owner = s ∧ ∃ h, w.handle? t = some h ∧ h.element = e := by
  simp only [ticketsOn, List.mem_map, List.mem_filter, Prod.exists, mem_ticketsOf, decide_eq_true_eq]
  constructor
  · rintro ⟨t, h, ⟨⟨ho, hh⟩, he⟩, rfl⟩
    exact ⟨ho, h, hh, he⟩
  · rintro ⟨ho, h, hh, he⟩
    exact ⟨t, h, ⟨⟨ho, hh⟩, he⟩, rfl⟩

theorem nodup_ticketsOn (w : World) (s : SetId) (e : ElementId) : (w.ticketsOn s e).Nodup :=
  (w.nodup_ticketsOf s).sublist (List.filter_sublist.map _)

theorem mem_sweptOn : t ∈ w.sweptOn s e ↔
    t ∈ w.books.swept ∧ t.owner = s ∧ .stored t e ∈ w.journal.toList := by
  simp [sweptOn]

theorem nodup_sweptOn (hk : w.Kept D) (s : SetId) (e : ElementId) : (w.sweptOn s e).Nodup := by
  refine List.Nodup.filter _ (List.nodup_iff_count_le_one.mpr fun t => ?_)
  have := hk.once t
  have := hk.there t
  omega

theorem mem_reportsOn : t ∈ w.reportsOn s e ↔
    t ∈ w.books.reported ∧ t.owner = s ∧ .stored t e ∈ w.journal.toList := by
  simp [reportsOn]

theorem nodup_reportsOn (hk : w.Kept D) (s : SetId) (e : ElementId) : (w.reportsOn s e).Nodup := by
  refine List.Nodup.filter _ (List.nodup_iff_count_le_one.mpr fun t => ?_)
  by_cases ht : t ∈ w.books.reported
  · exact (hk.count_reported ht).le
  · rw [List.count_eq_zero.mpr ht]
    exact Nat.zero_le 1

end World

end WeakSet
