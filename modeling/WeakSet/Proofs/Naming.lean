import WeakSet.Construction
import WeakSet.Proofs.Points

/-!
# Names come and go

The changes of names that commands make are courses of moves in every scene in which they may be
made: a name under which a set is in use is not given to another one, and a set that is being made
gets no name and no cursor from anybody else. A set that loses its last name or cursor is unmade, and
as sets in use have one, it is not in use (`course_retire`).
-/

namespace WeakSet

open Duties

namespace Scene

/-- The set is not being made by code under way. -/
def Spares (L : Scene) (s : SetId) : Prop :=
  (none, s) ∉ L.used

/-- No set is in use under the name. -/
def Leaves (L : Scene) (name : String) : Prop :=
  ∀ s, (some name, s) ∉ L.used

variable {L : Scene} {w : World} {s : SetId} {name : String}

theorem spares_of_not_uses (h : ¬ L.Uses s) : L.Spares s :=
  fun hm => h ⟨_, hm, rfl⟩

/-- A set that is new is not in use. -/
theorem On.not_uses_size (ho : L.On w) : ¬ L.Uses w.sets.size :=
  fun h => Nat.lt_irrefl _ (ho.lt_size h)

theorem On.spares_of_name (ho : L.On w) (h : w.setNames.find? name = some s) : L.Spares s := by
  intro hm
  have hn : w.isNamed s :=
    List.any_eq_true.mpr ⟨(name, s), Table.mem_of_find? h, decide_eq_true rfl⟩
  rw [(ho.used _ hm).2.1] at hn
  cases hn

theorem On.spares_of_cursor (ho : L.On w) {c : Cursor} (h : w.cursors.find? name = some c) :
    L.Spares c.set :=
  fun hm => (ho.used _ hm).2.2 _ (Table.mem_of_find? h) rfl

theorem On.leaves (ho : L.On w) (h : w.setNames.find? name = none) : L.Leaves name := by
  intro s hm
  have hs := (ho.used _ hm).2
  rw [h] at hs
  cases hs

end Scene

namespace World

variable {L : Scene} {w : World} {s : SetId} {name : String}

theorem Suits.of_sets {w' : World} {c : Cursor} (h : w.Suits c) (hs : w'.sets = w.sets) :
    w'.Suits c :=
  ⟨hs ▸ h.set, fun hc => (collection_congr hs c.set).symm ▸ h.current hc⟩

theorem Point.wellNamed {D : Duties} (hw : w.Point D) (ho : L.On w) : w.WellNamed L :=
  ⟨hw.formed.named, hw.housed, ho.used⟩

namespace WellNamed

/-- Names of channels and tickets change. -/
theorem channels (h : w.WellNamed L) {channelNames : Table ChannelId}
    (hc : ∀ x ∈ channelNames, x.2 < w.channels.size) (walking : List SetId)
    {tickets : Table Ticket} (ht : ∀ x ∈ tickets, w.Issued x.2) :
    WellNamed { w with channelNames := channelNames, walking := walking, tickets := tickets } L where
  named := ⟨h.named.sets, fun x hx => (h.named.cursors x hx).of_sets rfl, hc, ht⟩
  housed := ⟨h.housed.live, h.housed.once⟩
  serves x hx := (Stays.of_sets rfl rfl rfl).serves (h.serves x hx)

/-- Cursors come and go. -/
theorem cursors (h : w.WellNamed L) {cursors : Table Cursor} (walking : List SetId)
    (hc : ∀ x ∈ cursors, x ∈ w.cursors ∨ w.Suits x.2 ∧ L.Spares x.2.set) :
    WellNamed { w with cursors := cursors, walking := walking } L where
  named := by
    refine ⟨h.named.sets, fun x hx => ?_, h.named.channels, h.named.tickets⟩
    rcases hc x hx with hx | hx
    · exact (h.named.cursors x hx).of_sets rfl
    · exact hx.1.of_sets rfl
  housed := ⟨h.housed.live, h.housed.once⟩
  serves x hx := by
    have hs := h.serves x hx
    obtain ⟨_ | n, s⟩ := x
    · refine ⟨hs.1, hs.2.1, fun y hy => ?_⟩
      rcases hc y hy with hy | hy
      · exact hs.2.2 y hy
      · rintro rfl
        exact hy.2 hx
    · exact hs

/-- A set that nobody has gets a name that no set in use has. -/
theorem put (h : w.WellNamed L) (hs : w.Serves (none, s)) (hsp : L.Spares s)
    (hl : L.Leaves name) : WellNamed { w with setNames := w.setNames.put name s } L where
  named := by
    refine ⟨fun x hx => ?_, fun x hx => (h.named.cursors x hx).of_sets rfl, h.named.channels,
      h.named.tickets⟩
    rcases Table.mem_put hx with rfl | hx
    · exact lt_size_of_isLive hs.1
    · exact h.named.sets x hx
  housed := by
    refine ⟨fun x hx => ?_, List.nodup_cons.mpr ⟨fun hm => ?_, ?_⟩⟩
    · rcases Table.mem_put hx with rfl | hx
      · exact hs.1
      · exact h.housed.live x hx
    · obtain ⟨x, hx, rfl⟩ := List.mem_map.mp hm
      have := List.any_eq_false.mp hs.2.1 x (Table.mem_of_mem_erase hx)
      simp at this
    · exact h.housed.once.sublist (List.filter_sublist.map _)
  serves x hx := by
    have hx' := h.serves x hx
    obtain ⟨_ | n, s'⟩ := x
    · refine ⟨hx'.1, List.any_eq_false.mpr fun y hy => ?_, hx'.2.2⟩
      rcases Table.mem_put hy with rfl | hy
      · rw [decide_eq_true_eq]
        rintro rfl
        exact hsp hx
      · exact List.any_eq_false.mp hx'.2.1 y hy
    · have hne : n ≠ name := by
        rintro rfl
        exact hl s' hx
      refine ⟨hx'.1, ?_⟩
      show (w.setNames.put name s).find? n = some s'
      rw [Table.find?_put, if_neg hne]
      exact hx'.2

end WellNamed

/-! ## A set loses its name while it is unmade -/

theorem unwatch_setNames (w : World) (names : Table SetId) (e : ElementId) (t : Ticket) :
    unwatch { w with setNames := names } e t = { w.unwatch e t with setNames := names } := by
  by_cases h : w.isAlive e
  · have h' : isAlive { w with setNames := names } e := h
    rw [unwatch, unwatch, if_pos h, if_pos h']
    rfl
  · have h' : ¬ isAlive { w with setNames := names } e := h
    rw [unwatch, unwatch, if_neg h, if_neg h']

theorem unwatchEach_setNames (xs : List (Ticket × Handle)) (w : World) (names : Table SetId) :
    unwatchEach { w with setNames := names } xs =
      { w.unwatchEach xs with setNames := names } := by
  induction xs generalizing w with
  | nil => rfl
  | cons x xs ih =>
    show unwatchEach (unwatch { w with setNames := names } _ _) xs = _
    rw [unwatch_setNames, ih]
    rfl

theorem unmake_setNames (w : World) (names : Table SetId) (s : SetId) :
    unmake { w with setNames := names } s = { w.unmake s with setNames := names } := by
  rw [unmake, unmake, unwatchAll_eq, unwatchAll_eq]
  show (unwatchEach { w with setNames := names } (w.ticketsOf s)).endSet s = _
  rw [unwatchEach_setNames]
  rfl

end World

/-! ## What commands do to names -/

variable {L : Scene} {w : World} {D : Duties} {s : SetId} {name : String} {c : Cursor}

/-- A set that nobody has any more is not in use. -/
theorem course_retire (ho : L.On w) (hs : L.Spares s) : Course L (w, D) (w.retire s, D) := by
  unfold World.retire
  split
  · exact .refl
  · rename_i hh
    simp only [World.isHeld, Bool.or_eq_true, not_or, Bool.not_eq_true] at hh
    refine .single (.unmake hh.1.1 ?_)
    rintro ⟨⟨_ | n, s'⟩, hx, rfl⟩
    · exact hs hx
    · have hn : w.isNamed s' :=
        List.any_eq_true.mpr ⟨(n, s'), Table.mem_of_find? (ho.used _ hx).2, decide_eq_true rfl⟩
      rw [hh.1.1] at hn
      cases hn

theorem course_nameSet (hw : w.Point D) (ho : L.On w) (hs : w.Serves (none, s)) (hsp : L.Spares s)
    (hl : L.Leaves name) : Course L (w, D) (w.nameSet name s, D) := by
  have h : Course L (w, D) ({ w with setNames := w.setNames.put name s }, D) :=
    .single (.rename w.walking w.tickets ((hw.wellNamed ho).put hs hsp hl))
  unfold World.nameSet
  split
  · exact h
  · rename_i old hold
    exact h.trans (course_retire (h.on ho) (ho.spares_of_name hold))

theorem course_takeCursor (hw : w.Point D) (ho : L.On w) :
    Course L (w, D) (w.takeCursor name c, D) :=
  .single (.rename (c.set :: w.walking) w.tickets
    ((hw.wellNamed ho).cursors _ fun _ hx => .inl (Table.mem_of_mem_erase hx)))

theorem course_putCursor (hw : w.Point D) (ho : L.On w) (hc : w.Suits c)
    (hsp : L.Spares c.set) : Course L (w, D) (w.putCursor name c, D) := by
  have h : Course L (w, D) ({ w with cursors := w.cursors.put name c }, D) := by
    refine .single (.rename w.walking w.tickets ((hw.wellNamed ho).cursors _ fun x hx => ?_))
    rcases Table.mem_put hx with rfl | hx
    · exact .inr ⟨hc, hsp⟩
    · exact .inl hx
  unfold World.putCursor
  split
  · exact h
  · rename_i old hold
    exact h.trans (course_retire (h.on ho) (ho.spares_of_cursor hold))

theorem course_returnCursor (hw : w.Point D) (ho : L.On w) (hc : w.Suits c)
    (hsp : L.Spares c.set) : Course L (w, D) (w.returnCursor name c, D) := by
  have h : Course L (w, D) ({ w with walking := w.walking.erase c.set }, D) :=
    .single (.rename _ w.tickets ((hw.wellNamed ho).cursors _ fun _ hx => .inl hx))
  exact h.trans (course_putCursor (h.point hw) (h.on ho) (hc.of_sets rfl) hsp)

theorem course_dropCursor (hw : w.Point D) (ho : L.On w) (h : w.cursors.find? name = some c) :
    Course L (w, D) (w.dropCursor name c, D) := by
  have he : Course L (w, D) ({ w with cursors := w.cursors.erase name }, D) :=
    .single (.rename w.walking w.tickets
      ((hw.wellNamed ho).cursors _ fun _ hx => .inl (Table.mem_of_mem_erase hx)))
  exact he.trans (course_retire (he.on ho) (ho.spares_of_cursor h))

/-- A set is dropped. Its one name goes before it is unmade; that the code takes the name away
afterwards makes no difference. -/
theorem course_dropSet (hw : w.Point D) (hL : L.used = [])
    (h : w.setNames.find? name = some s) :
    let v := World.unmake { w with cursors := w.cursors.filter fun e => e.2.set ≠ s } s
    Course L (w, D) ({ v with setNames := v.setNames.erase name }, D) := by
  intro v
  have hn := hw.formed.named
  have hv : v.setNames = w.setNames := by
    show (World.unmake _ s).setNames = _
    rw [World.unmake_eq]
  rw [hv, ← World.unmake_setNames]
  refine .head (.rename w.walking w.tickets ⟨?_, ?_, by simp [hL]⟩)
    (.single (.unmake (List.any_eq_false.mpr fun x hx => ?_) (by simp [Scene.Uses, hL])))
  · exact ⟨fun x hx => hn.sets x (Table.mem_of_mem_erase hx),
      fun x hx => (hn.cursors x (List.mem_of_mem_filter hx)).of_sets rfl, hn.channels, hn.tickets⟩
  · exact ⟨fun x hx => hw.housed.live x (Table.mem_of_mem_erase hx),
      hw.housed.once.sublist (List.filter_sublist.map _)⟩
  · rw [decide_eq_true_eq]
    intro he
    have hmem : x ∈ w.setNames := Table.mem_of_mem_erase hx
    have hx' : x = (name, s) :=
      List.inj_on_of_nodup_map hw.housed.once hmem (Table.mem_of_find? h) he
    have hne := (List.mem_filter.mp hx).2
    rw [hx'] at hne
    simp at hne

end WeakSet
