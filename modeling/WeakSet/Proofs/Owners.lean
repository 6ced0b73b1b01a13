import WeakSet.Proofs.Endings
import WeakSet.Proofs.Naming

/-!
# Owners and names in a steady world

An owner that comes or goes, a reference that is lent, and a name that is given or taken away keep a
world steady, and what a client has to know changes by just that: with the last owner of an element
its entries go from every set (`Registry.Owned.disown`).
-/

namespace WeakSet

open Act Duties World

variable {L : Scene} {run : Runner} {w w' : World} {D : Duties} {e : ElementId} {s : SetId}
  {name : String} {es : List ElementId}

namespace World

/-! ## References -/

/-- The entries of all sets stay as they are if the handles and their elements do. -/
theorem Quiet.dict_congr (hq : w.Quiet) (hq' : w'.Quiet) (hx : ∀ e, w'.element? e = w.element? e)
    (ha : ∀ e, w'.isAlive e = w.isAlive e) (hh : ∀ t, w'.handle? t = w.handle? t) :
    w'.dict = w.dict := by
  funext s
  refine dict_ext hq'.distinct hq'.weak fun v e t => ?_
  rw [hq.dict_eq_some]
  constructor
  · rintro ⟨ho, ⟨h, hh', he⟩, hal, hv⟩
    exact ⟨ho, ⟨h, by rwa [hh] at hh', he⟩, by rwa [ha] at hal, by rwa [value_congr (hx e)] at hv⟩
  · rintro ⟨ho, ⟨h, hh', he⟩, hal, hv⟩
    exact ⟨ho, ⟨h, by rwa [hh], he⟩, by rwa [ha], by rwa [value_congr (hx e)]⟩

/-- Who only counts references anew leaves a registry as it is, as long as no element ends. -/
theorem SameButCounts.registry (h : w.SameButCounts w') (hq : w.Quiet) (hq' : w'.Quiet)
    (ha : ∀ e, w'.isAlive e = w.isAlive e) : w'.registry = w.registry := by
  have hf : w'.face = w.face := funext fun e => face_congr (h.element e)
  have hd : w'.dict = w.dict :=
    hq.dict_congr hq' h.element ha (handle?_congr (by rw [h.rest]))
  rw [World.registry, World.registry, hf, hd, h.rest]

theorem Steady.acquire (h : w.Steady D) (ha : w.isAlive e) :
    (w.acquire e).Steady (.hold e ::ₘ D) := by
  obtain ⟨hs, hc⟩ := foldl_acquire [e] (w := w) fun x hx => by
    rw [List.mem_singleton.mp hx]
    exact lt_size_of_strong (isAlive_iff.mp ha)
  have hf : Framed 0 [e] w (w.acquire e) := .of_counts hs (by simpa using ha) hc
  exact h.course (.single (.acquire (L := .idle) ha)) hf fun t ht => h.dealt t (by simpa using ht)

/-- Elements are lent. -/
theorem Steady.lend (h : w.Steady D) (ha : ∀ e ∈ es, w.isAlive e) :
    (es.foldl World.acquire w).Steady (holds es + D) := by
  induction es generalizing w D with
  | nil => simpa using h
  | cons e es ih =>
    have he := ha e List.mem_cons_self
    have hes := ih (h.acquire he) fun x hx => by
      rw [isAlive_acquire he]
      exact ha x (List.mem_cons_of_mem _ hx)
    rwa [Multiset.add_cons, ← Multiset.cons_add, ← holds_cons] at hes

theorem registry_lend (h : w.Steady D) (ha : ∀ e ∈ es, w.isAlive e) :
    (es.foldl World.acquire w).registry = w.registry := by
  obtain ⟨hs, hc⟩ := foldl_acquire es (w := w) fun e he =>
    lt_size_of_strong (isAlive_iff.mp (ha e he))
  have hf : Framed 0 es w (es.foldl World.acquire w) := .of_counts hs ha hc
  exact hs.registry h.quiet (h.lend ha).quiet hf.isAlive

theorem registry_acquire (h : w.Steady D) (ha : w.isAlive e) :
    (w.acquire e).registry = w.registry := by
  have hes : ∀ e' ∈ [e], w.isAlive e' := by simpa using ha
  exact registry_lend h hes

/-- Elements may have ended, and their entries went. -/
structure Sheds (w w' : World) : Prop where
  owners : w'.owners = w.owners
  names : w'.setNames = w.setNames
  cursors : w'.cursors = w.cursors
  face : w'.face = w.face
  ends : ∀ e, w'.isAlive e → w.isAlive e
  dict : ∀ s, w'.dict s = (w.dict s).filter fun _ e => w'.isAlive e

theorem Sheds.refl (hq : w.Quiet) : w.Sheds w := by
  refine ⟨rfl, rfl, rfl, rfl, fun _ h => h, fun s => Dict.ext_iff.mpr fun v e t => ?_⟩
  rw [Dict.filter_eq_some]
  exact (and_iff_left_of_imp fun h => (hq.dict_eq_some.mp h).alive).symm

theorem Sheds.trans {w'' : World} (h : w.Sheds w') (h' : w'.Sheds w'') : w.Sheds w'' := by
  refine ⟨h'.owners.trans h.owners, h'.names.trans h.names, h'.cursors.trans h.cursors,
    h'.face.trans h.face,
    fun e he => h.ends e (h'.ends e he), fun s => ?_⟩
  rw [h'.dict, h.dict, Dict.filter_filter]
  exact Dict.filter_congr fun v e t _ => and_iff_right_of_imp (h'.ends e)

theorem Quiet.sheds_release (hq : w.Quiet) (hw : w.Sane (.hold e ::ₘ D)) :
    w.Sheds (w.release e).2 := by
  have he : 0 < w.strong e :=
    World.isAlive_iff.mp (hw.counted.isAlive_of_hold (Multiset.mem_cons_self _ _))
  have hr := release_eq w e
  refine ⟨by rw [hr], by rw [hr], by rw [hr], funext fun e' => face_congr (element?_release he e'),
    fun e' => isAlive_release he, hq.dict_release hw⟩

/-- What is held is let go of. -/
theorem Steady.exec_releaseAll (run : Runner) (h : w.Steady (holds es + D)) :
    ∃ w', (Act.releaseAll run es).exec w = (.ok (), w') ∧ w'.Steady D ∧ w.Sheds w' := by
  induction es generalizing w with
  | nil => exact ⟨w, rfl, by simpa using h, .refl h.quiet⟩
  | cons e es ih =>
    rw [holds_cons, Multiset.cons_add] at h
    obtain ⟨w', hx, hs, hsheds⟩ := ih h.release
    exact ⟨w', (exec_bind_ok (exec_release run h.quiet.scriptless e) _).trans hx, hs,
      (h.quiet.sheds_release h.sane).trans hsheds⟩

/-! ## Names -/

/-- Names change, and only sets that exist have one, each another. -/
theorem Quiet.rename (hq : w.Quiet) {channelNames : Table ChannelId} {setNames : Table SetId}
    {cursors : Table Cursor} (walking : List SetId) (tickets : Table Ticket)
    (hl : ∀ x ∈ setNames, w.isLive x.2)
    (hn : ∀ x ∈ setNames, ∀ y ∈ setNames, x.1 = y.1 ∨ x.2 = y.2 → x = y)
    (hc : ∀ x ∈ cursors, setNames.any (·.2 = x.2.set)) :
    Quiet { w with
      channelNames := channelNames, setNames := setNames, cursors := cursors
      walking := walking, tickets := tickets } :=
  { hq with named := hl, names := hn, held := hc }

theorem Steady.rename (h : w.Steady D) {channelNames : Table ChannelId} {setNames : Table SetId}
    {cursors : Table Cursor} (walking : List SetId) (tickets : Table Ticket)
    (hw : WellNamed { w with
      channelNames := channelNames, setNames := setNames, cursors := cursors
      walking := walking, tickets := tickets } .idle)
    (hl : ∀ x ∈ setNames, w.isLive x.2)
    (hn : ∀ x ∈ setNames, ∀ y ∈ setNames, x.1 = y.1 ∨ x.2 = y.2 → x = y)
    (hc : ∀ x ∈ cursors, setNames.any (·.2 = x.2.set)) :
    Steady { w with
      channelNames := channelNames, setNames := setNames, cursors := cursors
      walking := walking, tickets := tickets } D :=
  h.moves (.single (.rename walking tickets hw)) (h.quiet.rename walking tickets hl hn hc) h.dealt

/-- Names of channels and of tickets change. -/
theorem Steady.label (h : w.Steady D) {channelNames : Table ChannelId}
    (hc : ∀ x ∈ channelNames, x.2 < w.channels.size) {tickets : Table Ticket}
    (ht : ∀ x ∈ tickets, w.Issued x.2) :
    Steady { w with channelNames := channelNames, tickets := tickets } D :=
  h.rename w.walking tickets ((h.point.wellNamed (.idle w)).channels hc w.walking ht)
    h.quiet.named h.quiet.names h.quiet.held

/-! ## Cursors -/

/-- Cursors come and go, of sets that have a name. -/
theorem Steady.cursors (h : w.Steady D) {cursors : Table Cursor} (walking : List SetId)
    (hc : ∀ x ∈ cursors, w.isNamed x.2.set) :
    Steady { w with cursors := cursors, walking := walking } D := by
  refine h.rename walking w.tickets ?_ h.quiet.named h.quiet.names hc
  refine (h.point.wellNamed (.idle w)).cursors walking fun x hx => .inr ⟨?_, ?_⟩
  · obtain ⟨y, hy, hyx⟩ := List.any_eq_true.mp (hc x hx)
    have hlt := lt_size_of_isLive (h.quiet.named y hy)
    rw [of_decide_eq_true hyx] at hlt
    exact ⟨hlt, fun _ => h.quiet.weakSets _ hlt⟩
  · simp [Scene.Spares, Scene.idle]

/-- A set that has a name stays when a cursor goes. -/
theorem retire_of_isNamed (hn : w.isNamed s) : w.retire s = w := by
  rw [retire, if_pos]
  simp [isHeld, hn]

theorem Steady.putCursor_eq (h : w.Steady D) (name : String) (c : Cursor) :
    w.putCursor name c = { w with cursors := w.cursors.put name c } := by
  rw [putCursor]
  rcases ho : w.cursors.find? name with _ | old
  · rfl
  · exact retire_of_isNamed (h.quiet.held _ (Table.mem_of_find? ho))

theorem find?_cursors_registry (w : World) (name : String) :
    w.registry.cursors.find? name = (w.cursors.find? name).map Cursor.aim :=
  Table.find?_mapValues Cursor.aim w.cursors name

theorem registry_eraseCursor (w : World) (name : String) (walking : List SetId) :
    World.registry { w with cursors := w.cursors.erase name, walking := walking } =
      { w.registry with cursors := w.registry.cursors.erase name } :=
  Registry.ext rfl rfl (Table.mapValues_erase Cursor.aim w.cursors name) rfl rfl

theorem Steady.takeCursor (h : w.Steady D) (name : String) (c : Cursor) :
    (w.takeCursor name c).Steady D :=
  h.cursors _ fun x hx => h.quiet.held x (Table.mem_of_mem_erase hx)

theorem Steady.putCursor (h : w.Steady D) (name : String) {c : Cursor} (hn : w.isNamed c.set) :
    (w.putCursor name c).Steady D ∧
      (w.putCursor name c).registry = w.registry.aim name c.set c.last? := by
  rw [h.putCursor_eq]
  refine ⟨h.cursors w.walking fun x hx => ?_,
    Registry.ext rfl rfl (Table.mapValues_put Cursor.aim w.cursors name c) rfl rfl⟩
  rcases Table.mem_put hx with rfl | hx
  · exact hn
  · exact h.quiet.held x hx

theorem Steady.returnCursor (h : w.Steady D) (name : String) {c : Cursor} (hn : w.isNamed c.set) :
    (w.returnCursor name c).Steady D ∧
      (w.returnCursor name c).registry = w.registry.aim name c.set c.last? :=
  (h.cursors (w.walking.erase c.set) h.quiet.held).putCursor name hn

theorem Steady.dropCursor (h : w.Steady D) (name : String) {c : Cursor} (hn : w.isNamed c.set) :
    (w.dropCursor name c).Steady D ∧ (w.dropCursor name c).registry =
      { w.registry with cursors := w.registry.cursors.erase name } := by
  have he : w.dropCursor name c = { w with cursors := w.cursors.erase name } :=
    retire_of_isNamed hn
  rw [he]
  exact ⟨h.cursors w.walking fun x hx => h.quiet.held x (Table.mem_of_mem_erase hx),
    w.registry_eraseCursor name w.walking⟩

/-! ## Owners -/

/-- Owners change. -/
theorem Quiet.owners (hq : w.Quiet) (owners : Table ElementId) :
    Quiet { w with owners := owners } :=
  { hq with }

theorem Steady.own (h : w.Steady (.hold e ::ₘ D)) (hn : w.owners.find? name = none) :
    Steady { w with owners := w.owners.put name e } D :=
  h.moves (.single (.own (L := .idle) hn)) (h.quiet.owners _) fun t ht =>
    h.dealt t (Multiset.mem_cons_of_mem ht)

theorem Steady.disown (h : w.Steady D) (hn : w.owners.find? name = some e) :
    Steady { w with owners := w.owners.erase name } (.hold e ::ₘ D) :=
  h.moves (.single (.disown (L := .idle) hn)) (h.quiet.owners _) fun t ht => h.dealt t (by simpa using ht)

/-- Between commands the references to an element are those of its owners. -/
theorem Steady.strong_eq (h : w.Steady 0) (e : ElementId) : w.strong e = w.ownersOf e := by
  have hc := h.sane.counted.strong e
  have hands : w.handsOn e = 0 := by
    rw [handsOn, h.quiet.idle]
    rfl
  rwa [hands, Multiset.count_zero, Nat.add_zero] at hc

/-- An element is alive between commands if it has an owner. -/
theorem Steady.isAlive_iff (h : w.Steady 0) : w.isAlive e ↔ w.owners.any (·.2 = e) := by
  rw [World.isAlive_iff, h.strong_eq, ownersOf, List.countP_pos_iff, List.any_eq_true]

end World

namespace Registry

variable {r : Registry} {owners owners' : Table ElementId}

/-- Of each set the entries of elements that have an owner. -/
def keep (r : Registry) (owners : Table ElementId) : Registry :=
  { r with owners := owners, dict := fun s => (r.dict s).filter fun _ e => owners.any (·.2 = e) }

theorem dict_keep (r : Registry) (owners : Table ElementId) (s : SetId) :
    (r.keep owners).dict s = (r.dict s).filter fun _ e => owners.any (·.2 = e) :=
  rfl

/-- Every entry is of an element that has an owner. -/
structure Owned (r : Registry) : Prop where
  names : (r.owners.map Prod.fst).Nodup
  entries : ∀ s v e t, r.dict s v = some (e, t) → r.owners.any (·.2 = e)

theorem Owned.keep (hn : (owners.map Prod.fst).Nodup) : (r.keep owners).Owned where
  names := hn
  entries s v e t h := by
    rw [dict_keep, Dict.filter_eq_some] at h
    exact h.2

theorem Owned.keep_self (h : r.Owned) : r.keep r.owners = r := by
  refine Registry.ext rfl rfl rfl rfl (funext fun s => Dict.ext_iff.mpr fun v e t => ?_)
  rw [dict_keep, Dict.filter_eq_some]
  exact and_iff_left_of_imp (h.entries s v e t)

theorem keep_keep (h : ∀ x ∈ owners', x ∈ owners) :
    (r.keep owners).keep owners' = r.keep owners' := by
  refine Registry.ext rfl rfl rfl rfl (funext fun s => ?_)
  rw [dict_keep, dict_keep, dict_keep, Dict.filter_filter]
  refine Dict.filter_congr fun v e t _ => and_iff_right_of_imp fun he => ?_
  obtain ⟨x, hx, he⟩ := List.any_eq_true.mp he
  exact List.any_eq_true.mpr ⟨x, h x hx, he⟩

/-- When an owner goes the entries stay that still have one. -/
theorem Owned.disown (h : r.Owned) (hn : r.owners.find? name = some e) :
    r.disown name e = r.keep (r.owners.erase name) := by
  refine Registry.ext rfl rfl rfl rfl (funext fun s => ?_)
  rw [dict_keep]
  show (r.dict s).filter (fun _ e' => e' = e → (r.owners.erase name).any (·.2 = e)) = _
  refine Dict.filter_congr fun v e' t hm => ?_
  refine ⟨fun he => ?_, fun he hne => hne ▸ he⟩
  by_cases hne : e' = e
  · rw [hne]
    exact he hne
  · obtain ⟨x, hx, hxe⟩ := List.any_eq_true.mp (h.entries s v e' t hm)
    refine List.any_eq_true.mpr ⟨x, List.mem_filter.mpr ⟨hx, ?_⟩, hxe⟩
    rw [decide_eq_true_eq] at hxe ⊢
    intro hxn
    have hxe' : x = (name, e) :=
      List.inj_on_of_nodup_map h.names hx (Table.mem_of_find? hn) hxn
    exact hne (by rw [← hxe, hxe'])

end Registry

namespace World

/-- Between commands every entry is of an element that has an owner. -/
theorem Steady.owned (h : w.Steady 0) : w.registry.Owned where
  names := h.sane.counted.owners
  entries _ _ _ _ hm := h.isAlive_iff.mp (h.quiet.dict_eq_some.mp hm).alive

/-- When what was held is let go of, the entries stay that have an owner. -/
theorem Sheds.registry (hs : w.Sheds w') (h : w'.Steady 0) :
    w'.registry = w.registry.keep w.owners := by
  have hc : w'.registry.cursors = w.registry.cursors := congrArg (·.mapValues Cursor.aim) hs.cursors
  refine Registry.ext hs.owners hs.names hc hs.face (funext fun s => (hs.dict s).trans ?_)
  rw [Registry.dict_keep]
  refine Dict.filter_congr fun v e t _ => ?_
  rw [h.isAlive_iff, hs.owners]

/-! ## New elements -/

/-- An owner has an element that is alive. -/
theorem Steady.isAlive_of_owner (h : w.Steady D) {x : String × ElementId} (hx : x ∈ w.owners) :
    w.isAlive x.2 := by
  rw [World.isAlive_iff, h.sane.counted.strong]
  have : 0 < w.ownersOf x.2 := List.countP_pos_iff.mpr ⟨x, hx, by simp⟩
  omega

/-- The next element to be made is known to nobody. -/
theorem Steady.isNewElement (h : w.Steady D) : w.registry.IsNewElement w.cells.size := by
  refine ⟨fun x hx he => ?_, fun s v t hm => ?_⟩
  · exact absurd (lt_size_of_strong (World.isAlive_iff.mp (h.isAlive_of_owner hx)))
      (he ▸ Nat.lt_irrefl _)
  · obtain ⟨x, hx, he⟩ := (h.quiet.dict_eq_some.mp hm).handle
    exact absurd (h.sane.formed.fits t x hx).element (he ▸ Nat.lt_irrefl _)

/-- A new element with its owner. -/
theorem Steady.newElement (h : w.Steady D) (hn : w.owners.find? name = none) (v : Value) :
    Steady { (w.create ⟨⟨v, name⟩, none, none⟩).2 with
      owners := w.owners.put name w.cells.size } D :=
  Steady.own (w := (w.create ⟨⟨v, name⟩, none, none⟩).2) (h.create ⟨rfl, rfl⟩) hn

theorem Steady.registry_newElement (h : w.Steady D) (name : String) (v : Value) :
    registry { (w.create ⟨⟨v, name⟩, none, none⟩).2 with
      owners := w.owners.put name w.cells.size } =
    { w.registry with
      owners := w.owners.put name w.cells.size
      face := fun e => if e = w.cells.size then ⟨v, name⟩ else w.face e } := by
  refine Registry.ext rfl rfl rfl (funext fun e => ?_) (funext fun s => ?_)
  · have hx := element?_create w ⟨⟨v, name⟩, none, none⟩ e
    show (w.create ⟨⟨v, name⟩, none, none⟩).2.face e = if e = w.cells.size then ⟨v, name⟩ else w.face e
    by_cases he : e = w.cells.size
    · rw [if_pos he] at hx ⊢
      exact face_eq hx
    · rw [if_neg he] at hx ⊢
      exact face_congr hx
  · exact h.quiet.dict_create h.sane ⟨rfl, rfl⟩ s

end World

end WeakSet
