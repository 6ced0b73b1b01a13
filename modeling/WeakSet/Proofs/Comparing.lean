import WeakSet.Proofs.Commands
import WeakSet.Proofs.Visibility
import Mathlib.Algebra.BigOperators.Group.Finset.Basic
import Mathlib.Data.UInt

/-!
# Equality and hash of sets

Where nobody's code runs, two sets are equal exactly if they are the same or, once both were swept, all
their handles show their elements and they show the same values. That a comparison counts the handles
and looks one way only comes to this because no two handles of a set show the same value
(`World.size_eq_and_subset_iff`). The hash of a set is the sum of the hashes of the values that it shows
after a sweep, whatever their order.

A comparison sweeps and looks up, and neither changes what sweeps of the sets would leave
(`World.SameView`).
-/

namespace WeakSet

open Act Duties

namespace World

variable {w w' w'' : World} {S : List SetId} {s a b c : SetId} {v : Value} {e : ElementId} {D D' : Duties}

/-! ## Values that are shown -/

/-- The values that the handles of a set show. -/
def values (w : World) (s : SetId) : Finset Value :=
  ((w.sights s).map w.value).toFinset

/-- Every handle of a set shows its element. -/
def AllShow (w : World) (s : SetId) : Prop :=
  ∀ t h, t.owner = s → w.handle? t = some h → w.shows h

theorem mem_values :
    v ∈ w.values s ↔ ∃ t h, t.owner = s ∧ w.handle? t = some h ∧ w.shows h ∧ w.value h.element = v := by
  simp only [values, sights, shown, List.mem_toFinset, List.mem_map, List.mem_filter, Prod.exists]
  constructor
  · rintro ⟨_, ⟨h, ⟨⟨t, _, hm, rfl⟩, hs⟩, rfl⟩, hv⟩
    obtain ⟨ho, hh⟩ := mem_ticketsOf.mp hm
    exact ⟨t, _, ho, hh, hs, hv⟩
  · rintro ⟨t, h, ho, hh, hs, hv⟩
    exact ⟨_, ⟨h, ⟨⟨t, h, mem_ticketsOf.mpr ⟨ho, hh⟩, rfl⟩, hs⟩, rfl⟩, hv⟩

theorem values_subset_iff : w.values a ⊆ w.values b ↔ ∀ e ∈ w.sights a, w.value e ∈ w.values b := by
  simp only [Finset.subset_iff, values, List.mem_toFinset, List.forall_mem_map]

theorem length_sights_le (w : World) (s : SetId) : (w.sights s).length ≤ w.size s := by
  rw [sights, shown, List.length_map, ← length_ticketsOf, ← List.length_map Prod.snd]
  exact List.length_filter_le _ _

/-- A set with the same handles has as many. -/
theorem size_congr (h : ∀ t, t.owner = s → w'.handle? t = w.handle? t) : w'.size s = w.size s := by
  rw [← length_ticketsOf, ← length_ticketsOf]
  have hn := fun w : World => List.Nodup.of_map Prod.fst (w.nodup_ticketsOf s)
  refine ((List.perm_ext_iff_of_nodup (hn w') (hn w)).mpr ?_).length_eq
  rintro ⟨t, x⟩
  rw [mem_ticketsOf, mem_ticketsOf]
  exact and_congr_right fun ho => by rw [h t ho]

/-- As many elements are shown as there are handles if all show theirs. -/
theorem length_sights_eq_iff : (w.sights s).length = w.size s ↔ w.AllShow s := by
  rw [sights, shown, List.length_map, ← length_ticketsOf, ← List.length_map Prod.snd,
    List.length_filter_eq_length_iff]
  constructor
  · intro h t x ho hx
    exact h x (List.mem_map.mpr ⟨(t, x), mem_ticketsOf.mpr ⟨ho, hx⟩, rfl⟩)
  · intro h x hx
    obtain ⟨⟨t, x⟩, hm, rfl⟩ := List.mem_map.mp hx
    obtain ⟨ho, hh⟩ := mem_ticketsOf.mp hm
    exact h t x ho hh

theorem all_shows_iff : ((w.ticketsOf s).map Prod.snd).all w.shows ↔ w.AllShow s := by
  rw [← length_sights_eq_iff, sights, shown, List.length_map, ← length_ticketsOf,
    ← List.length_map Prod.snd, List.length_filter_eq_length_iff, List.all_eq_true]

/-- No two handles of a set show the same value. -/
theorem nodup_values (hd : w.Distinct) (s : SetId) : ((w.sights s).map w.value).Nodup := by
  have hn : (w.ticketsOf s).Nodup := .of_map Prod.fst (w.nodup_ticketsOf s)
  have he : (w.sights s).map w.value =
      ((w.ticketsOf s).filter fun x => w.shows x.2).map fun x => w.value x.2.element := by
    rw [sights, shown, List.filter_map, List.map_map, List.map_map]
    rfl
  rw [he]
  refine (hn.filter _).map_on ?_
  rintro ⟨t, x⟩ hx ⟨t', x'⟩ hx' hv
  obtain ⟨hm, hs⟩ := List.mem_filter.mp hx
  obtain ⟨hm', hs'⟩ := List.mem_filter.mp hx'
  obtain ⟨ho, hh⟩ := mem_ticketsOf.mp hm
  obtain ⟨ho', hh'⟩ := mem_ticketsOf.mp hm'
  simp only [shows, Bool.and_eq_true, decide_eq_true_eq] at hs hs'
  obtain rfl := hd t t' x x' (ho.trans ho'.symm) hh hh' hs.1 hs'.1 hs.2 hs'.2 hv
  obtain rfl := Option.some.inj (hh.symm.trans hh')
  rfl

theorem card_values (hd : w.Distinct) (s : SetId) : (w.values s).card = (w.sights s).length := by
  rw [values, List.toFinset_card_of_nodup (nodup_values hd s), List.length_map]

/-- Counting and looking one way is enough. -/
theorem size_eq_and_subset_iff (hd : w.Distinct) :
    (w.size a = w.size b ∧ w.AllShow a ∧ w.values a ⊆ w.values b) ↔
      w.AllShow a ∧ w.AllShow b ∧ w.values a = w.values b := by
  have ha := card_values hd a
  have hb := card_values hd b
  constructor
  · rintro ⟨hsize, hall, hsub⟩
    have hlen := length_sights_eq_iff.mpr hall
    have hle := w.length_sights_le b
    have heq := Finset.eq_of_subset_of_card_le hsub (by omega)
    refine ⟨hall, length_sights_eq_iff.mp ?_, heq⟩
    rw [← hb, ← heq, ha, hlen, hsize]
  · rintro ⟨hall, hall', heq⟩
    refine ⟨?_, hall, heq.subset⟩
    rw [← length_sights_eq_iff.mpr hall, ← length_sights_eq_iff.mpr hall', ← ha, ← hb, heq]

/-! ## What sweeps leave -/

/-- A sweep leaves a set with a handle that shows a value. -/
def Leaves (w : World) (s : SetId) (v : Value) : Prop :=
  ∃ t h, t.owner = s ∧ w.left? t = some h ∧ w.shows h ∧ w.value h.element = v

/-- A sweep leaves a set with no handle that does not show its element. -/
def LeavesAllShown (w : World) (s : SetId) : Prop :=
  ∀ t h, t.owner = s → w.left? t = some h → w.shows h

/-- Sweeps leave two sets with the same values, and with handles that all show theirs. -/
structure Matches (w : World) (a b : SetId) : Prop where
  left : w.LeavesAllShown a
  right : w.LeavesAllShown b
  values : ∀ v, w.Leaves a v ↔ w.Leaves b v

theorem Matches.symm (h : w.Matches a b) : w.Matches b a :=
  ⟨h.right, h.left, fun v => (h.values v).symm⟩

theorem Matches.trans (h : w.Matches a b) (h' : w.Matches b c) : w.Matches a c :=
  ⟨h.left, h'.right, fun v => (h.values v).trans (h'.values v)⟩

theorem Drained.leaves_iff (h : w.Drained s) : w.Leaves s v ↔ v ∈ w.values s := by
  rw [mem_values]
  refine exists_congr fun t => exists_congr fun x => and_congr_right fun ho => ?_
  rw [h.left? ho]

theorem Drained.leavesAllShown_iff (h : w.Drained s) : w.LeavesAllShown s ↔ w.AllShow s := by
  refine forall_congr' fun t => forall_congr' fun x => forall_congr' fun ho => ?_
  rw [h.left? ho]

/-- Sets that can be compared in a world without anybody's code running. -/
structure Comparable (w : World) (S : List SetId) : Prop where
  unhooked : w.Unhooked
  made : ∀ s ∈ S, s < w.sets.size
  plain : ∀ s ∈ S, (w.collection s).listener.IsPlain
  apart : ∀ s ∈ S, ∀ s' ∈ S, w.channelOf s = w.channelOf s' → s = s'

theorem comparable_iff : w.Comparable S ↔
    w.Unhooked ∧ (∀ s ∈ S, s < w.sets.size) ∧ (∀ s ∈ S, (w.collection s).listener.IsPlain) ∧
      ∀ s ∈ S, ∀ s' ∈ S, w.channelOf s = w.channelOf s' → s = s' :=
  ⟨fun h => ⟨h.unhooked, h.made, h.plain, h.apart⟩, fun ⟨hu, hm, hp, ha⟩ => ⟨hu, hm, hp, ha⟩⟩

instance (w : World) (S : List SetId) : Decidable (w.Comparable S) :=
  decidable_of_iff _ comparable_iff.symm

/-- Between two worlds what sweeps of sets `S` leave stays as it is, and elements do. -/
structure SameView (S : List SetId) (w w' : World) : Prop where
  entered : w'.entered = w.entered
  sets : w'.sets.size = w.sets.size
  mould : ∀ s, (w'.collection s).mould = (w.collection s).mould
  element : ∀ e, w'.element? e = w.element? e
  isAlive : ∀ e, w'.isAlive e = w.isAlive e
  left : ∀ t, t.owner ∈ S → w'.left? t = w.left? t
  drained : ∀ s ∈ S, w.Drained s → w'.Drained s

namespace SameView

theorem trans (h : SameView S w w') (h' : SameView S w' w'') : SameView S w w'' where
  entered := h'.entered.trans h.entered
  sets := h'.sets.trans h.sets
  mould s := (h'.mould s).trans (h.mould s)
  element e := (h'.element e).trans (h.element e)
  isAlive e := (h'.isAlive e).trans (h.isAlive e)
  left t ht := (h'.left t ht).trans (h.left t ht)
  drained s hs hd := h'.drained s hs (h.drained s hs hd)

theorem value (h : SameView S w w') (e : ElementId) : w'.value e = w.value e :=
  value_congr (h.element e)

theorem target (h : SameView S w w') (q : Query) : q.target w' = q.target w :=
  target_congr h.element q

theorem shows (h : SameView S w w') (x : Handle) : w'.shows x = w.shows x := by
  rw [World.shows, World.shows, h.isAlive]

theorem leaves_iff (h : SameView S w w') (hs : s ∈ S) : w'.Leaves s v ↔ w.Leaves s v := by
  refine exists_congr fun t => exists_congr fun x => and_congr_right fun ho => ?_
  rw [h.left t (ho ▸ hs), h.shows, h.value]

theorem leavesAllShown_iff (h : SameView S w w') (hs : s ∈ S) :
    w'.LeavesAllShown s ↔ w.LeavesAllShown s := by
  refine forall_congr' fun t => forall_congr' fun x => forall_congr' fun ho => ?_
  rw [h.left t (ho ▸ hs), h.shows]

/-- References come. -/
theorem of_counts {es : List ElementId} (h : w.SameButCounts w') (hf : Framed s es w w') :
    SameView S w w' := by
  have hsets : w'.sets = w.sets := by rw [h.rest]
  have hcol := collection_congr hsets
  have hch : w'.channels = w.channels := by rw [h.rest]
  have hn : ∀ s, (w'.takeNotices s).1 = (w.takeNotices s).1 := fun s => by
    rw [takeNotices_fst, takeNotices_fst, channelOf, channelOf, hcol, hch]
  refine ⟨by rw [h.rest], by rw [hsets], fun s => by rw [hcol], h.element, hf.isAlive, fun t _ => ?_,
    fun s _ hd => (hn s).trans hd⟩
  rw [left?, left?, hn, handle?_congr hsets]

end SameView

theorem Comparable.congr (h : w.Comparable S) (hv : SameView S w w') : w'.Comparable S where
  unhooked := h.unhooked.congr hv.element
  made s hs := hv.sets ▸ h.made s hs
  plain s hs := by
    rw [Collection.listener_eq (hv.mould s)]
    exact h.plain s hs
  apart s hs s' hs' hc := by
    rw [channelOf_eq (hv.mould s), channelOf_eq (hv.mould s')] at hc
    exact h.apart s hs s' hs' hc

/-- A world of a run in which sets are compared. -/
structure Comparing (w : World) (S : List SetId) (D : Duties) : Prop extends w.Comparable S where
  point : w.Point D
  unlocked : w.entered = []

theorem Comparing.congr (h : w.Comparing S D) (hv : SameView S w w') (hp : w'.Point D') :
    w'.Comparing S D' :=
  ⟨h.toComparable.congr hv, hp, hv.entered.trans h.unlocked⟩

theorem Comparing.notMem_entered (h : w.Comparing S D) (s : SetId) : s ∉ w.entered := by
  simp [h.unlocked]

end World

open World

section

variable {run : Runner} {w : World} {S : List SetId} {s a b : SetId} {D : Duties}

/-! ## Sweeps and lookups -/

/-- The world after a sweep of a set. -/
def World.swept (run : Runner) (s : SetId) (w : World) : World :=
  ((sweep run s).exec w).2

variable (hr : run.Sound)

include hr

theorem World.Comparing.swept (h : w.Comparing S D) (hs : s ∈ S) :
    (discard (sweep run s)).exec w = (.ok (), w.swept run s) ∧ (w.swept run s).Comparing S D ∧
      SameView S w (w.swept run s) ∧ (w.swept run s).Drained s := by
  obtain ⟨n, w', hx, hf, hh, hc⟩ := exec_sweep_plain run (h.plain s hs) (h.notMem_entered s)
  have hch : ∀ s, w'.channelOf s = w.channelOf s := fun s => channelOf_eq (hf.mould s)
  have hd : w'.Drained s := drained_of_channels (hch s) hc
  have hne : ∀ s' ∈ S, s' ≠ s → (w'.takeNotices s').1 = (w.takeNotices s').1 := fun s' hs' hne =>
    takeNotices_fst_of_ne (hch s') (fun he => hne (h.apart s' hs' s hs he)) hc
  have hv : SameView S w w' := by
    refine ⟨by rw [hf.rest], hf.sets, hf.mould, hf.element, hf.isAlive, fun t ht => ?_, fun s' hs' hd' => ?_⟩
    · by_cases ho : t.owner = s
      · rw [hd.left? ho, hh t ho]
      · rw [left?, left?, hne _ ht ho, hf.handles t ho]
    · by_cases he : s' = s
      · exact he ▸ hd
      · exact (hne s' hs' he).trans hd'
  have hcourse := (balanced_sweep hr (h.made s hs)).ok hx h.point (.idle w)
  rw [exec_discard, World.swept, hx]
  exact ⟨rfl, h.congr hv (hcourse.point h.point), hv, hd⟩

theorem World.Comparing.exec_contains (h : w.Comparing S D) (hs : s ∈ S) (q : Query) :
    ∃ r w', (contains run s q).exec w = (.ok r, w') ∧ w'.Comparing S D ∧ SameView S w w' ∧
      (r = true ↔ w.Leaves s (q.target w)) := by
  obtain ⟨hx, h', hv, hd⟩ := h.swept hr hs
  have hfind := exec_lookup run h'.unhooked (h'.notMem_entered s) q
  refine ⟨((w.swept run s).hit s (q.target (w.swept run s))).isSome, w.swept run s, ?_, h', hv, ?_⟩
  · rw [contains, exec_map, ticketOf, exec_bind_ok hx, hfind]
    exact Prod.ext (congrArg Except.ok Option.isSome_map) rfl
  · rw [hit_isSome h'.point.formed, ← mem_values, ← hd.leaves_iff, hv.leaves_iff hs, hv.target]

/-- Whether a set contains all of some elements. -/
theorem World.Comparing.exec_allOf_contains (h : w.Comparing S D) (hs : s ∈ S) (es : List ElementId) :
    ∃ r w', (allOf (fun e => contains run s (.element e)) es).exec w = (.ok r, w') ∧
      (r = true ↔ ∀ e ∈ es, w.Leaves s (w.value e)) := by
  induction es generalizing w with
  | nil => exact ⟨true, w, rfl, by simp⟩
  | cons e es ih =>
    obtain ⟨r, w₁, h₁, hw₁, hv, hr₁⟩ := h.exec_contains hr hs (.element e)
    rw [allOf, exec_bind_ok h₁]
    cases r with
    | false =>
      have hn : ¬ w.Leaves s (w.value e) := fun hl => absurd (hr₁.mpr hl) (by simp)
      exact ⟨false, w₁, rfl, by simp [hn]⟩
    | true =>
      obtain ⟨r, w₂, h₂, hr₂⟩ := ih hw₁
      refine ⟨r, w₂, h₂, ?_⟩
      simp only [hv.leaves_iff hs, hv.value] at hr₂
      rw [hr₂, List.forall_mem_cons]
      exact (and_iff_right (hr₁.mp rfl)).symm

theorem World.Comparing.exec_length (h : w.Comparing S D) (hs : s ∈ S) :
    (length run s).exec w = (.ok ((w.swept run s).size s), w.swept run s) := by
  obtain ⟨hx, h', -, -⟩ := h.swept hr hs
  rw [length, exec_bind_ok hx, exec_count (h'.notMem_entered s)]

/-- What a set shows is held. -/
theorem World.Comparing.exec_reachable (h : w.Comparing S D) (s : SetId) :
    ∃ w', (reachable run s).exec w =
        (.ok (w.sights s, ((w.ticketsOf s).map Prod.snd).all w.shows), w') ∧
      w'.Comparing S (holds (w.sights s) + D) ∧ SameView S w w' := by
  obtain ⟨w', hx, hs, hf⟩ := WeakSet.exec_reachable run (h.notMem_entered s)
  have hv : SameView S w w' := .of_counts hs hf
  have hcourse := (leads_reachable hr).ok hx h.point (.idle w)
  exact ⟨w', hx, h.congr hv (hcourse.point h.point), hv⟩

/-! ## Comparing and hashing -/

/-- A comparison decides by the values that the sets show after sweeps. -/
theorem World.Comparing.exec_sameSets (h : w.Comparing S D) (ha : a ∈ S) (hb : b ∈ S) (hne : a ≠ b) :
    ∃ r, ((sameSets run a b).exec w).1 = .ok r ∧ (r = true ↔
      ((w.swept run a).swept run b).AllShow a ∧ ((w.swept run a).swept run b).AllShow b ∧
        ((w.swept run a).swept run b).values a = ((w.swept run a).swept run b).values b) := by
  obtain ⟨-, h₁, -, hd₁⟩ := h.swept hr ha
  obtain ⟨-, h₂, hv₂, hd₂⟩ := h₁.swept hr hb
  have hlength := h₁.exec_length hr hb
  rw [sameSets, if_neg hne, exec_bind_ok (h.exec_length hr ha), exec_bind_ok hlength]
  generalize (w.swept run a).swept run b = v at h₂ hv₂ hd₂
  have hd₂' := hv₂.drained a ha hd₁
  have hsize : v.size a = (w.swept run a).size a := size_congr fun t ho => by
    rw [← hd₁.left? ho, ← hd₂'.left? ho, hv₂.left t (ho ▸ ha)]
  rw [← hsize, ← size_eq_and_subset_iff h₂.point.distinct]
  by_cases hn : v.size a = v.size b
  · obtain ⟨w₃, hx₃, h₃, hv₃⟩ := h₂.exec_reachable hr a
    rw [if_neg (not_not.mpr hn), exec_bind_ok hx₃]
    simp only
    rw [exec_holding_fst]
    by_cases hall : v.AllShow a
    · obtain ⟨r, w₄, hx₄, hr₄⟩ := h₃.exec_allOf_contains hr hb (v.sights a)
      rw [if_pos (all_shows_iff.mpr hall), hx₄]
      refine ⟨r, rfl, hr₄.trans ?_⟩
      simp only [hv₃.leaves_iff hb, hd₂.leaves_iff, hv₃.value]
      rw [← values_subset_iff]
      exact ⟨fun hsub => ⟨hn, hall, hsub⟩, fun h => h.2.2⟩
    · rw [if_neg fun hs => hall (all_shows_iff.mp hs)]
      exact ⟨false, rfl, by simp [hall]⟩
  · rw [if_pos hn]
    exact ⟨false, rfl, by simp [hn]⟩

/-- What the values after both sweeps say of what the sweeps leave. -/
theorem World.Comparing.matches_iff (h : w.Comparing S D) (ha : a ∈ S) (hb : b ∈ S) :
    (((w.swept run a).swept run b).AllShow a ∧ ((w.swept run a).swept run b).AllShow b ∧
        ((w.swept run a).swept run b).values a = ((w.swept run a).swept run b).values b) ↔
      w.Matches a b := by
  obtain ⟨-, h₁, hv₁, hd₁⟩ := h.swept hr ha
  obtain ⟨-, -, hv₂, hd₂⟩ := h₁.swept hr hb
  have hd₂' := hv₂.drained a ha hd₁
  have hv := hv₁.trans hv₂
  rw [← hd₂.leavesAllShown_iff, ← hd₂'.leavesAllShown_iff, hv.leavesAllShown_iff ha,
    hv.leavesAllShown_iff hb, Finset.ext_iff]
  simp only [← hd₂.leaves_iff, ← hd₂'.leaves_iff, hv.leaves_iff ha, hv.leaves_iff hb]
  exact ⟨fun ⟨hl, hr, hv⟩ => ⟨hl, hr, hv⟩, fun h => ⟨h.left, h.right, h.values⟩⟩

/-- Two sets compare as equal exactly if they are one or sweeps leave them alike. -/
theorem World.Comparing.sameSets_iff (h : w.Comparing S D) (ha : a ∈ S) (hb : b ∈ S) :
    ((sameSets run a b).exec w).1 = .ok true ↔ a = b ∨ w.Matches a b := by
  by_cases he : a = b
  · rw [sameSets, if_pos he]
    exact iff_of_true rfl (.inl he)
  · obtain ⟨r, hx, hm⟩ := h.exec_sameSets hr ha hb he
    rw [hx, ← h.matches_iff hr ha hb, ← hm]
    simp [he]

/-- Sets that sweeps leave alike hash alike. -/
theorem World.Comparing.values_eq (h : w.Comparing S D) (ha : a ∈ S) (hb : b ∈ S) (hm : w.Matches a b) :
    (w.swept run a).values a = (w.swept run b).values b := by
  obtain ⟨-, -, hv₁, hd₁⟩ := h.swept hr ha
  obtain ⟨-, -, hv₂, hd₂⟩ := h.swept hr hb
  ext v
  rw [← hd₁.leaves_iff, ← hd₂.leaves_iff, hv₁.leaves_iff ha, hv₂.leaves_iff hb]
  exact hm.values v

/-- The hash of a set is the sum of those of the values that it shows after a sweep. -/
theorem World.Comparing.exec_hashOf (h : w.Comparing S D) (hs : s ∈ S) :
    ((WeakSet.hashOf run s).exec w).1 = .ok (∑ v ∈ (w.swept run s).values s, valueHash v) := by
  obtain ⟨hx, h₁, -, -⟩ := h.swept hr hs
  obtain ⟨w₂, hx₂, -, hv₂⟩ := h₁.exec_reachable hr s
  rw [WeakSet.hashOf, exec_bind_ok hx, exec_bind_ok hx₂]
  simp only
  rw [exec_holding_fst, exec_look, values, List.sum_toFinset _ (nodup_values h₁.point.distinct s),
    List.map_map, List.sum_eq_foldl, List.foldl_map]
  simp only [hv₂.value]
  rfl

end

namespace Session

/-- Sets compare by the values that they show. Whatever commands a client has carried out, if no element has
code that runs in comparisons, then of sets whose listeners have no scripts and no two of which have one
channel:

* two are equal exactly if they are one or, after both were swept, all their handles show their elements
  and they show the same values;
* so to be equal is reflexive, symmetric and transitive;
* the hash of a set is the sum of the hashes of the values that it shows after a sweep, and equal sets
  have equal hashes. -/
theorem sets_compare_by_values (depth : Nat) (cs : List Command) (S : List SetId) :
    let w := carryOutAll depth .empty cs
    let run := runner depth
    let same := fun a b => ((sameSets run a b).exec w).1
    let hash := fun s => ((hashOf run s).exec w).1
    w.Comparable S →
      (∀ a ∈ S, ∀ b ∈ S, ∃ r, same a b = .ok r ∧ (r = true ↔ a = b ∨
        let v := (w.swept run a).swept run b
        v.AllShow a ∧ v.AllShow b ∧ v.values a = v.values b)) ∧
      (∀ a ∈ S, same a a = .ok true) ∧
      (∀ a ∈ S, ∀ b ∈ S, same a b = .ok true → same b a = .ok true) ∧
      (∀ a ∈ S, ∀ b ∈ S, ∀ c ∈ S, same a b = .ok true → same b c = .ok true → same a c = .ok true) ∧
      (∀ a ∈ S, hash a = .ok (∑ v ∈ (w.swept run a).values a, valueHash v)) ∧
      ∀ a ∈ S, ∀ b ∈ S, same a b = .ok true → hash a = hash b := by
  intro w run same hash hS
  have hr : run.Sound := sound_runner depth
  have hp : w.Point 0 := point_carryOutAll depth cs
  have h : w.Comparing S 0 := ⟨hS, hp, hp.unlocked⟩
  have hsame {a b : SetId} (ha : a ∈ S) (hb : b ∈ S) : same a b = .ok true ↔ a = b ∨ w.Matches a b :=
    h.sameSets_iff hr ha hb
  refine ⟨fun a ha b hb => ?_, fun a ha => (hsame ha ha).mpr (.inl rfl), fun a ha b hb hab => ?_,
    fun a ha b hb c hc hab hbc => ?_, fun a ha => h.exec_hashOf hr ha, fun a ha b hb hab => ?_⟩
  · by_cases he : a = b
    · exact ⟨true, (hsame ha hb).mpr (.inl he), iff_of_true rfl (.inl he)⟩
    · obtain ⟨r, hx, hm⟩ := h.exec_sameSets hr ha hb he
      exact ⟨r, hx, hm.trans (or_iff_right he).symm⟩
  · exact (hsame hb ha).mpr (((hsame ha hb).mp hab).imp Eq.symm Matches.symm)
  · rcases (hsame ha hb).mp hab with rfl | hab
    · exact hbc
    · rcases (hsame hb hc).mp hbc with rfl | hbc
      · exact (hsame ha hb).mpr (.inr hab)
      · exact (hsame ha hc).mpr (.inr (hab.trans hbc))
  · rcases (hsame ha hb).mp hab with rfl | hm
    · rfl
    · change ((hashOf run a).exec w).1 = ((hashOf run b).exec w).1
      rw [h.exec_hashOf hr ha, h.exec_hashOf hr hb, h.values_eq hr ha hb hm]

/-- Two sets that hash and shard in ways of their own get two elements in different orders. One of them
loses an element that ended, the other had one removed. -/
def comparedRun : List Command :=
  [.newChannel "c" (.ok .queue), .newChannel "d" (.ok .queue),
    .build "s" (.ok ⟨{ capacity := 4, concurrency := 1 }, some "c", .constant 7, .silent⟩),
    .build "t" (.ok ⟨{ capacity := 4, concurrency := 2 }, some "d", .identity, .silent⟩),
    .new "x" (.number 1) none none, .new "y" (.number 2) none none, .new "z" (.number 3) none none,
    .add "s" "x", .add "s" "z", .add "s" "y", .remove "s" (.owner "z"),
    .add "t" "z", .add "t" "y", .add "t" "x", .drop ["z"]]

/-- The sets are equal both ways, and hash alike. -/
theorem sets_compare_by_values_differing :
    let w := carryOutAll 0 .empty comparedRun
    w.Comparable [0, 1] ∧ w.size 0 ≠ w.size 1 ∧ ((sameSets (runner 0) 0 1).exec w).1 = .ok true ∧
      ((sameSets (runner 0) 1 0).exec w).1 = .ok true ∧
      ((hashOf (runner 0) 0).exec w).1 = ((hashOf (runner 0) 1).exec w).1 := by
  intro w
  have hw : w.Comparable [0, 1] := by decide +kernel
  have h := sets_compare_by_values 0 comparedRun [0, 1] hw
  have hsame : ((sameSets (runner 0) 0 1).exec w).1 = .ok true := by decide +kernel
  exact ⟨hw, by decide +kernel, hsame, h.2.2.1 0 (by simp) 1 (by simp) hsame,
    h.2.2.2.2.2 0 (by simp) 1 (by simp) hsame⟩

end Session

end WeakSet
