import WeakSet.Proofs.Distinct

/-!
# Walking through a set that changes

A step of a cursor is a few *deeds*: it takes the keys of a shard, looks keys up in vain, returns an
element, panics, or finds that nothing is left (`Cursor.Does`, `Cursor.exists_does`). The life of a
cursor is a *tour*: it is made, it makes steps, it may take out what it returned last, and meanwhile
anything may happen (`Cursor.Tour`).

Each deed keeps what there is to say of the tour so far (`Cursor.Kept`): the shards were listed in
order, each once; every ticket that was listed was looked at once or is pending; and what was looked
at and not returned is spent, for good. From this follows that iteration is weakly consistent
(`Cursor.tour_consistent`).
-/

namespace WeakSet

open Act Duties

variable {run : Runner} {w w' v : World} {D D' : Duties} {s : SetId} {t : Ticket}

namespace Cursor

/-! ## Deeds -/

/-- What a cursor does, one thing at a time. -/
inductive Deed where
  /-- It takes the keys of a shard. -/
  | list (k : Nat)
  /-- It looks a key up, in vain. -/
  | pass (t : Ticket)
  /-- It looks a key up, in vain, and the sweep after that panics. -/
  | fail (t : Ticket) (p : Panic)
  /-- It looks a key up and returns the element. -/
  | give (t : Ticket) (e : ElementId)
  /-- It finds that nothing is left. -/
  | finish

namespace Deed

def shard? : Deed → Option Nat
  | list k => some k
  | _ => none

/-- The ticket that was looked at. -/
def ticket? : Deed → Option Ticket
  | pass t | fail t _ | give t _ => some t
  | _ => none

def given? : Deed → Option (Ticket × ElementId)
  | give t e => some (t, e)
  | _ => none

/-- What the caller of a step is told, if the step ends with the deed. -/
def answer? : Deed → Option (Except Panic (Option ElementId))
  | fail _ p => some (.error p)
  | give _ e => some (.ok (some e))
  | finish => some (.ok none)
  | _ => none

/-- Whether a step ends with the deed, and is not the last. -/
def isStop : Deed → Bool
  | fail .. | give .. => true
  | _ => false

end Deed

/-- Deeds in order, each with the world after it. -/
abbrev Deeds := List (Deed × World)

/-- The shards whose keys were taken, and the worlds in which that was. -/
def listings (l : Deeds) : List (Nat × World) :=
  l.filterMap fun x => x.1.shard?.map fun k => (k, x.2)

/-- The tickets that were looked at. -/
def looked (l : Deeds) : List Ticket :=
  l.filterMap fun x => x.1.ticket?

/-- The tickets and elements that were returned. -/
def given (l : Deeds) : List (Ticket × ElementId) :=
  l.filterMap fun x => x.1.given?

def answers (l : Deeds) : List (Except Panic (Option ElementId)) :=
  l.filterMap fun x => x.1.answer?

/-- The tickets that there were in the shards of set `s` when their keys were taken. -/
def listed (s : SetId) (l : Deeds) : List Ticket :=
  (listings l).flatMap fun x => (x.2.ticketsIn s x.1).map Prod.fst

theorem mem_listings {l : Deeds} {k : Nat} : (k, v) ∈ listings l ↔ (.list k, v) ∈ l := by
  simp only [listings, List.mem_filterMap, Option.map_eq_some_iff, Prod.mk.injEq]
  constructor
  · rintro ⟨⟨d, v'⟩, hm, k', hd, rfl, rfl⟩
    cases d <;> cases hd
    exact hm
  · exact fun hm => ⟨_, hm, k, rfl, rfl, rfl⟩

theorem mem_given {l : Deeds} {e : ElementId} : (t, e) ∈ given l ↔ ∃ v, (.give t e, v) ∈ l := by
  simp only [given, List.mem_filterMap]
  constructor
  · rintro ⟨⟨d, v⟩, hm, hd⟩
    cases d <;> cases hd
    exact ⟨v, hm⟩
  · rintro ⟨v, hm⟩
    exact ⟨_, hm, rfl⟩

theorem mem_listed {l : Deeds} :
    t ∈ listed s l ↔ ∃ k v, (.list k, v) ∈ l ∧ t.owner = s ∧ t.shard = k ∧ (v.handle? t).isSome := by
  simp only [listed, List.mem_flatMap, Prod.exists, World.mem_map_ticketsIn, mem_listings]

theorem length_listed (s : SetId) (l : Deeds) :
    (listed s l).length = ((listings l).map fun x => (x.2.shard s x.1).size).sum := by
  rw [listed, List.length_flatMap]
  refine congrArg List.sum (List.map_congr_left fun x _ => ?_)
  rw [List.length_map, World.length_ticketsIn]

section Snoc

variable (l : Deeds) (d : Deed) (v : World)

theorem listings_snoc :
    listings (l ++ [(d, v)]) = listings l ++ (d.shard?.map fun k => (k, v)).toList := by
  rw [listings, List.filterMap_append]
  cases d <;> rfl

theorem looked_snoc : looked (l ++ [(d, v)]) = looked l ++ d.ticket?.toList := by
  rw [looked, List.filterMap_append]
  cases d <;> rfl

theorem given_snoc : given (l ++ [(d, v)]) = given l ++ d.given?.toList := by
  rw [given, List.filterMap_append]
  cases d <;> rfl

theorem listed_snoc (s : SetId) : listed s (l ++ [(d, v)]) =
    listed s l ++ d.shard?.toList.flatMap fun k => (v.ticketsIn s k).map Prod.fst := by
  rw [listed, listings_snoc, List.flatMap_append]
  cases d <;> rfl

end Snoc

/-- What was returned was looked at, in the same order. -/
theorem given_sublist (l : Deeds) : ((given l).map Prod.fst).Sublist (looked l) := by
  induction l with
  | nil => exact .slnil
  | cons x l ih =>
    obtain ⟨d, v⟩ := x
    cases d with
    | list | finish => exact ih
    | pass | fail => exact ih.cons _
    | give => exact ih.cons_cons _

theorem countP_isStop_le (l : Deeds) : (l.countP fun x => x.1.isStop) ≤ (looked l).length := by
  rw [looked, List.length_filterMap_eq_countP]
  refine List.countP_mono_left fun x _ hx => ?_
  obtain ⟨d, v⟩ := x
  cases d <;> first | rfl | cases hx

/-- The deeds of one step in world `w`, what the step comes to, and the world after it. -/
inductive Does (run : Runner) : Cursor → World → Deeds → Step (Option ElementId) → World → Prop
  | finish {c : Cursor} {w : World} (hp : c.pending = []) (ha : c.ahead = []) :
      Does run c w [(.finish, w)] ⟨c, .ok none⟩ w
  | list {c : Cursor} {w w' : World} {k : Nat} {ks : List Nat} {l : Deeds}
      {x : Step (Option ElementId)} (hp : c.pending = []) (ha : c.ahead = k :: ks)
      (h : Does run { c with shard := k, ahead := ks, pending := (w.shard c.set k).keys } w l x w') :
      Does run c w ((.list k, w) :: l) x w'
  | pass {c : Cursor} {w w₁ w' : World} {key : SlotKey} {keys : List SlotKey} {l : Deeds}
      {x : Step (Option ElementId)} (hp : c.pending = key :: keys)
      (hv : (c.visit run key).exec w = (.ok none, w₁))
      (h : Does run { c with pending := keys } w₁ l x w') :
      Does run c w ((.pass ⟨c.set, c.shard, key⟩, w₁) :: l) x w'
  | fail {c : Cursor} {w w' : World} {key : SlotKey} {keys : List SlotKey} {p : Panic}
      (hp : c.pending = key :: keys) (hv : (c.visit run key).exec w = (.error p, w')) :
      Does run c w [(.fail ⟨c.set, c.shard, key⟩ p, w')] ⟨{ c with pending := keys }, .error p⟩ w'
  | give {c : Cursor} {w w' : World} {key : SlotKey} {keys : List SlotKey} {e : ElementId}
      (hp : c.pending = key :: keys) (hv : (c.visit run key).exec w = (.ok (some e), w')) :
      Does run c w [(.give ⟨c.set, c.shard, key⟩ e, w')]
        ⟨{ c with pending := keys, current := some key }, .ok (some e)⟩ w'

/-- A step answers once, by its last deed. -/
theorem Does.answers {c : Cursor} {l : Deeds} {x : Step (Option ElementId)}
    (h : Does run c w l x w') : answers l = [x.outcome] := by
  induction h with
  | list _ _ _ ih | pass _ _ _ ih => exact ih
  | finish | fail | give => rfl

/-! ## Steps are deeds -/

section Steps

variable (hr : run.Sound)

include hr

/-- A lock that was not taken is not taken after a visit. -/
theorem visit_unlocked {c : Cursor} {key : SlotKey} {r : Except Panic (Option ElementId)}
    (hw : w.Point D) (hc : c.set < w.sets.size) (hn : s ∉ w.entered)
    (hx : (c.visit run key).exec w = (r, w')) :
    ∃ D', Course .idle (w, D) (w', D') ∧ D' = due (fun e? => oneHeld e? + D) D r ∧
      s ∉ w'.entered := by
  have hcourse := leads_visit hr (L := .idle) (D := D) c hc key hw (.idle w)
  rw [hx] at hcourse
  refine ⟨_, hcourse, rfl, fun hm => ?_⟩
  have hd := (hcourse.point hw).mem_entered.mp hm
  have hd' : .leave s ∈ D := by
    rcases r with p | e?
    · exact hd
    · exact (Multiset.mem_add.mp hd).resolve_left (leave_not_mem_holds s _)
  exact hn (hw.mem_entered.mpr hd')

/-- What a step does with keys: it stops at one of them, or passes them all over. -/
theorem does_nextHere (c : Cursor) (hw : w.Point D) (hc : c.set < w.sets.size)
    (hn : c.set ∉ w.entered) (keys : List SlotKey) :
    ∃ x w', (c.nextHere run keys).exec w = (.ok x, w') ∧
      (x.outcome ≠ .ok none ∧ (∃ l, Does run { c with pending := keys } w l x w') ∨
        x = ⟨{ c with pending := [] }, .ok none⟩ ∧ w'.Point D ∧ c.set < w'.sets.size ∧
          c.set ∉ w'.entered ∧
          ∀ l y v, Does run { c with pending := [] } w' l y v →
            ∃ l', Does run { c with pending := keys } w l' y v) := by
  induction keys generalizing w with
  | nil => exact ⟨_, w, rfl, .inr ⟨rfl, hw, hc, hn, fun l y v h => ⟨l, h⟩⟩⟩
  | cons key keys ih =>
    rcases hx : (c.visit run key).exec w with ⟨r, w₁⟩
    have hx' : (({ c with pending := key :: keys } : Cursor).visit run key).exec w = (r, w₁) := hx
    obtain ⟨D₁, h₁, hD, hn₁⟩ := visit_unlocked hr hw hc hn hx
    rw [nextHere, exec_bind_ok (exec_attempt_eq_ok.mpr hx)]
    rcases r with p | _ | e
    · exact ⟨_, w₁, rfl, .inl ⟨nofun, _, .fail rfl hx'⟩⟩
    · have hD : D₁ = D := by rw [hD]; exact holds_toList_none D
      subst hD
      obtain ⟨x, w₂, h₂, hdoes⟩ := ih (h₁.point hw) (hc.trans_le (h₁.later hw.sane).sets) hn₁
      refine ⟨x, w₂, h₂, hdoes.imp ?_ ?_⟩
      · rintro ⟨ho, l, hl⟩
        exact ⟨ho, _, .pass rfl hx' hl⟩
      · rintro ⟨rfl, hw₂, hc₂, hn₂, hrest⟩
        refine ⟨rfl, hw₂, hc₂, hn₂, fun l y v h => ?_⟩
        obtain ⟨l', h'⟩ := hrest l y v h
        exact ⟨_, .pass rfl hx' h'⟩
    · exact ⟨_, w₁, rfl, .inl ⟨nofun, _, .give rfl hx'⟩⟩

theorem exists_does_ahead (c : Cursor) (hw : w.Point D) (hc : c.set < w.sets.size)
    (hn : c.set ∉ w.entered) (ks : List Nat) :
    ∃ x w' l, (c.nextAhead run ks).exec w = (.ok x, w') ∧ Does run { c with ahead := ks } w l x w' := by
  induction ks generalizing w c with
  | nil =>
    obtain ⟨x, w', hx, ⟨-, l, hl⟩ | ⟨rfl, -, -, -, hrest⟩⟩ :=
      does_nextHere hr { c with ahead := [] } hw hc hn c.pending
    · exact ⟨x, w', l, hx, hl⟩
    · obtain ⟨l, hl⟩ := hrest _ _ _ (.finish rfl rfl)
      exact ⟨_, w', l, hx, hl⟩
  | cons k ks ih =>
    obtain ⟨x, w₁, hx, ⟨ho, l, hl⟩ | ⟨rfl, hw₁, hc₁, hn₁, hrest⟩⟩ :=
      does_nextHere hr { c with ahead := k :: ks } hw hc hn c.pending
    · refine ⟨x, w₁, l, exec_bind_eq_ok.mpr ⟨x, w₁, hx, ?_⟩, hl⟩
      split
      · exact absurd ‹_› ho
      · rfl
    · have hkeys : (guarded c.set (look fun w => (w.shard c.set k).keys)).exec w₁ =
          (.ok (w₁.shard c.set k).keys, w₁) := exec_guarded_lock hn₁ rfl
      obtain ⟨y, w₂, l, h₂, hl⟩ := ih ⟨c.set, k, ks, (w₁.shard c.set k).keys, c.current⟩ hw₁ hc₁ hn₁
      have hlist : Does run { c with pending := [], ahead := k :: ks } w₁ ((.list k, w₁) :: l) y w₂ :=
        .list rfl rfl hl
      obtain ⟨l', hl'⟩ := hrest _ _ _ hlist
      refine ⟨y, w₂, l', exec_bind_eq_ok.mpr ⟨_, w₁, hx, ?_⟩, hl'⟩
      exact (exec_bind_ok (exec_attempt_eq_ok.mpr hkeys) _).trans h₂

/-- Every step of a cursor whose set is not locked is some deeds, and comes to an end. -/
theorem exists_does (c : Cursor) (hw : w.Point D) (hc : c.set < w.sets.size)
    (hn : c.set ∉ w.entered) :
    ∃ x w' l, (c.next run).exec w = (.ok x, w') ∧ Does run { c with current := none } w l x w' :=
  exists_does_ahead hr { c with current := none } hw hc hn c.ahead

end Steps

/-- A visit returns an element that its set has, or finds that the ticket leads to none. -/
theorem visit_cases {c : Cursor} {key : SlotKey} {r : Except Panic (Option ElementId)}
    (hw : w.Point D) (hn : c.set ∉ w.entered) (hk : (w.collection c.set).settings.kind = .weak)
    (hx : (c.visit run key).exec w = (r, w')) :
    (∃ h, w.handle? ⟨c.set, c.shard, key⟩ = some h ∧ w.isAlive h.element ∧
      r = .ok (some h.element) ∧ w' = w.acquire h.element) ∨
    (∀ e, r ≠ .ok (some e)) ∧
      ∀ h, w.handle? ⟨c.set, c.shard, key⟩ = some h → ¬ w.isAlive h.element := by
  have hweak : ∀ h, w.handle? ⟨c.set, c.shard, key⟩ = some h → h.kind = .weak := fun h hh =>
    (hw.formed.fits _ h hh).kind.trans hk
  have hsight := exec_sight hn hweak rfl
  rcases hh : w.handle? ⟨c.set, c.shard, key⟩ with _ | h <;> simp only [hh] at hsight
  · obtain ⟨rfl, rfl⟩ := Prod.mk.injEq .. ▸ (exec_bind_ok hsight _).symm.trans hx
    exact .inr ⟨nofun, nofun⟩
  · by_cases ha : w.isAlive h.element
    · rw [if_pos ha] at hsight
      obtain ⟨rfl, rfl⟩ := Prod.mk.injEq .. ▸ (exec_bind_ok hsight _).symm.trans hx
      exact .inl ⟨h, rfl, ha, rfl, rfl⟩
    · rw [if_neg ha] at hsight
      refine .inr ⟨fun e he => ?_, fun h' hh' => by rwa [← Option.some.inj hh']⟩
      have hx := (exec_bind_ok hsight _).symm.trans hx
      rw [he] at hx
      obtain ⟨_, w₁, -, h₁⟩ := exec_bind_eq_ok.mp hx
      cases (exec_pure_eq_ok.mp h₁).1

/-! ## Tours -/

/-- The life of a cursor of set `s` that was made when the world was `w₀`: it steps, it removes what
it returned last, and meanwhile anything may happen. No step is made while the set is locked. -/
inductive Tour (run : Runner) (s : SetId) (w₀ : World) :
    World → Duties → Cursor → Deeds → Prop
  | start {w : World} {D : Duties} {c : Cursor} (hw : w.Point D) (hs : s < w.sets.size)
      (hx : (start run s).exec w = (.ok c, w₀)) : Tour run s w₀ w₀ D c []
  | meanwhile {w w' : World} {D D' : Duties} {c : Cursor} {l : Deeds} (h : Tour run s w₀ w D c l)
      (hc : Course .idle (w, D) (w', D')) : Tour run s w₀ w' D' c l
  | next {w w' : World} {D : Duties} {c : Cursor} {l l' : Deeds} {x : Step (Option ElementId)}
      (h : Tour run s w₀ w D c l) (hn : s ∉ w.entered) (hx : (c.next run).exec w = (.ok x, w'))
      (hd : Does run { c with current := none } w l' x w') :
      Tour run s w₀ w' (x.due oneHeld + D) x.cursor (l ++ l')
  | removeCurrent {w w' : World} {D : Duties} {c : Cursor} {l : Deeds} {x : Step Bool}
      (h : Tour run s w₀ w D c l) (hx : c.removeCurrent.exec w = (.ok x, w')) :
      Tour run s w₀ w' D x.cursor l

/-- What is true of a cursor after its deeds. -/
structure Kept (s : SetId) (w₀ w : World) (D : Duties) (c : Cursor) (l : Deeds) : Prop where
  set : c.set = s
  size : s < w.sets.size
  weak : (w.collection s).settings.kind = .weak
  point : w.Point D
  first : World.Later w₀ w
  past : ∀ x ∈ l, World.Later w₀ x.2 ∧ ∃ E, x.2.Point E ∧ Course .idle (x.2, E) (w, D)
  /-- The shards are listed in order. -/
  shards : (listings l).map Prod.fst ++ c.ahead = List.range (w.shardCount s)
  /-- What was listed is looked at in order. -/
  tickets : listed s l = looked l ++ c.pending.map fun key => ⟨s, c.shard, key⟩
  /-- What was looked at was returned, or is spent. -/
  spent : ∀ t ∈ looked l, t ∈ (given l).map Prod.fst ∨ w.Spent t
  /-- What was returned was there then, and when its shard was listed. -/
  present : ∀ t e v, (.give t e, v) ∈ l →
    t.owner = s ∧ v.Offers t e ∧ ∃ v₀, (.list t.shard, v₀) ∈ l ∧ v₀.Offers t e
  /-- When nothing was left nothing is left. -/
  done : ∀ v, (.finish, v) ∈ l → c.pending = [] ∧ c.ahead = []

namespace Kept

variable {w₀ w₁ : World} {c : Cursor} {l : Deeds} {k : Nat} {ks : List Nat} {key : SlotKey}
  {keys : List SlotKey}

theorem course (h : Kept s w₀ w D c l) (hc : Course .idle (w, D) (w', D')) :
    Kept s w₀ w' D' c l :=
  have hl := hc.later h.point.sane
  { h with
    size := h.size.trans_le hl.sets
    weak := by rw [hl.settings h.size]; exact h.weak
    point := hc.point h.point
    first := h.first.trans hl
    past := fun x hx => (h.past x hx).imp id fun ⟨E, hE⟩ => ⟨E, hE.1, hE.2.trans hc⟩
    shards := by rw [hl.shardCount h.size]; exact h.shards
    spent := fun t ht => (h.spent t ht).imp id (hc.spent h.point.sane) }

theorem current (h : Kept s w₀ w D c l) (k? : Option SlotKey) :
    Kept s w₀ w D { c with current := k? } l :=
  { h with }

/-- One more deed, after which the world is `w`: what a cursor has ahead of it, and the tickets that
it has yet to look at, become less by what the deed took of them. -/
theorem add (h : Kept s w₀ w D c l) {b : Cursor} {d : Deed} (hset : b.set = c.set)
    (ha : d.shard?.toList ++ b.ahead = c.ahead)
    (hp : (c.pending.map fun key => (⟨s, c.shard, key⟩ : Ticket)) ++
        d.shard?.toList.flatMap (fun k => (w.ticketsIn s k).map Prod.fst) =
      d.ticket?.toList ++ b.pending.map fun key => ⟨s, b.shard, key⟩)
    (hs : ∀ t ∈ d.ticket?, t ∈ d.given?.map Prod.fst ∨ w.Spent t)
    (hg : ∀ t e, d = .give t e →
      t.owner = s ∧ w.Offers t e ∧ ∃ v₀, (.list t.shard, v₀) ∈ l ∧ v₀.Offers t e)
    (hd : d = .finish → b.pending = [] ∧ b.ahead = []) :
    Kept s w₀ w D b (l ++ [(d, w)]) := by
  refine { h with
    set := hset.trans h.set, past := ?_, shards := ?_, tickets := ?_, spent := ?_, present := ?_,
    done := ?_ }
  · intro x hx
    rcases List.mem_append.mp hx with hx | hx
    · exact h.past x hx
    · obtain rfl := List.mem_singleton.mp hx
      exact ⟨h.first, D, h.point, .refl⟩
  · rw [listings_snoc, List.map_append, List.append_assoc, ← h.shards, ← ha]
    cases d <;> rfl
  · rw [listed_snoc, looked_snoc, h.tickets, List.append_assoc, List.append_assoc, hp]
  · intro t hm
    rw [looked_snoc] at hm
    rw [given_snoc, List.map_append]
    rcases List.mem_append.mp hm with hm | hm
    · exact (h.spent t hm).imp (fun hm => List.mem_append.mpr (.inl hm)) id
    · refine (hs t (Option.mem_toList.mp hm)).imp (fun hm => List.mem_append.mpr (.inr ?_)) id
      obtain ⟨x, hx, rfl⟩ := Option.mem_map.mp hm
      exact List.mem_map.mpr ⟨x, Option.mem_toList.mpr hx, rfl⟩
  · intro t e v hm
    have hnew : t.owner = s ∧ v.Offers t e ∧ ∃ v₀, (.list t.shard, v₀) ∈ l ∧ v₀.Offers t e := by
      rcases List.mem_append.mp hm with hm | hm
      · exact h.present t e v hm
      · obtain ⟨rfl, rfl⟩ := Prod.mk.injEq .. ▸ List.mem_singleton.mp hm
        exact hg t e rfl
    exact hnew.imp id fun hnew => hnew.imp id fun ⟨v₀, hv₀, ho⟩ =>
      ⟨v₀, List.mem_append.mpr (.inl hv₀), ho⟩
  · intro v hm
    rcases List.mem_append.mp hm with hm | hm
    · obtain ⟨hpending, hahead⟩ := h.done v hm
      rw [hahead, List.append_eq_nil_iff] at ha
      rw [hpending, (Option.toList_eq_nil_iff.mp ha.1)] at hp
      have hnil := (List.append_eq_nil_iff.mp hp.symm).2
      exact ⟨List.map_eq_nil_iff.mp hnil, ha.2⟩
    · exact hd (Prod.mk.injEq .. ▸ List.mem_singleton.mp hm).1.symm

/-- The ticket that is looked at next was given out when its shard was listed. -/
theorem listing_of_pending (h : Kept s w₀ w D c l) (hp : c.pending = key :: keys) :
    ∃ v, (.list c.shard, v) ∈ l ∧ v.Issued ⟨c.set, c.shard, key⟩ := by
  have hm : ⟨c.set, c.shard, key⟩ ∈ listed s l := by
    rw [h.tickets, hp, h.set]
    exact List.mem_append.mpr (.inr List.mem_cons_self)
  obtain ⟨_, v, hv, -, rfl, hh⟩ := mem_listed.mp hm
  obtain ⟨x, hx⟩ := Option.isSome_iff_exists.mp hh
  exact ⟨v, hv, World.issued_of_handle? hx⟩

/-- A key is looked up in vain. -/
theorem vain (hr : run.Sound) (h : Kept s w₀ w D c l) (hn : s ∉ w.entered)
    (hp : c.pending = key :: keys) {r : Except Panic (Option ElementId)}
    (hv : (c.visit run key).exec w = (r, w')) (hne : ∀ e, r ≠ .ok (some e)) {d : Deed}
    (hs : d.shard? = none) (ht : d.ticket? = some ⟨c.set, c.shard, key⟩) (hg : d.given? = none)
    (hd : d ≠ .finish) :
    Kept s w₀ w' D { c with pending := keys } (l ++ [(d, w')]) ∧ s ∉ w'.entered := by
  have hset := h.set
  obtain ⟨D', hc, hD, hn'⟩ := visit_unlocked hr h.point (hset ▸ h.size) hn hv
  have hD' : D' = D := by
    rw [hD]
    rcases r with p | _ | e
    · rfl
    · exact holds_toList_none D
    · exact absurd rfl (hne e)
  subst hD'
  have hspent : w.Spent ⟨c.set, c.shard, key⟩ := by
    obtain ⟨v, hv₀, hi⟩ := h.listing_of_pending hp
    obtain ⟨-, E, hE, hcourse⟩ := h.past _ hv₀
    refine ⟨(hcourse.later hE.sane).issued _ hi, ?_⟩
    obtain ⟨y, -, -, hr, -⟩ | ⟨-, hend⟩ :=
      visit_cases h.point (hset ▸ hn) (hset ▸ h.weak) hv
    · exact absurd hr (hne _)
    · exact hend
  refine ⟨(h.course hc).add rfl ?_ ?_ ?_ ?_ fun he => absurd he hd, hn'⟩
  · rw [hs]
    rfl
  · rw [hp, hs, ht, hset]
    simp
  · intro t hm
    rw [ht] at hm
    obtain rfl := Option.some.inj hm
    exact .inr (hc.spent h.point.sane hspent)
  · rintro t e rfl
    cases hg

/-- A step keeps it all. -/
theorem does (hr : run.Sound) {x : Step (Option ElementId)} {l' : Deeds}
    (hd : Does run c w l' x w') (h : Kept s w₀ w D c l) (hn : s ∉ w.entered) :
    Kept s w₀ w' (x.due oneHeld + D) x.cursor (l ++ l') := by
  induction hd generalizing l with
  | @finish c w hp ha =>
    have hk := h.add (b := c) (d := .finish) rfl rfl (List.append_nil _) (by simp [Deed.ticket?]) (by simp)
      fun _ => ⟨hp, ha⟩
    rwa [Step.due, holds_toList_none]
  | @list c w w' k ks l' x hp ha _ ih =>
    have hk := h.add (b := ⟨c.set, k, ks, (w.shard c.set k).keys, c.current⟩) (d := .list k) rfl
      ha.symm ?_ (by simp [Deed.ticket?]) (by simp) (by simp)
    · rw [← List.singleton_append, ← List.append_assoc]
      exact ih hk hn
    · rw [hp, h.set]
      simp [Deed.shard?, Deed.ticket?, World.ticketsIn, Shard.keys, Slots.keys, Shard.entries]
  | @pass c w w₁ w' key keys l' x hp hv _ ih =>
    obtain ⟨hk, hn₁⟩ := h.vain hr hn hp hv (by simp) (d := .pass ⟨c.set, c.shard, key⟩) rfl rfl rfl (by simp)
    rw [← List.singleton_append, ← List.append_assoc]
    exact ih hk hn₁
  | @fail c w w' key keys p hp hv =>
    obtain ⟨hk, -⟩ := h.vain hr hn hp hv (by simp) (d := .fail ⟨c.set, c.shard, key⟩ p) rfl rfl rfl (by simp)
    rwa [Step.due, Multiset.zero_add]
  | @give c w w' key keys e hp hv =>
    have hset := h.set
    obtain ⟨D', hc, rfl, -⟩ := visit_unlocked hr h.point (hset ▸ h.size) hn hv
    obtain ⟨y, hy, ha, hr, rfl⟩ | ⟨hne, -⟩ := visit_cases h.point (hset ▸ hn) (hset ▸ h.weak) hv
    · obtain rfl := Option.some.inj (Except.ok.inj hr)
      have hk := h.course hc
      refine (hk.add (d := .give ⟨c.set, c.shard, key⟩ y.element)
        (b := { c with pending := keys }) rfl rfl ?_ ?_ ?_ (by simp)).current (some key)
      · rw [hp, hset]
        simp [Deed.shard?, Deed.ticket?]
      · intro t hm
        obtain rfl := Option.some.inj hm
        exact .inl rfl
      · rintro t e ⟨⟩
        have ho : (w.acquire y.element).Offers ⟨c.set, c.shard, key⟩ y.element := by
          refine ⟨⟨y, hy, rfl⟩, hk.point.counted.isAlive_of_hold ?_⟩
          show .hold y.element ∈ holds (some y.element).toList + D
          simp
        obtain ⟨v, hv, hi⟩ := hk.listing_of_pending hp
        obtain ⟨-, E, hE, hcourse⟩ := hk.past _ hv
        exact ⟨hset, ho, v, hv, hcourse.offers hE.sane hi ho⟩
    · exact absurd rfl (hne e)

end Kept

/-! ## Weak consistency -/

section Tours

variable {w₀ : World} {c : Cursor} {l : Deeds}

/-- All along a tour. -/
theorem Tour.kept (hr : run.Sound) (h : Tour run s w₀ w D c l)
    (hk : (w₀.collection s).settings.kind = .weak) : Kept s w₀ w D c l := by
  induction h with
  | @start w D c hw hs hx =>
    have hcourse := (balanced_start hr (L := .idle) hs).ok hx hw (.idle w)
    have hw₀ := hcourse.point hw
    obtain ⟨_, w₁, -, hx⟩ := exec_bind_eq_ok.mp hx
    obtain ⟨n, w₂, h₂, hx⟩ := exec_bind_eq_ok.mp hx
    obtain ⟨rfl, rfl⟩ := exec_pure_eq_ok.mp hx
    rw [exec_look] at h₂
    obtain ⟨hn, rfl⟩ := Prod.mk.injEq .. ▸ h₂
    obtain rfl := Except.ok.inj hn
    exact ⟨rfl, hs.trans_le (hcourse.later hw.sane).sets, hk, hw₀, .refl _, nofun, rfl, rfl,
      nofun, nofun, nofun⟩
  | meanwhile _ hc ih => exact ih.course hc
  | next _ hn hx hd ih => exact (ih.current none).does hr hd hn
  | @removeCurrent w w' D c l x _ hx ih =>
    have hsuits : w.Suits c := ⟨ih.set ▸ ih.size, fun _ => ih.set ▸ ih.weak⟩
    have hcourse := (leads_removeCurrent (L := .idle) (E := D) hsuits).ok hx ih.point (.idle w)
    rw [Step.due_zero, Multiset.zero_add] at hcourse
    rw [yields_removeCurrent c _ _ _ hx]
    exact (ih.course hcourse).current none

/-- What iteration promises while its set changes. -/
structure Consistent (s : SetId) (w₀ w : World) (c : Cursor) (l : Deeds) : Prop where
  /-- No two elements that are returned have equal values. -/
  distinct : (given l).Pairwise fun x y => w.value x.2 ≠ w.value y.2
  /-- An element that is returned is alive then, and its handle in the set. -/
  present : ∀ t e v, (.give t e, v) ∈ l → t.owner = s ∧ v.Offers t e
  /-- When nothing is left, each handle that was there all along, with a living element, was returned
  once. -/
  complete : ∀ v, (.finish, v) ∈ l → ∀ t e, t.owner = s → w₀.Offers t e → w.Offers t e →
    (given l).count (t, e) = 1 ∧ ((given l).map Prod.fst).count t = 1
  /-- A handle that is not in a shard when its keys are taken is not returned. -/
  listed : ∀ k v t, (.list k, v) ∈ l → t.owner = s → t.shard = k → v.handle? t = none →
    t ∉ (given l).map Prod.fst
  /-- The keys of a shard are taken at most once. -/
  once : ((listings l).map Prod.fst).Nodup ∧ ∀ k ∈ (listings l).map Prod.fst, k < w.shardCount s
  /-- There are at most as many steps, before one that finds nothing left, as there were handles in the
  shards when their keys were taken. -/
  bounded : (l.countP fun x => x.1.isStop) ≤
    ((listings l).map fun x => (x.2.shard s x.1).size).sum
  /-- Once nothing is left, nothing is left for ever. -/
  fused : ∀ v, (.finish, v) ∈ l → ∀ run' w',
    (c.next run').exec w' = (.ok ⟨{ c with current := none }, .ok none⟩, w')

namespace Kept

theorem nodup_shards (h : Kept s w₀ w D c l) : ((listings l).map Prod.fst).Nodup :=
  (List.nodup_append.mp (h.shards ▸ List.nodup_range)).1

/-- A shard is listed in one world only. -/
theorem listing_unique (h : Kept s w₀ w D c l) {k : Nat} {v v' : World}
    (hv : (.list k, v) ∈ l) (hv' : (.list k, v') ∈ l) : v = v' := by
  have := List.inj_on_of_nodup_map h.nodup_shards (mem_listings.mpr hv) (mem_listings.mpr hv') rfl
  exact (Prod.mk.injEq .. ▸ this).2

/-- What was returned had been there when its shard was listed. -/
theorem given_listed (h : Kept s w₀ w D c l) (ht : t ∈ (given l).map Prod.fst) :
    ∃ v, (.list t.shard, v) ∈ l ∧ t.owner = s ∧ (v.handle? t).isSome := by
  have hm : t ∈ Cursor.listed s l := by
    rw [h.tickets]
    exact List.mem_append.mpr (.inl ((given_sublist l).subset ht))
  obtain ⟨k, v, hv, ho, rfl, hh⟩ := mem_listed.mp hm
  exact ⟨v, hv, ho, hh⟩

theorem nodup_listed (h : Kept s w₀ w D c l) : (Cursor.listed s l).Nodup := by
  refine List.nodup_flatMap.mpr ⟨fun x _ => World.nodup_ticketsIn, ?_⟩
  refine (List.pairwise_map.mp h.nodup_shards).imp fun {x y} hne t ht ht' => hne ?_
  obtain ⟨⟨_, z⟩, hz, rfl⟩ := List.mem_map.mp ht
  obtain ⟨⟨_, z'⟩, hz', rfl⟩ := List.mem_map.mp ht'
  exact (World.mem_ticketsIn.mp hz).2.1.symm.trans (World.mem_ticketsIn.mp hz').2.1

theorem nodup_given (h : Kept s w₀ w D c l) : ((given l).map Prod.fst).Nodup :=
  ((List.nodup_append.mp (h.tickets ▸ h.nodup_listed)).1).sublist (given_sublist l)

/-- An element that was returned is in the shard of its value. -/
theorem shard_of_given (h : Kept s w₀ w D c l) {e : ElementId} (hm : (t, e) ∈ given l) :
    e < w.cells.size ∧
      t.shard = shardOf (w.shardCount s) ((w.collection s).scheme.hash (w.value e)) := by
  obtain ⟨v, hv⟩ := mem_given.mp hm
  obtain ⟨rfl, ⟨⟨y, hy, rfl⟩, -⟩, -⟩ := h.present t e v hv
  obtain ⟨-, E, hE, hc⟩ := h.past _ hv
  have hl := hc.later hE.sane
  have hf := hE.formed.fits t y hy
  have hs := (World.hasShard_of_handle? hy).1
  refine ⟨hf.element.trans_le hl.cells, ?_⟩
  rw [hl.shardCount hs, hl.scheme hs, hl.value hf.element, ← hf.hash, ← hf.place]

/-- What was returned under two tickets has two values. -/
theorem eq_of_value (h : Kept s w₀ w D c l) {t t' : Ticket} {e e' : ElementId} (hx : (t, e) ∈ given l)
    (hy : (t', e') ∈ given l) (heq : w.value e = w.value e') : t = t' := by
  have hshard : t.shard = t'.shard := by
    rw [(h.shard_of_given hx).2, (h.shard_of_given hy).2, heq]
  obtain ⟨u, hu⟩ := mem_given.mp hx
  obtain ⟨u', hu'⟩ := mem_given.mp hy
  -- both were there when the keys of their shard were taken
  obtain ⟨ho, -, v, hv, ⟨z, hz, rfl⟩, ha⟩ := h.present t e u hu
  obtain ⟨ho', -, v', hv', ⟨z', hz', rfl⟩, ha'⟩ := h.present t' e' u' hu'
  obtain rfl := h.listing_unique hv (hshard ▸ hv')
  obtain ⟨-, E, hE, hc⟩ := h.past _ hv
  have hl := hc.later hE.sane
  have hf := hE.formed.fits t z hz
  have hf' := hE.formed.fits t' z' hz'
  have hs := ho ▸ (World.hasShard_of_handle? hz).1
  have hk : (v.collection s).settings.kind = .weak := by
    rw [← hl.settings hs]
    exact h.weak
  refine hE.distinct t t' z z' (ho.trans ho'.symm) hz hz' ?_ ?_ ha ha' ?_
  · rw [hf.kind, ho, hk]
  · rw [hf'.kind, ho', hk]
  · rw [← hl.value hf.element, ← hl.value hf'.element]
    exact heq

/-- A handle that there was from the beginning, and still is when no shard is ahead, was listed. -/
theorem mem_listed_of_done (h : Kept s w₀ w D c l) (ha : c.ahead = []) (ho : t.owner = s)
    (hi : w₀.Issued t) {y : Handle} (hy : w.handle? t = some y) : t ∈ Cursor.listed s l := by
  have hk : t.shard ∈ (listings l).map Prod.fst := by
    have hlt := (World.hasShard_of_handle? hy).2
    have hsh := h.shards
    rw [ha, List.append_nil] at hsh
    rw [hsh, ← ho]
    exact List.mem_range.mpr hlt
  obtain ⟨⟨k, v⟩, hv, rfl⟩ := List.mem_map.mp hk
  obtain ⟨hl₀, E, hE, hc⟩ := h.past _ (mem_listings.mp hv)
  have hz := hc.handle?_old hE.sane (hl₀.issued t hi) hy
  exact mem_listed.mpr ⟨_, v, mem_listings.mp hv, ho, rfl, by rw [hz]; rfl⟩

/-- What was returned under the ticket of a handle that is still there is its element. -/
theorem element_of_given (h : Kept s w₀ w D c l) {e : ElementId} (hm : (t, e) ∈ given l) {y : Handle}
    (hy : w.handle? t = some y) : y.element = e := by
  obtain ⟨u, hu⟩ := mem_given.mp hm
  obtain ⟨-, -, v, hv, ⟨z, hz, rfl⟩, -⟩ := h.present t e u hu
  obtain ⟨-, E, hE, hc⟩ := h.past _ hv
  have hz' := hc.handle?_old hE.sane (World.issued_of_handle? hz) hy
  rw [Option.some.inj (hz'.symm.trans hz)]

theorem consistent (h : Kept s w₀ w D c l) : Consistent s w₀ w c l where
  distinct := (List.pairwise_map.mp h.nodup_given).imp_of_mem fun hx hy hne heq =>
    hne (h.eq_of_value hx hy heq)
  present t e v hm := (h.present t e v hm).imp id And.left
  complete u hu t e ho h₀ hw := by
    obtain ⟨hp, ha⟩ := h.done u hu
    obtain ⟨⟨x, hx, -⟩, -⟩ := h₀
    obtain ⟨⟨y, hy, rfl⟩, hal⟩ := hw
    have hlooked : t ∈ looked l := by
      have ht := h.tickets
      rw [hp, List.map_nil, List.append_nil] at ht
      rw [← ht]
      exact h.mem_listed_of_done ha ho (World.issued_of_handle? hx) hy
    have hgiven := (h.spent t hlooked).resolve_right fun hs => hs.not_offers ⟨⟨y, hy, rfl⟩, hal⟩
    refine ⟨List.count_eq_one_of_mem h.nodup_given.of_map ?_,
      List.count_eq_one_of_mem h.nodup_given hgiven⟩
    obtain ⟨⟨t, e⟩, hm, rfl⟩ := List.mem_map.mp hgiven
    rwa [h.element_of_given hm hy]
  listed k v t hv ho hk hnone hm := by
    obtain ⟨v', hv', -, hh⟩ := h.given_listed hm
    obtain rfl := h.listing_unique (hk ▸ hv) hv'
    rw [hnone] at hh
    cases hh
  once := by
    refine ⟨h.nodup_shards, fun k hk => List.mem_range.mp ?_⟩
    rw [← h.shards]
    exact List.mem_append.mpr (.inl hk)
  bounded := by
    rw [← length_listed, h.tickets, List.length_append]
    exact (countP_isStop_le l).trans (Nat.le_add_right _ _)
  fused v hv run' w' := by
    obtain ⟨hp, ha⟩ := h.done v hv
    rw [next, ha, nextAhead, hp]
    rfl

end Kept

/-- Weakly consistent iteration. On any tour of a cursor through a set that can reach its elements,
whatever happens between the steps and in their sweeps: what the cursor returned has no two equal
values, was there and alive when it was returned, includes all that was there from the beginning to
the end, and nothing that came into a shard after the keys of the shard were taken; the steps that do
not find the end are no more than the handles of the shards when they were listed, and the end is the
end. And while the set is not locked a step comes to an end, with one answer, and the tour goes on. -/
theorem tour_consistent (depth : Nat) (h : Tour (Session.runner depth) s w₀ w D c l)
    (hk : (w₀.collection s).settings.kind = .weak) :
    Consistent s w₀ w c l ∧
    (s ∉ w.entered → ∃ x w' l', (c.next (Session.runner depth)).exec w = (.ok x, w') ∧
      Tour (Session.runner depth) s w₀ w' (x.due oneHeld + D) x.cursor (l ++ l') ∧
      answers l' = [x.outcome]) := by
  have hkept := h.kept (Session.sound_runner depth) hk
  refine ⟨hkept.consistent, fun hn => ?_⟩
  have hset := hkept.set
  obtain ⟨x, w', l', hx, hd⟩ := exists_does (Session.sound_runner depth) c hkept.point
    (hset ▸ hkept.size) (hset ▸ hn)
  exact ⟨x, w', l', hx, h.next hn hx hd, hd.answers⟩

/-- Two elements in one shard. -/
def pairRun : List Command :=
  [.new "x" (.number 1) none none, .new "y" (.number 2) none none,
    .build "s" (.ok ⟨{ capacity := 4, concurrency := 1 }, none, .constant 7, .silent⟩),
    .add "s" "x", .add "s" "y"]

/-- The first step of a cursor returns the first element. -/
theorem tour_consistent_pair :
    let w₀ := ((start (Session.runner 0) 0).exec (Session.carryOutAll 0 .empty pairRun)).2
    ∃ x w' l, (next (Session.runner 0) { set := 0, ahead := [0] }).exec w₀ = (.ok x, w') ∧
      x.outcome = .ok (some 0) ∧ answers l = [x.outcome] ∧ Consistent 0 w₀ w' x.cursor l := by
  intro w₀
  have hk : (w₀.collection 0).settings.kind = .weak := by decide +kernel
  have hstart : Tour (Session.runner 0) 0 w₀ w₀ 0 { set := 0, ahead := [0] } [] :=
    .start (Session.point_carryOutAll 0 pairRun) (by decide +kernel)
      (Prod.ext (by decide +kernel) rfl)
  obtain ⟨x, w', l, hx, ht, ha⟩ := (tour_consistent 0 hstart hk).2 (by decide +kernel)
  have hout : ((next (Session.runner 0) { set := 0, ahead := [0] }).exec w₀).1.map Step.outcome =
      .ok (.ok (some 0)) := by
    decide +kernel
  rw [hx] at hout
  exact ⟨x, w', l, hx, Except.ok.inj hout, ha, (tour_consistent 0 ht hk).1⟩

end Tours

end Cursor

end WeakSet
