import WeakSet.Proofs.Visibility
import WeakSet.Proofs.Placement

/-!
# All lookups agree

Where no element has code that runs in comparisons and the listener of a set has no script, whatever
the kind of the set, its channel, its hashes and its shards, every lookup comes to what a search of the
whole set for a handle that shows an element of the value finds (`World.locate?`). A probe looks only at
the handles of one shard under one hash. As handles are where they belong it misses none, and as no two
handles of a set show elements of one value there is at most one (`World.hit_eq_locate?`). Stale handles
of the same value count for nothing.

* `exec_section`: the references that a probe takes are no part of what an operation comes to;
* `exec_insert_swept`, `exec_remove_swept`: what an insertion and a removal come to after their sweep;
* `World.Point.lookups_agree`: containment, tickets, removals and refused insertions tell the same.
-/

namespace WeakSet

open Act World

namespace World

variable {w w' : World} {s : SetId} {v : Value} {t : Ticket}

/-! ## Searching a whole set -/

/-- A handle of set `s` shows an element of a value. -/
structure Presents (w : World) (s : SetId) (v : Value) (t : Ticket) : Prop where
  owner : t.owner = s
  shown : ∃ h, w.handle? t = some h ∧ w.shows h ∧ w.value h.element = v

/-- The ticket of the first handle anywhere in a set that shows an element of a value. -/
def locate? (w : World) (s : SetId) (v : Value) : Option Ticket :=
  ((w.ticketsOf s).find? fun x => w.shows x.2 && w.value x.2.element = v).map Prod.fst

theorem presents_of_locate? (h : w.locate? s v = some t) : w.Presents s v t := by
  obtain ⟨⟨t', x⟩, hf, rfl⟩ := Option.map_eq_some_iff.mp h
  obtain ⟨ho, hx⟩ := mem_ticketsOf.mp (List.mem_of_find?_eq_some hf)
  have hp := List.find?_some hf
  simp only [Bool.and_eq_true, decide_eq_true_eq] at hp
  exact ⟨ho, x, hx, hp⟩

theorem locate?_eq_none : w.locate? s v = none ↔ ∀ t, ¬ w.Presents s v t := by
  constructor
  · rintro h t ⟨ho, x, hx, hs, hv⟩
    have := List.find?_eq_none.mp (Option.map_eq_none_iff.mp h) (t, x) (mem_ticketsOf.mpr ⟨ho, hx⟩)
    simp [hs, hv] at this
  · intro h
    rcases hl : w.locate? s v with _ | t
    · rfl
    · exact absurd (presents_of_locate? hl) (h t)

theorem Presents.unique {t' : Ticket} (hd : w.Distinct) (h : w.Presents s v t)
    (h' : w.Presents s v t') : t = t' := by
  obtain ⟨ho, x, hx, hs, hv⟩ := h
  obtain ⟨ho', x', hx', hs', hv'⟩ := h'
  simp only [shows, Bool.and_eq_true, decide_eq_true_eq] at hs hs'
  exact hd t t' x x' (ho.trans ho'.symm) hx hx' hs.1 hs'.1 hs.2 hs'.2 (hv.trans hv'.symm)

/-- There is one handle at most to be found. -/
theorem locate?_eq_some (hd : w.Distinct) : w.locate? s v = some t ↔ w.Presents s v t := by
  refine ⟨presents_of_locate?, fun h => ?_⟩
  rcases hl : w.locate? s v with _ | t'
  · exact absurd h (locate?_eq_none.mp hl t)
  · rw [(presents_of_locate? hl).unique hd h]

/-- A set of phantom references shows nothing. -/
theorem locate?_phantom (hf : w.Formed) (hk : (w.collection s).settings.kind = .phantom) (v : Value) :
    w.locate? s v = none := by
  refine locate?_eq_none.mpr fun t ⟨ho, x, hx, hs, _⟩ => ?_
  simp [shows, (hf.fits t x hx).kind, ho, hk] at hs

/-- The ticket of a key in the shard where a value belongs. -/
def ticketAt (w : World) (s : SetId) (v : Value) (key : SlotKey) : Ticket :=
  ⟨s, w.shardFor s v, key⟩

/-- A probe of one shard under one hash finds what a search of the whole set does. -/
theorem hit_eq_locate? (hf : w.Formed) (hd : w.Distinct) (s : SetId) (v : Value) :
    (w.hit s v).map (w.ticketAt s v) = w.locate? s v := by
  rcases hh : w.hit s v with _ | key
  · refine (locate?_eq_none.mpr fun t ⟨ho, x, hx⟩ => ?_).symm
    have := (hit_isSome hf).mpr ⟨t, x, ho, hx⟩
    rw [hh] at this
    cases this
  · obtain ⟨⟨key, x⟩, hx, rfl⟩ := Option.map_eq_some_iff.mp hh
    have hv := List.find?_some hx
    simp only [suits, Bool.and_eq_true, decide_eq_true_eq] at hv
    have hget := ((hf.shards s _).mem_candidates.mp (List.mem_of_find?_eq_some hx)).1
    have hx : w.handle? (w.ticketAt s v key) = some x := hget
    exact ((locate?_eq_some hd).mpr ⟨rfl, x, hx, hv⟩).symm

/-! ## Steps that do not look at the number of references -/

namespace SameButCounts

theorem note (h : w.SameButCounts w') (x : Entry) : (w.note x).SameButCounts (w'.note x) :=
  ⟨by rw [h.rest]; rfl, h.size, h.watchers, h.element⟩

theorem setShard (h : w.SameButCounts w') (s : SetId) (k : Nat) (sh : Shard) :
    (w.setShard s k sh).SameButCounts (w'.setShard s k sh) :=
  ⟨by rw [h.rest]; rfl, h.size, h.watchers, h.element⟩

theorem watch (h : w.SameButCounts w') (e : ElementId) (x : Watcher) :
    (w.watch e x).SameButCounts (w'.watch e x) := by
  refine ⟨by rw [h.rest]; rfl, by simp [World.watch, h.size], fun e' => ?_, fun e' => ?_⟩
  · have hc := h.element e'
    have hw := h.watchers e'
    simp only [World.watchers, World.element?, World.watch, Array.getElem?_modify] at hc hw ⊢
    rcases hx' : w'.cells[e']? with _ | c' <;> rcases hx : w.cells[e']? with _ | c <;>
      rw [hx', hx] at hc hw
    · cases hc
    · cases hc
    · simp only [Option.map_some, Option.getD_some] at hw
      split <;> simp [hw]
  · rw [element?_watch, element?_watch, h.element]

theorem shard (h : w.SameButCounts w') (s : SetId) (k : Nat) : w'.shard s k = w.shard s k := by
  rw [h.rest]
  rfl

theorem store (h : w.SameButCounts w') (s : SetId) (k : Nat) (x : Handle) :
    (w'.store s k x).1 = (w.store s k x).1 ∧ (w.store s k x).2.SameButCounts (w'.store s k x).2 := by
  have hst := (h.setShard s k ((w.shard s k).insert x).2).note
    (.stored ⟨s, k, ((w.shard s k).insert x).1⟩ x.element)
  have hc : (w'.setShard s k ((w.shard s k).insert x).2).collection s =
      (w.setShard s k ((w.shard s k).insert x).2).collection s :=
    collection_congr (by rw [(h.setShard s k _).rest]) s
  unfold World.store
  rw [h.shard]
  refine ⟨rfl, ?_⟩
  change (World.watch _ _ ⟨((w.setShard s k _).collection s).channel, _⟩).SameButCounts
    (World.watch _ _ ⟨((w'.setShard s k _).collection s).channel, _⟩)
  rw [hc]
  exact hst.watch x.element _

theorem takeOut (h : w.SameButCounts w') (t : Ticket) (d : Departure) :
    (w'.takeOut t d).1 = (w.takeOut t d).1 ∧ (w.takeOut t d).2.SameButCounts (w'.takeOut t d).2 := by
  unfold World.takeOut
  rw [h.shard]
  rcases (w.shard t.owner t.shard).remove t.key with ⟨_ | x, sh⟩
  · exact ⟨rfl, h⟩
  · exact ⟨rfl, (h.setShard _ _ sh).note _⟩

end SameButCounts

theorem strong_takeOut (w : World) (t : Ticket) (d : Departure) (e : ElementId) :
    (w.takeOut t d).2.strong e = w.strong e := by
  unfold World.takeOut
  rcases (w.shard t.owner t.shard).remove t.key with ⟨_ | x, sh⟩ <;> rfl

end World

/-! ## Operations after their sweep -/

section

variable {α : Type} {w : World} {s : SetId} {q : Query}

/-- An operation that probes and then takes one step under the lock comes to that step, if it does not
depend on how many references there are: those that the probe took are let go of again. -/
theorem exec_section (run : Runner) {go : UInt64 → Nat → Option SlotKey → Act α}
    {f : World → α × World} (hw : w.Unhooked) (hn : s ∉ w.entered)
    (hgo : ∀ u, w.SameButCounts u → (go (w.hashOf s (q.target w)) (w.shardFor s (q.target w))
      (w.hit s (q.target w))).exec (u.lock s) = (.ok (f u).1, (f u).2.lock s))
    (hf : ∀ u, w.SameButCounts u → (f u).1 = (f w).1 ∧ (f w).2.SameButCounts (f u).2)
    (hc : ∀ u e, (f u).2.strong e = u.strong e) :
    (do (← probeThen run s q go).close run).exec w = (.ok (f w).1, (f w).2) := by
  obtain ⟨es, w₁, hf₁, hs₁, hx⟩ := exec_probeThen_eq run (s := s) (q := q) hw hn
  obtain ⟨w₂, h₂, hs₂, hc₂⟩ := exec_releaseAll_spare run (w := (f w₁).2) fun e he => by
    have := isAlive_iff.mp (hf₁.lent e he)
    rw [hc, hf₁.strong]
    omega
  have he : w₂ = (f w).2 := ((hf w₁ hs₁).2.trans hs₂).eq fun e => by
    have := hc₂ e
    rw [hc, hf₁.strong] at this
    rw [hc]
    omega
  rw [exec_bind_ok (hx _ _ (hgo w₁ hs₁)), Section.close, exec_bind_ok h₂, (hf w₁ hs₁).1, he]
  rfl

/-- The handle by which a set would have an element. -/
def World.handleFor (w : World) (s : SetId) (e : ElementId) : Handle :=
  ⟨e, w.hashOf s (w.value e), (w.collection s).settings.kind⟩

/-- An element comes into a set. -/
def World.enroll (w : World) (s : SetId) (e : ElementId) : Ticket × World :=
  let (t, u) := w.store s (w.shardFor s (w.value e)) (w.handleFor s e)
  (t, u.note (.line (.inserted t)))

theorem World.handle?_enroll (hf : w.Formed) (hs : s < w.sets.size) (e : ElementId) (t : Ticket) :
    (w.enroll s e).2.handle? t =
      if t = (w.enroll s e).1 then some (w.handleFor s e) else w.handle? t :=
  World.handle?_store hf.shards (World.hasShard_shardFor hf hs _) (w.handleFor s e) t

theorem World.not_issued_enroll (w : World) (s : SetId) (e : ElementId) : ¬ w.Issued (w.enroll s e).1 :=
  World.not_issued_nextTicket (w.handleFor s e)

/-- A handle is removed from its set. -/
def World.dismiss (w : World) (t : Ticket) (h : Handle) : World :=
  ((w.takeOut t .removed).2.unwatch h.element t).note (.line (.removed t))

theorem World.handle?_dismiss {t : Ticket} {h : Handle} (hh : w.handle? t = some h) (t' : Ticket) :
    (w.dismiss t h).handle? t' = if t' = t then none else w.handle? t' := by
  rw [← World.handle?_takeOut hh .removed]
  exact World.handle?_congr (by rw [World.dismiss, World.unwatch_eq]; rfl) t'

variable {run : Runner} {w₀ : World} {n : Nat}

/-- An element is refused if a probe finds one of its value, and comes in otherwise. -/
theorem exec_insert_swept (hsw : (sweep run s).exec w₀ = (.ok n, w)) (hw : w.Unhooked)
    (hn : s ∉ w.entered) (e : ElementId) :
    (insert run s e).exec w₀ =
      if (w.hit s (w.value e)).isSome then (.ok none, w)
      else (.ok (some (w.enroll s e).1), (w.enroll s e).2) := by
  have hd : (discard (sweep run s)).exec w₀ = (.ok (), w) := exec_discard_ok hsw
  rw [insert, exec_bind_ok hd]
  rcases hh : w.hit s (w.value e) with _ | key
  · have hx : (do (← insertSection run s e).close run).exec w =
        (.ok (some (w.store s (w.shardFor s (w.value e)) (w.handleFor s e)).1),
          (w.store s (w.shardFor s (w.value e)) (w.handleFor s e)).2) :=
      exec_section run (q := .element e)
        (f := fun u => ((some (u.store s (w.shardFor s (w.value e)) (w.handleFor s e)).1),
          (u.store s (w.shardFor s (w.value e)) (w.handleFor s e)).2)) hw hn
        (fun u hu => by
          have hk : (u.collection s).settings.kind = (w.collection s).settings.kind := by
            rw [hu.rest]
            rfl
          have hv : (Query.element e).target w = w.value e := rfl
          rw [hv, hh, World.handleFor, ← hk]
          rfl)
        (fun u hu => ⟨congrArg some (hu.store s _ _).1, (hu.store s _ _).2⟩)
        fun u e' => World.strong_store _ e'
    obtain ⟨x, w₁, h₁, h₂⟩ := exec_bind_eq_ok.mp hx
    rw [exec_bind_ok h₁, exec_bind_ok h₂]
    rfl
  · have hx : (do (← insertSection run s e).close run).exec w = (.ok none, w) :=
      exec_section run (q := .element e) (f := fun u => (none, u)) hw hn
        (fun u _ => by
          have hv : (Query.element e).target w = w.value e := rfl
          rw [hv, hh]
          rfl)
        (fun u hu => ⟨rfl, hu⟩) fun _ _ => rfl
    obtain ⟨x, w₁, h₁, h₂⟩ := exec_bind_eq_ok.mp hx
    rw [exec_bind_ok h₁, exec_bind_ok h₂]
    rfl

/-- Nothing is removed if a probe finds nothing. -/
theorem exec_remove_missing (hsw : (sweep run s).exec w₀ = (.ok n, w)) (hw : w.Unhooked)
    (hn : s ∉ w.entered) (hh : w.hit s (q.target w) = none) :
    (remove run s q).exec w₀ = (.ok false, w) := by
  have hd : (discard (sweep run s)).exec w₀ = (.ok (), w) := exec_discard_ok hsw
  have hx : (do (← removeSection run s q).close run).exec w = (.ok none, w) :=
    exec_section run (f := fun u => (none, u)) hw hn (fun u _ => by rw [hh]; rfl)
      (fun u hu => ⟨rfl, hu⟩) fun _ _ => rfl
  obtain ⟨x, w₁, h₁, h₂⟩ := exec_bind_eq_ok.mp hx
  rw [remove, exec_bind_ok hd, exec_bind_ok h₁, exec_bind_ok h₂]
  rfl

/-- What a probe finds is removed. -/
theorem exec_remove_found (hsw : (sweep run s).exec w₀ = (.ok n, w)) (hw : w.Unhooked)
    (hn : s ∉ w.entered) {key : SlotKey} {h : Handle} (hh : w.hit s (q.target w) = some key)
    (hx : w.handle? (w.ticketAt s (q.target w) key) = some h) :
    (remove run s q).exec w₀ = (.ok true, w.dismiss (w.ticketAt s (q.target w) key) h) := by
  have hd : (discard (sweep run s)).exec w₀ = (.ok (), w) := exec_discard_ok hsw
  generalize ht : w.ticketAt s (q.target w) key = t at hx
  have hx' : (do (← removeSection run s q).close run).exec w =
      (.ok ((w.takeOut t .removed).1.map (t, ·)), (w.takeOut t .removed).2) :=
    exec_section run (f := fun u => ((u.takeOut t .removed).1.map (t, ·), (u.takeOut t .removed).2)) hw hn
      (fun u _ => by
        rw [hh]
        simp only
        rw [exec_update, show (⟨s, _, key⟩ : Ticket) = t from ht, World.takeOut_lock]
        rcases u.takeOut t .removed with ⟨_ | x, u'⟩ <;> rfl)
      (fun u hu => ⟨congrArg (Option.map (t, ·)) (hu.takeOut t .removed).1,
        (hu.takeOut t .removed).2⟩) fun u e => World.strong_takeOut u t .removed e
  rw [World.takeOut_fst, hx] at hx'
  obtain ⟨x, w₁, h₁, h₂⟩ := exec_bind_eq_ok.mp hx'
  rw [remove, exec_bind_ok hd, exec_bind_ok h₁, exec_bind_ok h₂]
  rfl

end

namespace Session

/-- All lookups agree and are complete. At every point of every run, also between commands, for a set
that is not locked, if no element has code that runs in comparisons and the listener of the set has no
script: the sweep that all lookups begin with comes to a world where a search of the whole set finds the
one handle that shows an element of the value, if there is any. For every query of that value, be it a
value or an element,

* containment tells whether it was found, and tickets which it is;
* removal tells whether it was found, and takes out that handle and no other;
* an insertion of any element of that value is refused exactly if it was found, and then changes
  nothing; otherwise one handle comes in, under a new ticket. -/
theorem lookups_agree (depth : Nat) :
    (∀ cs, (carryOutAll depth .empty cs).Point 0) ∧
    let run := runner depth
    ∀ (w : World) D s v, w.Point D → s < w.sets.size → s ∉ w.entered → w.Unhooked →
      (w.collection s).listener.IsPlain →
      ∃ n w', (sweep run s).exec w = (.ok n, w') ∧
        (∀ t, w'.locate? s v = some t ↔ w'.Presents s v t) ∧
        (∀ q : Query, q.target w = v →
          (contains run s q).exec w = (.ok (w'.locate? s v).isSome, w') ∧
          (ticketOf run s q).exec w = (.ok (w'.locate? s v), w') ∧
          ∃ w'', (remove run s q).exec w = (.ok (w'.locate? s v).isSome, w'') ∧
            ∀ t, w''.handle? t = if w'.locate? s v = some t then none else w'.handle? t) ∧
        ∀ e, w.value e = v →
          if (w'.locate? s v).isSome then (insert run s e).exec w = (.ok none, w')
          else ∃ t x w'', (insert run s e).exec w = (.ok (some t), w'') ∧ ¬ w'.Issued t ∧
            x.element = e ∧ ∀ t', w''.handle? t' = if t' = t then some x else w'.handle? t' := by
  refine ⟨point_carryOutAll depth, fun w D s v hp hs hn hw hl => ?_⟩
  obtain ⟨n, w', hsw, hf, -, -⟩ := exec_sweep_plain (runner depth) hl hn
  have hp' : w'.Point D :=
    ((balanced_sweep (sound_runner depth) hs).ok hsw hp (.idle w)).point hp
  have hw' : w'.Unhooked := hf.unhooked hw
  have hn' : s ∉ w'.entered := by rw [hf.rest]; exact hn
  have hs' : s < w'.sets.size := hf.sets.symm ▸ hs
  have hfind := hit_eq_locate? hp'.formed hp'.distinct s v
  refine ⟨n, w', hsw, fun t => locate?_eq_some hp'.distinct, fun q hq => ?_, fun e he => ?_⟩
  · have hq' : q.target w' = v := (target_congr hf.element q).trans hq
    have hticket : (ticketOf (runner depth) s q).exec w = (.ok (w'.locate? s v), w') := by
      have hd : (discard (sweep (runner depth) s)).exec w = (.ok (), w') := by
        rw [exec_discard, hsw]
        rfl
      rw [ticketOf, exec_bind_ok hd, exec_lookup (runner depth) hw' hn' q, hq', ← hfind]
      rfl
    refine ⟨by rw [contains, exec_map, hticket]; rfl, hticket, ?_⟩
    rw [← hq'] at hfind ⊢
    rw [← hfind]
    rcases hh : w'.hit s (q.target w') with _ | key
    · exact ⟨w', exec_remove_missing hsw hw' hn' hh, fun t => by simp⟩
    · rw [hh] at hfind
      obtain ⟨-, x, hx, -⟩ := presents_of_locate? hfind.symm
      refine ⟨_, exec_remove_found hsw hw' hn' hh hx, fun t => ?_⟩
      simp only [handle?_dismiss hx, Option.map_some, Option.some.injEq, eq_comm]
  · have he' : w'.value e = v := (hf.value e).trans he
    have hx := exec_insert_swept hsw hw' hn' e
    rw [he'] at hx
    rw [← hfind, Option.isSome_map]
    by_cases hh : (w'.hit s v).isSome
    · rw [if_pos hh]
      exact hx.trans (if_pos hh)
    · rw [if_neg hh]
      exact ⟨_, w'.handleFor s e, _, hx.trans (if_neg hh), not_issued_enroll w' s e, rfl,
        handle?_enroll hp'.formed hs' e⟩

/-- With the stale handle of an equal element in the way, under the same hash, the handle of the living
one is found by its value and by the element that ended. -/
theorem lookups_agree_stale :
    let w := carryOutAll 0 .empty staleRun
    w.Unhooked ∧ (w.collection 0).listener.IsPlain ∧ w.handle? ⟨0, 0, 0, 1⟩ = some ⟨0, 7, .weak⟩ ∧
      ∃ n w', (sweep (runner 0) 0).exec w = (.ok n, w') ∧ w'.Presents 0 (.number 1) ⟨0, 0, 2, 1⟩ ∧
        (contains (runner 0) 0 (.element 0)).exec w = (.ok true, w') ∧
        (ticketOf (runner 0) 0 (.value (.number 1))).exec w = (.ok (some ⟨0, 0, 2, 1⟩), w') ∧
        (insert (runner 0) 0 2).exec w = (.ok none, w') := by
  intro w
  have hw : w.Unhooked := by decide +kernel
  have hl : (w.collection 0).listener.IsPlain := by decide +kernel
  obtain ⟨hpoint, h⟩ := lookups_agree 0
  obtain ⟨n, w', hsw, hfind, hq, hi⟩ :=
    h w 0 0 (.number 1) (hpoint staleRun) (by decide +kernel) (by decide +kernel) hw hl
  have hticket : ((ticketOf (runner 0) 0 (.value (.number 1))).exec w).1 =
      .ok (some ⟨0, 0, 2, 1⟩) := by decide +kernel
  have hfound : w'.locate? 0 (.number 1) = some ⟨0, 0, 2, 1⟩ := by
    rw [(hq (.value (.number 1)) rfl).2.1] at hticket
    exact Except.ok.inj hticket
  have hvalue : w.value 0 = .number 1 ∧ w.value 2 = .number 1 := by decide +kernel
  have hins := hi 2 hvalue.2
  rw [hfound] at hins
  refine ⟨hw, hl, by decide +kernel, n, w', hsw, (hfind _).mp hfound, ?_, ?_, hins⟩
  · rw [(hq (.element 0) hvalue.1).1, hfound]
    rfl
  · rw [(hq (.value (.number 1)) rfl).2.1, hfound]

end Session

end WeakSet
