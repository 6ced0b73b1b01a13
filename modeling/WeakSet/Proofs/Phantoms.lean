import WeakSet.Proofs.Departures
import WeakSet.Proofs.Filtering
import WeakSet.Proofs.Mirror
import WeakSet.Proofs.Operations
import WeakSet.Proofs.Scriptless

/-!
# Sets of phantom references

The handles of such a set let nobody reach their elements, and so it tells no more of them than that they
are there.

* `World.Veils.showsNothing`: nothing is found in the set, nothing comes out of it, and nothing is refused;
* `World.Veils.exec_retain`: filters take out whatever is alive;
* `World.Veils.exec_length`: the length is the number of handles to which nothing happened;
* `World.Veils.reportsOn_of_sweep`: when an element ends, each of its handles is reported.
-/

namespace WeakSet

open Act Duties World

variable {run : Runner} {w w' u : World} {D D' E : Duties} {s : SetId} {t : Ticket} {e : ElementId}

/-! ## Nothing is found -/

/-- A set of phantom references that is not locked, where no code of the client's runs. -/
structure World.Veils (w : World) (D : Duties) (s : SetId) : Prop where
  point : w.Point D
  size : s < w.sets.size
  kind : (w.collection s).settings.kind = .phantom
  deaf : (w.collection s).listener.IsPlain
  unhooked : w.Unhooked
  free : s ∉ w.entered

namespace World.Veils

theorem framed {es : List ElementId} (h : w.Veils D s) (hp : w'.Point D') (hf : Framed s es w w') :
    w'.Veils D' s where
  point := hp
  size := hf.sets.symm ▸ h.size
  kind := by rw [Collection.settings_eq (hf.mould s), h.kind]
  deaf := Collection.listener_eq (hf.mould s) ▸ h.deaf
  unhooked := hf.unhooked h.unhooked
  free := by
    rw [hf.rest]
    exact h.free

theorem hit_eq_none (h : w.Veils D s) (v : Value) : w.hit s v = none := by
  rw [← Option.map_eq_none_iff, hit_eq_locate? h.point.formed h.point.distinct,
    locate?_phantom h.point.formed h.kind]

section Operations

variable (hr : run.Sound)

include hr

theorem exec_sweep (h : w.Veils D s) :
    ∃ n w', (sweep run s).exec w = (.ok n, w') ∧ w'.Veils D s ∧ Framed s [] w w' ∧
      ∀ t, t.owner = s → w'.handle? t = w.left? t := by
  obtain ⟨n, w', hx, hf, hleft, -⟩ := exec_sweep_plain run h.deaf h.free
  have hp : w'.Point D := ((balanced_sweep hr h.size).ok hx h.point (.idle w)).point h.point
  exact ⟨n, w', hx, h.framed hp hf, hf, hleft⟩

theorem exec_swept (h : w.Veils D s) :
    ∃ w', (discard (sweep run s)).exec w = (.ok (), w') ∧ w'.Veils D s := by
  obtain ⟨n, w', hx, h', -⟩ := h.exec_sweep hr
  exact ⟨w', exec_discard_ok hx, h'⟩

theorem exec_ticketOf (h : w.Veils D s) (q : Query) :
    ∃ w', (ticketOf run s q).exec w = (.ok none, w') ∧ w'.Veils D s := by
  obtain ⟨w', hx, h'⟩ := h.exec_swept hr
  refine ⟨w', ?_, h'⟩
  rw [ticketOf, exec_bind_ok hx, exec_lookup run h'.unhooked h'.free q, h'.hit_eq_none]
  rfl

theorem exec_contains (h : w.Veils D s) (q : Query) :
    ∃ w', (contains run s q).exec w = (.ok false, w') ∧ w'.Veils D s := by
  obtain ⟨w', hx, h'⟩ := h.exec_ticketOf hr q
  exact ⟨w', by rw [contains, exec_map, hx]; rfl, h'⟩

theorem exec_containsAll (h : w.Veils D s) (qs : List Query) :
    ∃ w', (containsAll run s qs).exec w = (.ok false, w') ∧ w'.Veils D s := by
  cases qs with
  | nil => exact ⟨w, rfl, h⟩
  | cons q qs =>
    obtain ⟨w', hx, h'⟩ := h.exec_contains hr q
    exact ⟨w', (exec_bind_ok hx _).trans rfl, h'⟩

theorem exec_remove (h : w.Veils D s) (q : Query) :
    ∃ w', (remove run s q).exec w = (.ok false, w') ∧ w'.Veils D s := by
  obtain ⟨n, w', hx, h', -⟩ := h.exec_sweep hr
  exact ⟨w', exec_remove_missing hx h'.unhooked h'.free (h'.hit_eq_none _), h'⟩

theorem exec_removeAll (h : w.Veils D s) (qs : List Query) :
    ∃ w', (removeAll run s qs).exec w = (.ok false, w') ∧ w'.Veils D s := by
  rw [removeAll, anyOf]
  induction qs generalizing w with
  | nil => exact ⟨w, rfl, h⟩
  | cons q qs ih =>
    obtain ⟨w₁, hx, h₁⟩ := h.exec_remove hr q
    have hstep : (do return (← remove run s q) || false : Act Bool).exec w = (.ok false, w₁) :=
      exec_bind_ok hx _
    rw [List.foldlM_cons, exec_bind_ok hstep]
    exact ih h₁

theorem exec_insert (h : w.Veils D s) (e : ElementId) :
    ∃ t w', (insert run s e).exec w = (.ok (some t), w') := by
  obtain ⟨n, w', hx, h', -⟩ := h.exec_sweep hr
  have hi := exec_insert_swept hx h'.unhooked h'.free e
  rw [h'.hit_eq_none] at hi
  exact ⟨_, _, hi⟩

/-! ## Cursors return nothing -/

theorem exec_visit {c : Cursor} (h : w.Veils D c.set) (key : SlotKey) :
    ∃ w', (c.visit run key).exec w = (.ok none, w') ∧ w'.Veils D c.set := by
  have hsight : ∃ x, (guarded c.set (Cursor.sight c.set c.shard key)).exec w = (.ok x, w) ∧
      (x = .nothing ∨ x = .ended) := by
    have hget : ((w.lock c.set).shard c.set c.shard).get? key =
        w.handle? ⟨c.set, c.shard, key⟩ := rfl
    rcases hh : w.handle? ⟨c.set, c.shard, key⟩ with _ | x
    · refine ⟨.nothing, exec_guarded_lock h.free ?_, .inl rfl⟩
      rw [Cursor.sight, exec_bind_ok (exec_look _ _), hget, hh]
      rfl
    · have hk : x.kind = .phantom := (h.point.formed.fits _ x hh).kind.trans h.kind
      have hreach : (reach x).exec (w.lock c.set) = (.ok none, w.lock c.set) := by
        rw [reach, hk]
        rfl
      refine ⟨if (w.lock c.set).isAlive x.element then .nothing else .ended,
        exec_guarded_lock h.free ?_, ?_⟩
      · rw [Cursor.sight, exec_bind_ok (exec_look _ _), hget, hh]
        refine (exec_bind_ok hreach _).trans ((exec_bind_ok (exec_look _ _) _).trans ?_)
        split <;> rfl
      · split <;> simp
  obtain ⟨x, hx, rfl | rfl⟩ := hsight
  · exact ⟨w, exec_bind_ok hx _, h⟩
  · obtain ⟨w', hx', h'⟩ := h.exec_swept hr
    exact ⟨w', (exec_bind_ok hx _).trans (exec_bind_ok hx' _), h'⟩

theorem exec_nextHere {c : Cursor} (h : w.Veils D c.set) (keys : List SlotKey) :
    ∃ w', (c.nextHere run keys).exec w = (.ok ⟨{ c with pending := [] }, .ok none⟩, w') ∧
      w'.Veils D c.set := by
  induction keys generalizing w with
  | nil => exact ⟨w, rfl, h⟩
  | cons key keys ih =>
    obtain ⟨w₁, hx, h₁⟩ := h.exec_visit hr key
    obtain ⟨w', hx', h'⟩ := ih h₁
    refine ⟨w', ?_, h'⟩
    rw [Cursor.nextHere, exec_bind_ok (exec_attempt _ _), hx]
    exact hx'

omit hr in
/-- The keys of a shard are listed. -/
theorem exec_keys (h : w.Veils D s) (k : Nat) :
    (guarded s (look fun w => (w.shard s k).keys)).exec w = (.ok (w.shard s k).keys, w) :=
  exec_guarded_lock h.free rfl

theorem exec_nextAhead {c : Cursor} (h : w.Veils D c.set) (ks : List Nat) :
    ∃ x w', (c.nextAhead run ks).exec w = (.ok x, w') ∧ x.outcome = .ok none := by
  induction ks generalizing w c with
  | nil =>
    obtain ⟨w', hx, -⟩ := exec_nextHere hr (c := { c with ahead := [] }) h c.pending
    exact ⟨_, w', hx, rfl⟩
  | cons k ks ih =>
    obtain ⟨w₁, hx, h₁⟩ := exec_nextHere hr (c := { c with ahead := k :: ks }) h c.pending
    rw [Cursor.nextAhead, exec_bind_ok hx]
    simp only
    rw [exec_bind_ok (exec_attempt _ _), h₁.exec_keys]
    exact ih (c := { c with shard := k, ahead := ks, pending := (w₁.shard c.set k).keys }) h₁

theorem exec_next {c : Cursor} (h : w.Veils D c.set) :
    ∃ x w', (c.next run).exec w = (.ok x, w') ∧ x.outcome = .ok none :=
  exec_nextAhead hr (c := { c with current := none }) h c.ahead

theorem exec_restHere {c : Cursor} (h : w.Veils D c.set) (keys : List SlotKey) :
    ∃ w', (c.restHere run keys).exec w =
      (.ok ⟨{ c with pending := [], current := none }, [], .ok ()⟩, w') ∧ w'.Veils D c.set := by
  induction keys generalizing w with
  | nil => exact ⟨w, rfl, h⟩
  | cons key keys ih =>
    obtain ⟨w₁, hx, h₁⟩ := h.exec_visit hr key
    obtain ⟨w', hx', h'⟩ := ih h₁
    refine ⟨w', ?_, h'⟩
    rw [Cursor.restHere, exec_bind_ok (exec_attempt _ _), hx]
    exact hx'

theorem exec_restAhead {c : Cursor} (h : w.Veils D c.set) (ks : List Nat) :
    ∃ x w', (c.restAhead run ks).exec w = (.ok x, w') ∧ x.found = [] ∧ x.outcome = .ok () := by
  induction ks generalizing w c with
  | nil =>
    obtain ⟨w', hx, -⟩ := exec_restHere hr (c := { c with ahead := [] }) h c.pending
    exact ⟨_, w', hx, rfl, rfl⟩
  | cons k ks ih =>
    obtain ⟨w₁, hx, h₁⟩ := exec_restHere hr (c := { c with ahead := k :: ks }) h c.pending
    rw [Cursor.restAhead, exec_bind_ok hx]
    simp only
    rw [exec_bind_ok (exec_attempt _ _), h₁.exec_keys]
    simp only
    obtain ⟨y, w', hy, hf, ho⟩ := ih
      (c := { c with shard := k, ahead := ks, pending := (w₁.shard c.set k).keys, current := none }) h₁
    exact ⟨{ y with found := [] ++ y.found }, w', exec_bind_ok hy _, hf, ho⟩

theorem exec_rest {c : Cursor} (h : w.Veils D c.set) :
    ∃ x w', (c.rest run).exec w = (.ok x, w') ∧ x.outcome = .ok [] := by
  obtain ⟨x, w', hx, hf, ho⟩ := h.exec_restAhead hr c.ahead
  refine ⟨⟨x.cursor, .ok []⟩, w', ?_, rfl⟩
  rw [Cursor.rest, exec_bind_ok hx, ho, hf]
  rfl

theorem exec_toList (h : w.Veils D s) : ∃ w', (toList run s).exec w = (.ok [], w') := by
  obtain ⟨w₁, hx, h₁⟩ := h.exec_swept hr
  have hstart : (Cursor.start run s).exec w =
      (.ok { set := s, ahead := List.range (w₁.shardCount s) }, w₁) := by
    rw [Cursor.start, exec_bind_ok hx]
    rfl
  obtain ⟨x, w', hx', ho⟩ := exec_rest hr
    (c := { set := s, ahead := List.range (w₁.shardCount s) }) h₁
  refine ⟨w', ?_⟩
  rw [toList, exec_bind_ok hstart, exec_bind_ok hx', ho]
  rfl

/-! ## Filters take out what is alive -/

omit hr in
variable (run) in
/-- A shard that is to keep nothing loses the handles of living elements. -/
theorem exec_filterShard (hn : s ∉ w.entered) (k : Nat) :
    ∃ b w', (retainShard run s (fun _ => return false) k).exec w = (.ok b, w') ∧ Framed s [] w w' ∧
      ∀ t, w'.handle? t = if t.owner = s ∧ t.shard = k then
        (w.handle? t).filter fun x => !w.isAlive x.element else w.handle? t := by
  have hnone : Decides s (fun _ => return false) (fun _ => false) w :=
    fun w₁ _ _ _ => ⟨w₁, rfl, .refl s w₁, rfl⟩
  obtain ⟨w', hx, hf, hh⟩ := exec_retainShard run hn hnone k
  refine ⟨_, w', hx, hf, fun t => ?_⟩
  obtain ⟨s', k', key⟩ := t
  rw [hh]
  by_cases ht : s' = s ∧ k' = k
  · obtain ⟨rfl, rfl⟩ := ht
    rcases hx : w.handle? ⟨s', k', key⟩ with _ | x
    · simp
    · by_cases ha : w.isAlive x.element <;> simp [mem_doomed, hx, ha, Option.filter]
  · rw [if_neg fun h => ht ⟨h.1, h.2.1⟩, if_neg ht]

omit hr in
variable (run) in
theorem exec_filterShards (hn : s ∉ w.entered) (ks : List Nat) (b : Bool) :
    ∃ b' w', (ks.foldlM (fun changed k =>
        return (← retainShard run s (fun _ => return false) k) || changed) b).exec w = (.ok b', w') ∧
      ∀ t, w'.handle? t = if t.owner = s ∧ t.shard ∈ ks then
        (w.handle? t).filter fun x => !w.isAlive x.element else w.handle? t := by
  induction ks generalizing w b with
  | nil => exact ⟨b, w, rfl, by simp⟩
  | cons k ks ih =>
    obtain ⟨b₁, w₁, hx, hf, hh⟩ := exec_filterShard run hn k
    obtain ⟨b', w', hx', hh'⟩ := ih (w := w₁) (by rw [hf.rest]; exact hn) (b₁ || b)
    have hstep : (do return (← retainShard run s (fun _ => return false) k) || b : Act Bool).exec w =
        (.ok (b₁ || b), w₁) := exec_bind_ok hx _
    refine ⟨b', w', by rw [List.foldlM_cons, exec_bind_ok hstep, hx'], fun t => ?_⟩
    rw [hh', hh]
    simp only [hf.isAlive]
    by_cases ho : t.owner = s <;> by_cases hk : t.shard = k <;> by_cases hks : t.shard ∈ ks <;>
      simp [ho, hk, hks, Option.filter_filter]

/-- A filter takes out every handle of a living element that the sweep left, whatever is to be kept. -/
theorem exec_retain (h : w.Veils D s) (keep : ElementId → Act Bool) :
    ∃ b w', (retain run s keep).exec w = (.ok b, w') ∧ ∀ t, t.owner = s →
      w'.handle? t = (((sweep run s).exec w).2.handle? t).filter fun x => !w.isAlive x.element := by
  obtain ⟨n, w₁, hx, h₁, hf, -⟩ := h.exec_sweep hr
  have hdis : (discard (sweep run s)).exec w = (.ok (), w₁) := exec_discard_ok hx
  obtain ⟨b, w', hx', hh⟩ := exec_filterShards run h₁.free (List.range (w₁.shardCount s)) false
  refine ⟨b, w', ?_, fun t ho => ?_⟩
  · rw [retain, exec_bind_ok hdis, exec_bind_ok (exec_look _ _), shards, exec_bind_ok (exec_look _ _),
      h₁.kind]
    exact hx'
  · rw [hh, hx]
    simp only [hf.isAlive]
    rcases hhandle : w₁.handle? t with _ | x
    · simp
    · rw [if_pos ⟨ho, List.mem_range.mpr (ho ▸ (hasShard_of_handle? hhandle).2)⟩]

end Operations

end World.Veils

/-! ## What is counted -/

namespace World

/-- Nothing happened that ends a handle: its element is alive, the client did not put its ticket into the
channel of the set, and it was neither cleared nor filtered out. -/
structure Present (w : World) (t : Ticket) (e : ElementId) : Prop where
  stored : .stored t e ∈ w.journal.toList
  alive : w.isAlive e
  unposted : .posted (w.channelOf t.owner) t ∉ w.journal.toList
  uncleared : .departed t .cleared ∉ w.journal.toList
  unfiltered : .departed t .filtered ∉ w.journal.toList

/-- A set has a queue to itself, and nobody else takes tickets out of it. -/
structure OwnsQueue (w : World) (s : SetId) : Prop where
  queue : w.kind? (w.channelOf s) = some .queue
  own : ∀ s' < w.sets.size, w.channelOf s' = w.channelOf s → s' = s
  undrained : .drained (w.channelOf s) ∉ w.journal.toList

theorem OwnsQueue.undisturbed (h : w.OwnsQueue s) (hc : w.Codeless) : w.Undisturbed s :=
  ⟨h.own, h.undrained, hc.unbarred s⟩

theorem OwnsQueue.delivers (h : w.OwnsQueue s) : w.delivers (w.channelOf s) := by
  have hq := h.queue
  rw [kind?, Option.map_eq_some_iff] at hq
  obtain ⟨ch, hc, hk⟩ := hq
  simp [World.delivers, hc, Channel.delivers, hk]

/-- A set of phantom references has no handle removed by a query or a cursor. -/
theorem Point.not_removed (hp : w.Point D) (hk : (w.collection t.owner).settings.kind = .phantom) :
    .departed t .removed ∉ w.journal.toList := fun hm => by
  have := hp.discreet.removed t hm
  rw [hk] at this
  cases this

/-- What a sweep leaves are the handles to which nothing happened. -/
theorem Point.isSome_left?_iff (hp : w.Point D) (hk : (w.collection t.owner).settings.kind = .phantom)
    (hl : w.isLive t.owner) (hu : w.Undisturbed t.owner) (hd : w.delivers (w.channelOf t.owner))
    (hdeal : .deal t ∉ D) : (w.left? t).isSome ↔ ∃ e, w.Present t e := by
  have hnotices : t ∈ (w.takeNotices t.owner).1 ↔ t ∈ w.pending (w.channelOf t.owner) :=
    ⟨mem_of_mem_drain, mem_drain_of_delivers hd⟩
  rw [left?]
  constructor
  · intro hs
    split at hs
    · cases hs
    · rename_i hn
      obtain ⟨h, hh⟩ := Option.isSome_iff_exists.mp hs
      have hwaits : ¬ w.Waits D t := fun hw => hw.elim (fun hm => hn (hnotices.mpr hm)) hdeal
      have hout := (hp.kept.of_handle hh).1
      rw [mem_removed] at hout
      refine ⟨h.element, hp.recorded.stored t h hh, ?_, fun hm => hwaits (hp.delivered t h hh hu hm),
        fun hm => hout ⟨.cleared, by decide, hm⟩, fun hm => hout ⟨.filtered, by decide, hm⟩⟩
      exact ((hp.covered t h hh hl hu).resolve_right fun hx => hwaits hx.2).1
  · rintro ⟨e, he⟩
    have hlost : ¬ w.Warranted (w.channelOf t.owner) t := by
      rintro (⟨e', -, hs, hd⟩ | hm)
      · exact hd (hp.recorded.unique _ _ _ he.stored hs ▸ he.alive)
      · exact he.unposted hm
    rw [if_neg fun hm => hlost (hp.warrants.waiting _ t (hnotices.mp hm))]
    refine hp.kept.isSome_handle? (mem_stored.mpr ⟨e, he.stored⟩) (fun hm => ?_)
      fun hm => hlost (hp.warrants.swept t (mem_swept.mp hm))
    obtain ⟨d, hd, hm⟩ := mem_removed.mp hm
    cases d with
    | swept => exact hd rfl
    | removed => exact hp.not_removed hk hm
    | cleared => exact he.uncleared hm
    | filtered => exact he.unfiltered hm

end World

/-- The length of a set is the number of handles to which nothing happened. -/
theorem World.Veils.exec_length (hr : run.Sound) (h : w.Veils D s) (hl : w.isLive s)
    (hu : w.Undisturbed s) (hd : w.delivers (w.channelOf s)) (hdeal : ∀ t, t.owner = s → .deal t ∉ D) :
    ∃ (ts : List Ticket) (w' : World), ts.Nodup ∧ (∀ t, t ∈ ts ↔ t.owner = s ∧ ∃ e, w.Present t e) ∧
      (length run s).exec w = (.ok ts.length, w') := by
  obtain ⟨n, w', hx, h', -, hleft⟩ := h.exec_sweep hr
  have hdis : (discard (sweep run s)).exec w = (.ok (), w') := exec_discard_ok hx
  refine ⟨(w'.ticketsOf s).map Prod.fst, w', w'.nodup_ticketsOf s, fun t => ?_, ?_⟩
  · simp only [List.mem_map, Prod.exists, mem_ticketsOf, exists_and_right, exists_eq_right,
      exists_and_left]
    refine and_congr_right fun ho => ?_
    subst ho
    rw [← h.point.isSome_left?_iff h.kind hl hu hd (hdeal t rfl), ← hleft t rfl,
      Option.isSome_iff_exists]
  · rw [length, exec_bind_ok hdis, exec_count h'.free, List.length_map, length_ticketsOf]

/-! ## Who is told that an element ended -/

/-- The watchers of a living element for a set are those of its handles there. -/
theorem World.Point.watchers_perm (hp : w.Point D) (hl : w.isLive s) (ha : w.isAlive e)
    (hd : ∀ t, .unwatch t e ∉ D) :
    ((w.watchers e).filter fun x => x.ticket.owner = s).Perm
      ((w.ticketsOn s e).map fun t => ⟨w.channelOf s, t⟩) := by
  have htickets : ((w.ticketsFor e).filter fun t => t.owner = s).Perm (w.ticketsOn s e) := by
    refine (List.perm_ext_iff_of_nodup ((w.nodup_ticketsFor e).filter _)
      (w.nodup_ticketsOn s e)).mpr fun t => ?_
    rw [List.mem_filter, mem_ticketsFor, mem_ticketsOn, decide_eq_true_eq]
    constructor
    · rintro ⟨⟨hx, -⟩, ho⟩
      exact ⟨ho, hx⟩
    · rintro ⟨rfl, hx⟩
      exact ⟨⟨hx, hl⟩, rfl⟩
  refine ((hp.mirrored.perm hp.recorded ha hd).filter _).trans ?_
  rw [List.filter_map]
  refine .trans (.of_eq ?_) (htickets.map _)
  refine List.map_congr_left fun t ht => ?_
  rw [of_decide_eq_true (List.mem_filter.mp ht).2]

/-- After the last reference to an element went it comes into no set, and its handles are not filtered
out. -/
theorem Course.of_last (hu : u.Sane (.hold e ::ₘ E)) (h1 : u.strong e = 1)
    (c : Course .idle ((u.release e).2, E) (w, D)) :
    Later u w ∧ ¬ w.isAlive e ∧ (.stored t e ∈ w.journal.toList → .stored t e ∈ u.journal.toList) ∧
      (.stored t e ∈ u.journal.toList → .departed t .filtered ∈ w.journal.toList →
        t ∈ u.books.removed) := by
  have hpos : 0 < u.strong e := by omega
  have hm : Move .idle (u, .hold e ::ₘ E) ((u.release e).2, E) := .release
  have hv : (u.release e).2.Sane E := hm.sane hu
  have hl : Later u (u.release e).2 := hm.later hu.formed hu.counted
  have hend : ¬ (u.release e).2.isAlive e := by
    rw [isAlive_iff, strong_release hpos, if_pos rfl]
    omega
  have he : e < (u.release e).2.cells.size := by
    rw [size_cells_release hpos]
    exact lt_size_of_strong hpos
  obtain ⟨hst, hfil⟩ := c.of_ended (t := t) hv he hend
  refine ⟨hl.trans (c.later hv), (c.later hv).dead_of_not_isAlive he hend, fun ht => ?_, fun ht hf => ?_⟩
  · obtain ⟨l, hj, hall⟩ := journal_release u e
    have ht := hst ht
    rw [hj, List.mem_append] at ht
    exact ht.resolve_right fun hm => nomatch hall _ hm
  · rw [← books_release u e]
    exact mem_removed.mpr ⟨.filtered, by decide, hfil (hl.mem_journal ht) hf⟩

section Ending

variable (hr : run.Sound) (h : w.Veils D s) (hu : u.Point (.hold e ::ₘ E)) (h1 : u.strong e = 1)
  (c : Course .idle ((u.release e).2, E) (w, D)) (hl : w.isLive s) (hund : w.Undisturbed s)
  (hd : w.delivers (w.channelOf s)) (hdeal : ∀ t, t.owner = s → .deal t ∉ D)
  (hreport : ∀ t, t.owner = s → .report t ∉ D)

include hr h hu h1 c hl hund hd hdeal hreport

/-- What is not cleared when its element ended is reported by the next sweep at the latest. -/
theorem World.Veils.reported_of_sweep (ht : t ∈ u.ticketsOn s e)
    (hcleared : .departed t .cleared ∉ w.journal.toList) :
    t ∈ ((sweep run s).exec w).2.books.reported := by
  obtain ⟨ho, x, hx, rfl⟩ := mem_ticketsOn.mp ht
  have hstored := hu.recorded.stored t x hx
  obtain ⟨hlater, hdead, -, hfiltered⟩ := Course.of_last (t := t) hu.sane h1 c
  have hst := hlater.mem_journal hstored
  have hout : t ∉ w.books.removed := fun hm => by
    obtain ⟨d, hd, hm⟩ := mem_removed.mp hm
    cases d with
    | swept => exact hd rfl
    | removed => exact h.point.not_removed (ho ▸ h.kind) hm
    | cleared => exact hcleared hm
    | filtered => exact (hu.kept.of_handle hx).1 (hfiltered hstored hm)
  have hacc : ((sweep run s).exec w).2.books.removed.count t +
      ((sweep run s).exec w).2.books.reported.count t = 1 :=
    accounted_of_sweep hr h.point h.size h.free hl hund hd ho (mem_stored.mpr ⟨_, hst⟩)
      (fun y hy => h.point.recorded.unique _ _ _ hst (h.point.recorded.stored t y hy) ▸ hdead)
      (hdeal t ho) (hreport t ho)
  rw [(drained_of_sweep hr h.point h.size (h.deaf.isInert run)).2, List.count_eq_zero.mpr hout] at hacc
  exact List.count_pos_iff.mp (by omega)

/-- When an element ended, and its handles in a set of phantom references are not cleared before the next
sweep, then by that sweep at the latest the end is reported under each of their tickets, and under no other
than those of handles that sweeps had taken out before. -/
theorem World.Veils.reportsOn_of_sweep
    (hcleared : ∀ t ∈ u.ticketsOn s e, .departed t .cleared ∉ w.journal.toList) :
    (((sweep run s).exec w).2.reportsOn s e).Perm (u.sweptOn s e ++ u.ticketsOn s e) := by
  have hsweep : Course .idle (w, D) (((sweep run s).exec w).2, D) :=
    (balanced_sweep hr h.size).course h.point (.idle w)
  have hk := (hsweep.point h.point).kept
  have hlast := fun t => Course.of_last (t := t) hu.sane h1 (c.trans hsweep)
  have hlater := (hlast default).1
  refine (List.perm_ext_iff_of_nodup (nodup_reportsOn hk s e) ?_).mpr fun t => ?_
  · refine (nodup_sweptOn hu.kept s e).append (u.nodup_ticketsOn s e) fun t ht ht' => ?_
    obtain ⟨-, x, hx, -⟩ := mem_ticketsOn.mp ht'
    exact (hu.kept.of_handle hx).2 (mem_sweptOn.mp ht).1
  rw [List.mem_append, mem_reportsOn, mem_sweptOn]
  constructor
  · rintro ⟨ht, ho, hstored⟩
    have hstored := (hlast t).2.2.1 hstored
    rw [or_iff_not_imp_right]
    -- it was stored, and neither is it there nor was it removed
    refine fun hx => ⟨by_contra fun hsw => hx ?_, ho, hstored⟩
    have hrem : t ∉ u.books.removed := fun hm => by
      obtain ⟨d, hd, hm⟩ := mem_removed.mp hm
      exact (hk.of_removed (mem_removed.mpr ⟨d, hd, hlater.mem_journal hm⟩)).2 ht
    obtain ⟨x, hx⟩ := Option.isSome_iff_exists.mp
      (hu.kept.isSome_handle? (mem_stored.mpr ⟨e, hstored⟩) hrem hsw)
    exact mem_ticketsOn.mpr ⟨ho, x, hx, hu.recorded.unique _ _ _ (hu.recorded.stored t x hx) hstored⟩
  · rintro (⟨hsw, ho, hstored⟩ | ht)
    · have hsw' := mem_swept.mpr (hlater.mem_journal (mem_swept.mp hsw))
      exact ⟨(hk.mem_swept.mp hsw').resolve_right (hreport t ho), ho, hlater.mem_journal hstored⟩
    · obtain ⟨ho, x, hx, rfl⟩ := mem_ticketsOn.mp ht
      exact ⟨reported_of_sweep hr h hu h1 c hl hund hd hdeal hreport ht (hcleared t ht), ho,
        hlater.mem_journal (hu.recorded.stored t x hx)⟩

end Ending

namespace World

/-- No query, no removal and no cursor of a set comes upon an element, and every element may come in. -/
structure ShowsNothing (w : World) (run : Runner) (s : SetId) : Prop where
  contains : ∀ q, ((contains run s q).exec w).1 = .ok false
  containsAll : ∀ qs, ((containsAll run s qs).exec w).1 = .ok false
  remove : ∀ q, ((remove run s q).exec w).1 = .ok false
  removeAll : ∀ qs, ((removeAll run s qs).exec w).1 = .ok false
  ticketOf : ∀ q, ((ticketOf run s q).exec w).1 = .ok none
  toList : ((toList run s).exec w).1 = .ok []
  next : ∀ c : Cursor, c.set = s → ∃ x, ((c.next run).exec w).1 = .ok x ∧ x.outcome = .ok none
  rest : ∀ c : Cursor, c.set = s → ∃ x, ((c.rest run).exec w).1 = .ok x ∧ x.outcome = .ok []
  insert : ∀ e, ∃ t, ((insert run s e).exec w).1 = .ok (some t)

theorem Veils.showsNothing (hr : run.Sound) (h : w.Veils D s) : w.ShowsNothing run s := by
  have fst {α : Type} {a : Act α} {x : α} {P : World → Prop}
      (hx : ∃ w', a.exec w = (.ok x, w') ∧ P w') : (a.exec w).1 = .ok x := by
    obtain ⟨w', hx, -⟩ := hx
    rw [hx]
  refine ⟨fun q => fst (h.exec_contains hr q), fun qs => fst (h.exec_containsAll hr qs),
    fun q => fst (h.exec_remove hr q), fun qs => fst (h.exec_removeAll hr qs),
    fun q => fst (h.exec_ticketOf hr q), ?_, ?_, ?_, fun e => ?_⟩
  · obtain ⟨w', hx⟩ := h.exec_toList hr
    rw [hx]
  · rintro c rfl
    obtain ⟨x, w', hx, ho⟩ := h.exec_next hr
    exact ⟨x, by rw [hx], ho⟩
  · rintro c rfl
    obtain ⟨x, w', hx, ho⟩ := h.exec_rest hr
    exact ⟨x, by rw [hx], ho⟩
  · obtain ⟨t, w', hx⟩ := h.exec_insert hr e
    exact ⟨t, by rw [hx]⟩

end World

namespace Session

/-- Sets of phantom references track presence only. The client brings no scripts. At every point of every
run, between commands too, and for every set of phantom references that is not locked:

* nothing is found in it, nothing is removed by value, no cursor returns anything, and every element comes
  in, also one that is there;
* its listener was never told of an element, also where the client put the ticket of a living element
  into the channel;
* a living element is watched once for each of its handles there;
* a filter, unless it is asked to retain all of nothing, takes out every handle of a living element that its
  sweep leaves.

If the set has a queue to itself, and nothing that was drawn from the queue is still to be dealt with,

* its length is the number of the tickets of handles to which nothing happened;
* an element that ended, and whose handles in the set were not cleared since, is by the next sweep at the
  latest reported once under each of the tickets that it had in the set, besides those that sweeps had taken
  out before. -/
theorem phantom_sets_track_presence (depth : Nat) :
    (∀ cs, (∀ c ∈ cs, c.IsScriptless) →
      let w := carryOutAll depth .empty cs
      w.Point 0 ∧ w.Codeless ∧ w.entered = []) ∧
    let run := runner depth
    ∀ (w : World) D s, w.Point D → w.Codeless → w.isLive s →
      (w.collection s).settings.kind = .phantom → s ∉ w.entered →
      w.ShowsNothing run s ∧
      (∀ t hash last named, t.owner = s → .reported t hash last named ∈ w.journal.toList →
        last = none) ∧
      (∀ e, w.isAlive e → (∀ t, .unwatch t e ∉ D) →
        ((w.watchers e).filter fun x => x.ticket.owner = s).Perm
          ((w.ticketsOn s e).map fun t => ⟨w.channelOf s, t⟩)) ∧
      (∀ a, (∃ keep, a = retain run s keep) ∨ (∃ qs, qs ≠ [] ∧ a = retainAll run s qs) →
        ∃ b w', a.exec w = (.ok b, w') ∧ ∀ t, t.owner = s →
          w'.handle? t = (((sweep run s).exec w).2.handle? t).filter fun x => !w.isAlive x.element) ∧
      (w.OwnsQueue s → (∀ t, t.owner = s → .deal t ∉ D ∧ .report t ∉ D) →
        (∃ ts : List Ticket, ts.Nodup ∧ (∀ t, t ∈ ts ↔ t.owner = s ∧ ∃ e, w.Present t e) ∧
          ((length run s).exec w).1 = .ok ts.length) ∧
        ∀ (u : World) E e, u.Point (.hold e ::ₘ E) → u.strong e = 1 →
          Course .idle ((u.release e).2, E) (w, D) →
          (∀ t ∈ u.ticketsOn s e, .departed t .cleared ∉ w.journal.toList) →
          let w' := ((sweep run s).exec w).2
          (w'.reportsOn s e).Nodup ∧ (w'.reportsOn s e).Perm (u.sweptOn s e ++ u.ticketsOn s e)) := by
  have hr := sound_runner depth
  refine ⟨fun cs hc => ⟨point_carryOutAll depth cs, codeless_carryOutAll depth hc⟩,
    fun w D s hp hc hl hk hn => ?_⟩
  have h : w.Veils D s := ⟨hp, lt_size_of_isLive hl, hk, hc.deaf s, hc.scriptless.unhooked, hn⟩
  refine ⟨h.showsNothing hr, ?_, fun e ha hd => hp.watchers_perm hl ha hd, ?_, fun hq hdue => ⟨?_, ?_⟩⟩
  · rintro t hash last named rfl hm
    cases last with
    | none => rfl
    | some e =>
      have := hp.discreet.told t hash (some e) named hm rfl
      rw [hk] at this
      cases this
  · rintro a (⟨keep, rfl⟩ | ⟨qs, hqs, rfl⟩)
    · exact h.exec_retain hr keep
    · rw [retainAll, if_neg (by simpa using hqs)]
      exact h.exec_retain hr _
  · obtain ⟨ts, w', hts, hmem, hx⟩ := h.exec_length hr hl (hq.undisturbed hc) hq.delivers
      fun t ho => (hdue t ho).1
    exact ⟨ts, hts, hmem, by rw [hx]⟩
  · intro u E e hu h1 c hcleared
    have hsweep : Course .idle (w, D) (((sweep (runner depth) s).exec w).2, D) :=
      (balanced_sweep hr h.size).course hp (.idle w)
    exact ⟨nodup_reportsOn (hsweep.point hp).kept s e,
      h.reportsOn_of_sweep hr hu h1 c hl (hq.undisturbed hc) hq.delivers (fun t ho => (hdue t ho).1)
        (fun t ho => (hdue t ho).2) hcleared⟩

/-- An element comes three times into a set of phantom references, and the client asks for the first handle
to be reclaimed. -/
def presenceRun : List Command :=
  [.new "x" (.number 1) none none, .newChannel "c" (.ok .queue),
    .build "p" (.ok ⟨{ capacity := 4, concurrency := 1, kind := .phantom }, some "c", .constant 7, .silent⟩),
    .insert "p" "x" (some "a"), .insert "p" "x" none, .insert "p" "x" none, .enqueue "c" ["a"],
    .sweep "p"]

/-- Two handles are left, each with its watcher. When the element ends, the next sweep reports them both. -/
theorem phantom_sets_track_presence_thrice :
    let w := carryOutAll 0 .empty presenceRun
    let u : World := { w with owners := w.owners.erase "x" }
    let v := (u.release 0).2
    w.ShowsNothing (runner 0) 0 ∧
      (w.watchers 0).Perm [⟨0, ⟨0, 0, 1, 1⟩⟩, ⟨0, ⟨0, 0, 2, 1⟩⟩] ∧
      (∃ ts : List Ticket, (∀ t, t ∈ ts ↔ t.owner = 0 ∧ ∃ e, w.Present t e) ∧
        ((length (runner 0) 0).exec w).1 = .ok ts.length) ∧
      (((sweep (runner 0) 0).exec v).2.reportsOn 0 0).Perm
        [⟨0, 0, 0, 1⟩, ⟨0, 0, 1, 1⟩, ⟨0, 0, 2, 1⟩] := by
  intro w u v
  obtain ⟨hruns, h⟩ := phantom_sets_track_presence 0
  obtain ⟨hp, hc, -⟩ := hruns presenceRun (by
    simp only [presenceRun, List.forall_mem_cons, List.not_mem_nil, false_implies, implies_true,
      and_true, Command.IsScriptless, true_and]
    rintro _ ⟨rfl⟩
    exact fun _ => rfl)
  have c : Course .idle (w, 0) (u, .hold 0 ::ₘ 0) := .single (.disown (by decide +kernel))
  have hu := c.point hp
  have hu' : u.Codeless := hc.of_cells (fun _ => rfl) rfl rfl
  have hv : (u.release 0).2.Point 0 := Course.point (L := .idle) (.single .release) hu
  obtain ⟨hnone, -, hwatch, -, hlen⟩ := h w 0 0 hp hc (by decide +kernel) (by decide +kernel)
    (by decide +kernel)
  obtain ⟨ts, -, hts, hx⟩ := (hlen ⟨by decide +kernel, by decide +kernel, by decide +kernel⟩
    (by simp)).1
  obtain ⟨-, -, -, -, hend⟩ := h v 0 0 hv (hu'.release 0) (by decide +kernel) (by decide +kernel)
    (by decide +kernel)
  have hreports := ((hend ⟨by decide +kernel, by decide +kernel, by decide +kernel⟩
    (by simp)).2 u 0 0 hu (by decide +kernel) .refl (by decide +kernel)).2
  have hswept : u.sweptOn 0 0 ++ u.ticketsOn 0 0 = [⟨0, 0, 0, 1⟩, ⟨0, 0, 1, 1⟩, ⟨0, 0, 2, 1⟩] := by
    decide +kernel
  refine ⟨hnone, ?_, ⟨ts, hts, hx⟩, hswept ▸ hreports⟩
  have hall : ((w.watchers 0).filter fun x => x.ticket.owner = 0) = w.watchers 0 := by decide +kernel
  have htickets : (w.ticketsOn 0 0).map (fun t => (⟨w.channelOf 0, t⟩ : Watcher)) =
      [⟨0, ⟨0, 0, 1, 1⟩⟩, ⟨0, ⟨0, 0, 2, 1⟩⟩] := by decide +kernel
  exact hall ▸ htickets ▸ hwatch 0 (by decide +kernel) (by simp)

end Session

end WeakSet
