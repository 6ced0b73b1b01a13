import WeakSet.Proofs.Books
import WeakSet.Proofs.Borrowing

/-!
# Acts on a locked set

While a shard of a set is locked every entry to the set is refused. So an operation of the set that
is called meanwhile changes no handle and no watcher and calls no listener. But a sweep takes its
batch out of the channel before the first entry, and a cursor moves on before it looks:

* `Keeps`: what an act may change of a world in which a set is locked, with one rule for each way to
  make acts of others and one lemma for each operation;
* `Cursor.passOver`: what a step makes of a cursor.
-/

namespace WeakSet

open Act

namespace World

/-- A shard of a set is locked, of those that it has. -/
structure IsLocked (w : World) (s : SetId) : Prop where
  entered : s ∈ w.entered
  roomy : 0 < w.shardCount s

/-- The shards of a locked set, one at least. -/
theorem IsLocked.range {w : World} {s : SetId} (h : w.IsLocked s) :
    ∃ ks, List.range (w.shardCount s) = 0 :: ks := by
  obtain ⟨n, hn⟩ := Nat.exists_eq_succ_of_ne_zero (Nat.ne_of_gt h.roomy)
  rw [hn, List.range_succ_eq_map]
  exact ⟨_, rfl⟩

/-- The world after operations of a locked set, of which some swept it if `drains`. -/
structure Refused (w : World) (s : SetId) (drains : Bool) (w' : World) : Prop where
  rest : w' = { w with cells := w'.cells, channels := w'.channels, journal := w'.journal }
  strong : ∀ e, w'.strong e = w.strong e
  watchers : ∀ e, w'.watchers e = w.watchers e
  channels : w'.channels = if drains then (w.takeNotices s).2.channels else w.channels
  books : w'.books = w.books

variable {w w' w'' : World} {s : SetId} {d d' : Bool}

theorem channels_takeNotices_congr (hs : w'.sets = w.sets) (hc : w'.channels = w.channels) :
    (w'.takeNotices s).2.channels = (w.takeNotices s).2.channels := by
  refine Array.ext_getElem? fun i => ?_
  rw [takeNotices, takeNotices, getElem?_channels_drain, getElem?_channels_drain, hc,
    collection_congr hs]

/-- What is drained once is drained. -/
theorem channels_takeNotices_twice (hs : w'.sets = w.sets)
    (hc : w'.channels = (w.takeNotices s).2.channels) :
    (w'.takeNotices s).2.channels = w'.channels := by
  have he : (w'.collection s).channel = (w.collection s).channel := by rw [collection_congr hs]
  refine Array.ext_getElem? fun i => ?_
  rw [takeNotices, he, getElem?_channels_drain, hc, takeNotices, getElem?_channels_drain,
    Option.map_map]
  congr 1
  funext ch
  by_cases hi : i = (w.collection s).channel
  · simp [hi, Channel.drain_drain]
  · simp [hi]

namespace Refused

theorem refl (w : World) (s : SetId) : w.Refused s false w :=
  ⟨rfl, fun _ => rfl, fun _ => rfl, rfl, rfl⟩

theorem sets (h : w.Refused s d w') : w'.sets = w.sets := by rw [h.rest]

theorem locked (h : w.Refused s d w') (hw : w.IsLocked s) : w'.IsLocked s :=
  ⟨by rw [h.rest]; exact hw.entered, by
    rw [shardCount, collection_congr h.sets]; exact hw.roomy⟩

theorem trans (h : w.Refused s d w') (h' : w'.Refused s d' w'') (hd : d' = true → d = true) :
    w.Refused s d w'' where
  rest := by rw [h'.rest, h.rest]
  strong e := (h'.strong e).trans (h.strong e)
  watchers e := (h'.watchers e).trans (h.watchers e)
  books := h'.books.trans h.books
  channels := by
    cases d' with
    | false => exact h'.channels.trans h.channels
    | true =>
      have hc := h.channels
      rw [hd rfl] at hc ⊢
      exact (h'.channels.trans (channels_takeNotices_twice h.sets hc)).trans hc

theorem note (w : World) (s : SetId) {x : Entry} (hx : ∀ b : Books, b.enter x = b) :
    w.Refused s false (w.note x) :=
  ⟨rfl, fun _ => rfl, fun _ => rfl, rfl, by rw [books_note, hx]⟩

theorem takeNotices (w : World) (s : SetId) : w.Refused s true (w.takeNotices s).2 := by
  have he : (w.takeNotices s).2 = { w with channels := (w.takeNotices s).2.channels } := drain_eq _ _
  refine ⟨by rw [he], fun e => ?_, fun e => ?_, rfl, ?_⟩ <;> rw [he]
  · rfl
  · rfl
  · exact books_congr rfl

end Refused

end World

/-! ## Acts while a set is locked -/

section Acts

variable {α β : Type} {run : Runner} {w w' : World} {s : SetId} {d d' : Bool}

/-- What an act may change while set `s` is locked. -/
def Keeps (s : SetId) (d : Bool) (a : Act α) (w : World) : Prop :=
  w.IsLocked s → w.Refused s d (a.exec w).2

/-- An act that begins by entering a set. -/
def Stopped (s : SetId) (a : Act α) (w : World) : Prop :=
  w.IsLocked s → a.exec w = (.error reentered, w.note (.barred s))

namespace Stopped

theorem guarded {a : Act α} : Stopped s (guarded s a) w :=
  fun h => exec_guarded_of_mem h.entered a

theorem bind {a : Act α} {f : α → Act β} (h : Stopped s a w) : Stopped s (a >>= f) w :=
  fun hw => exec_bind_error (h hw) f

theorem look {f : World → α} {g : α → Act β} (h : Stopped s (g (f w)) w) :
    Stopped s (look f >>= g) w := h

theorem keeps {a : Act α} (h : Stopped s a w) : Keeps s false a w := by
  intro hw
  rw [h hw]
  exact .note w s fun _ => rfl

end Stopped

namespace Keeps

theorem pure {x : α} : Keeps s false (pure x) w := fun _ => .refl w s

theorem throw {p : Panic} : Keeps s false (throw p : Act α) w := fun _ => .refl w s

theorem bind {a : Act α} {f : α → Act β} (ha : Keeps s d a w) (hf : ∀ x w', Keeps s d' (f x) w')
    (hd : d' = true → d = true) : Keeps s d (a >>= f) w := by
  intro hw
  have h := ha hw
  rw [exec_bind]
  rcases hx : a.exec w with ⟨p | x, w'⟩ <;> rw [hx] at h
  · exact h
  · exact h.trans (hf x w' (h.locked hw)) hd

theorem map {a : Act α} {f : α → β} (h : Keeps s d a w) : Keeps s d (f <$> a) w := by
  intro hw
  rw [exec_map]
  exact h hw

theorem look {f : World → α} {g : α → Act β} (h : Keeps s d (g (f w)) w) :
    Keeps s d (look f >>= g) w := h

theorem log (l : LogLine) : Keeps s false (log l) w := fun _ => .note w s fun _ => rfl

end Keeps

theorem keeps_foldlM {f : β → α → Act β} (h : ∀ b x w, Keeps s d (f b x) w) (b : β) (xs : List α) :
    Keeps s (d && !xs.isEmpty) (xs.foldlM f b) w := by
  induction xs generalizing b w with
  | nil => simpa using Keeps.pure
  | cons x xs ih =>
    rw [List.foldlM_cons]
    simpa using Keeps.bind (h b x w) (fun b' w' => ih b') (by simp_all)

theorem keeps_anyOf {f : α → Act Bool} (h : ∀ x w, Keeps s d (f x) w) (xs : List α) :
    Keeps s (d && !xs.isEmpty) (anyOf f xs) w :=
  keeps_foldlM (fun _ x w => .bind (h x w) (fun _ _ => .pure) (by simp)) _ _

theorem keeps_allOf {f : α → Act Bool} (h : ∀ x w, Keeps s d (f x) w) (xs : List α) :
    Keeps s (d && !xs.isEmpty) (allOf f xs) w := by
  induction xs generalizing w with
  | nil =>
    rw [List.isEmpty_nil, Bool.not_true, Bool.and_false]
    exact .pure
  | cons x xs ih =>
    rw [List.isEmpty_cons, Bool.not_false, Bool.and_true]
    intro hw
    have hx := h x w hw
    rw [allOf, exec_bind]
    rcases he : (f x).exec w with ⟨p | b, w'⟩ <;> rw [he] at hx
    · exact hx
    · cases b with
      | true => exact hx.trans (ih (hx.locked hw)) (by simp_all)
      | false => exact hx

end Acts

/-! ## The operations of a locked set -/

section Operations

variable {α : Type} {run : Runner} {w : World} {s : SetId} {a : Act α}

theorem keeps_sweepOne (b : Batch) (t : Ticket) : Keeps s false (sweepOne run s b t) w := by
  refine .look ?_
  split
  · exact .bind (.log _) (fun _ _ => .pure) id
  · rename_i h
    obtain rfl := owner_of_not_isForeign h
    exact (Stopped.bind .guarded).keeps

theorem keeps_closeBatch (b : Batch) : Keeps s false (closeBatch b) w := by
  unfold closeBatch
  by_cases hb : 0 < b.reclaimed <;> simp only [hb, ite_true, ite_false]
  on_goal 1 => refine .bind (.log _) (fun _ w => ?_) id
  all_goals
    split
    · exact .pure
    · exact .throw

/-- A sweep takes its batch out of the channel, and then comes to nothing. -/
theorem keeps_sweep : Keeps s true (sweep run s) w := by
  intro hw
  have hd := World.Refused.takeNotices w s
  have hb : Keeps s false
      (do closeBatch (← (w.takeNotices s).1.foldlM (sweepOne run s) {})) (w.takeNotices s).2 :=
    .bind (keeps_foldlM (d := false) (fun b t w => keeps_sweepOne b t) {} _)
      (fun b w' => keeps_closeBatch b) id
  exact hd.trans (hb (hd.locked hw)) (by simp)

/-- An operation that sweeps first. -/
theorem keeps_swept (h : ∀ w', Keeps s false a w') :
    Keeps s true (discard (sweep run s) >>= fun _ => a) w :=
  .bind (.map keeps_sweep) (fun _ w' => h w') (by simp)

theorem stopped_probeThen {q : Query} {go : UInt64 → Nat → Option SlotKey → Act α} :
    Stopped s (probeThen run s q go) w :=
  .look .guarded

theorem keeps_insert (e : ElementId) : Keeps s true (insert run s e) w :=
  keeps_swept fun _ => (Stopped.bind stopped_probeThen).keeps

theorem keeps_add (e : ElementId) : Keeps s true (add run s e) w :=
  .map (keeps_insert e)

theorem keeps_ticketOf (q : Query) : Keeps s true (ticketOf run s q) w :=
  keeps_swept fun _ => (Stopped.bind stopped_probeThen).keeps

theorem keeps_contains (q : Query) : Keeps s true (contains run s q) w :=
  .map (keeps_ticketOf q)

theorem keeps_remove (q : Query) : Keeps s true (remove run s q) w :=
  keeps_swept fun _ => (Stopped.bind stopped_probeThen).keeps

theorem stopped_count : Stopped s (count s) w := by
  intro hw
  obtain ⟨ks, hks⟩ := hw.range
  have h : Stopped s ((0 :: ks).foldlM
      (fun n k => do return n + (← guarded s (look fun w => (w.shard s k).size))) 0) w := by
    rw [List.foldlM_cons]
    exact Stopped.bind (Stopped.bind .guarded)
  rw [← hks] at h
  exact h hw

theorem keeps_length : Keeps s true (length run s) w :=
  keeps_swept fun _ => stopped_count.keeps

/-- Nobody is told the length of a locked set. -/
theorem exec_length_error (run : Runner) (hw : w.IsLocked s) :
    ∃ p w', (length run s).exec w = (.error p, w') := by
  have h : w.Refused s true ((sweep run s).exec w).2 := keeps_sweep hw
  rw [length, exec_bind, exec_discard]
  rcases hx : (sweep run s).exec w with ⟨p | n, w'⟩ <;> rw [hx] at h
  · exact ⟨p, w', rfl⟩
  · exact ⟨_, _, stopped_count (h.locked hw)⟩

theorem keeps_retain (keep : ElementId → Act Bool) : Keeps s true (retain run s keep) w :=
  keeps_swept fun _ => .look (.look (keeps_anyOf (d := false)
    (fun _ _ => (Stopped.bind .guarded).keeps) _))

theorem keeps_retainAll (qs : List Query) : Keeps s true (retainAll run s qs) w := by
  unfold retainAll
  split
  · exact keeps_swept fun _ => .pure
  · exact keeps_retain _

theorem keeps_clear : Keeps s false (clear s) w := by
  refine .look (.bind ?_ (fun _ _ => .log _) id)
  cases List.range (w.shardCount s) with
  | nil => exact .pure
  | cons k ks =>
    rw [List.forM_eq_forM, List.forM_cons]
    exact (Stopped.bind (Stopped.bind .guarded)).keeps

theorem stopped_reachable : Stopped s (reachable run s) w := by
  intro hw
  obtain ⟨ks, hks⟩ := hw.range
  rw [reachable, exec_bind_ok (show (shards s).exec w = (.ok (0 :: ks), w) by
    rw [shards, exec_look, hks])]
  rw [reachableIn, exec_bind_ok (exec_attempt _ w), exec_guarded_of_mem hw.entered]
  rfl

theorem keeps_hashOf : Keeps s true (hashOf run s) w :=
  keeps_swept fun _ => (Stopped.bind stopped_reachable).keeps

/-- The comparison of a locked set with another one does not get to the other one. -/
theorem keeps_sameSets {s' : SetId} (hne : s ≠ s') : Keeps s true (sameSets run s s') w := by
  intro hw
  have h : w.Refused s true ((length run s).exec w).2 := keeps_length hw
  obtain ⟨p, w', hx⟩ := exec_length_error run hw
  rw [hx] at h
  rw [sameSets, if_neg hne, exec_bind_error hx]
  exact h

end Operations

/-! ## Cursors of a locked set -/

namespace Cursor

variable {run : Runner} {w : World}

/-- A cursor that moved on without a look: past a key, or else into the next shard. -/
def passOver (c : Cursor) : Cursor :=
  match c.pending, c.ahead with
  | _ :: keys, _ => { c with pending := keys, current := none }
  | [], k :: ks => { c with shard := k, ahead := ks, current := none }
  | [], [] => { c with current := none }

theorem set_passOver (c : Cursor) : c.passOver.set = c.set := by
  unfold passOver
  split <;> rfl

/-- Whether a cursor is at the end. -/
def isDone (c : Cursor) : Bool :=
  c.pending.isEmpty && c.ahead.isEmpty

theorem exec_visit_of_mem {c : Cursor} (h : c.set ∈ w.entered) (key : SlotKey) :
    (c.visit run key).exec w = (.error reentered, w.note (.barred c.set)) :=
  exec_bind_error (exec_guarded_of_mem h _) _

theorem exec_nextHere_of_mem {c : Cursor} (h : c.set ∈ w.entered) (key : SlotKey)
    (keys : List SlotKey) :
    (c.nextHere run (key :: keys)).exec w =
      (.ok ⟨{ c with pending := keys }, .error reentered⟩, w.note (.barred c.set)) := by
  rw [nextHere, exec_bind_ok (exec_attempt _ w), exec_visit_of_mem h]
  rfl

theorem exec_restHere_of_mem {c : Cursor} (h : c.set ∈ w.entered) (key : SlotKey)
    (keys : List SlotKey) :
    (c.restHere run (key :: keys)).exec w =
      (.ok ⟨{ c with pending := keys, current := none }, [], .error reentered⟩,
        w.note (.barred c.set)) := by
  rw [restHere, exec_bind_ok (exec_attempt _ w), exec_visit_of_mem h]
  rfl

/-- A step in a locked set moves the cursor on all the same. -/
theorem exec_next_of_mem {c : Cursor} (h : c.set ∈ w.entered) :
    (c.next run).exec w =
      if c.isDone then (.ok ⟨c.passOver, .ok none⟩, w)
      else (.ok ⟨c.passOver, .error reentered⟩, w.note (.barred c.set)) := by
  obtain ⟨s, k, ahead, pending, current⟩ := c
  unfold next
  rcases pending with _ | ⟨key, keys⟩ <;> rcases ahead with _ | ⟨j, js⟩
  · rfl
  · rw [nextAhead, nextHere, exec_bind_ok (exec_pure _ w), exec_bind_ok (exec_attempt _ w),
      exec_guarded_of_mem h]
    rfl
  · exact exec_nextHere_of_mem (c := ⟨s, k, [], key :: keys, none⟩) h key keys
  · exact exec_bind_ok (exec_nextHere_of_mem (c := ⟨s, k, j :: js, key :: keys, none⟩) h key keys) _

theorem exec_rest_of_mem (run : Runner) {c : Cursor} (h : c.set ∈ w.entered) :
    (c.rest run).exec w =
      if c.isDone then (.ok ⟨c.passOver, .ok []⟩, w)
      else (.ok ⟨c.passOver, .error reentered⟩, w.note (.barred c.set)) := by
  obtain ⟨s, k, ahead, pending, current⟩ := c
  unfold rest
  rcases pending with _ | ⟨key, keys⟩ <;> rcases ahead with _ | ⟨j, js⟩
  · rfl
  · rw [restAhead, restHere, exec_bind, exec_bind_ok (exec_pure _ w),
      exec_bind_ok (exec_attempt _ w), exec_guarded_of_mem h]
    rfl
  · rw [restAhead, exec_bind_ok (exec_restHere_of_mem h key keys)]
    rfl
  · rw [restAhead, exec_bind, exec_bind_ok (exec_restHere_of_mem h key keys)]
    rfl

theorem exec_removeCurrent_of_mem {c : Cursor} (h : c.set ∈ w.entered) :
    c.removeCurrent.exec w =
      if c.current = none then (.ok ⟨{ c with current := none }, .ok false⟩, w)
      else (.ok ⟨{ c with current := none }, .error reentered⟩, w.note (.barred c.set)) := by
  unfold removeCurrent
  rcases hc : c.current with _ | key
  · rfl
  · simp only
    rw [exec_bind_ok (exec_attempt _ w), takeOut, exec_guarded_of_mem h]
    rfl

end Cursor

section Walks

variable {run : Runner} {w : World} {s : SetId}

theorem keeps_start : Keeps s true (Cursor.start run s) w :=
  keeps_swept fun _ => .look .pure

/-- A walk through a locked set gets nowhere. -/
theorem keeps_toList : Keeps s true (toList run s) w := by
  intro hw
  have h : w.Refused s true ((sweep run s).exec w).2 := keeps_sweep hw
  rcases hx : (sweep run s).exec w with ⟨p | n, w₁⟩ <;> rw [hx] at h
  · have hd : (discard (sweep run s)).exec w = (.error p, w₁) := exec_discard_error hx
    rw [toList, Cursor.start, exec_bind_error (exec_bind_error hd _)]
    exact h
  · obtain ⟨ks, hks⟩ := (h.locked hw).range
    have hd : (discard (sweep run s)).exec w = (.ok (), w₁) := exec_discard_ok hx
    have he : (Cursor.start run s).exec w = (.ok { set := s, ahead := 0 :: ks }, w₁) := by
      rw [Cursor.start, exec_bind_ok hd, exec_bind_ok (exec_look _ _), hks]
      rfl
    have hr := Cursor.exec_rest_of_mem run (c := { set := s, ahead := 0 :: ks })
      (h.locked hw).entered
    rw [toList, exec_bind_ok he, exec_bind_ok hr]
    exact h.trans (.note w₁ s fun _ => rfl) (by simp)

end Walks

end WeakSet
