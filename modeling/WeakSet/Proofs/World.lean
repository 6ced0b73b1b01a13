import WeakSet.Construction
import WeakSet.Proofs.Shard

/-!
# What each step of a world changes

For each of the steps that nothing can interrupt: which parts of the world it touches (`…_eq`), and
what it does to the readings that the theory is stated in, namely the references to an element
(`strong`), its watchers, the handle of a ticket (`handle?`), the tickets given out (`Issued`), the
number of handles (`Collection.size`) and the tickets that wait in a channel (`pending`).
-/

namespace WeakSet

/-- The entries that an ending leaves in the journal. -/
def Entry.isOfEnding : Entry → Bool
  | .noticed .. | .ended _ | .destroyed _ => true
  | _ => false

theorem Channel.mem_of_mem_drain {c : Channel} {t : Ticket} (h : t ∈ c.drain.1) : t ∈ c.pending := by
  unfold Channel.drain at h
  split at h
  · exact h
  · cases h

theorem Channel.mem_of_mem_rest {c : Channel} {t : Ticket} (h : t ∈ c.drain.2.pending) :
    t ∈ c.pending := by
  unfold Channel.drain at h
  split at h
  · cases h
  · exact h

theorem Channel.drain_drain (c : Channel) : c.drain.2.drain.2 = c.drain.2 := by
  by_cases h : c.delivers
  · have h' : Channel.delivers { c with pending := [] } := h
    simp [Channel.drain, h, h']
  · simp [Channel.drain, h]

namespace World

/-! ## Readings -/

/-- The handle of a ticket, if it is in its set. -/
def handle? (w : World) (t : Ticket) : Option Handle :=
  (w.shard t.owner t.shard).get? t.key

/-- A ticket that was given out. -/
def Issued (w : World) (t : Ticket) : Prop :=
  (w.shard t.owner t.shard).slots.Issued t.key

/-- The tickets that wait in a channel. -/
def pending (w : World) (c : ChannelId) : List Ticket :=
  ((w.channels[c]?).map Channel.pending).getD []

/-- Whether a drain of a channel gets anything. -/
def delivers (w : World) (c : ChannelId) : Bool :=
  ((w.channels[c]?).map Channel.delivers).getD false

/-- The number of handles of a set. -/
def size (w : World) (s : SetId) : Nat :=
  (w.collection s).size

/-- Whether a set exists. -/
def isLive (w : World) (s : SetId) : Bool :=
  (w.collection s).isLive

/-- The channel of a set. -/
def channelOf (w : World) (s : SetId) : ChannelId :=
  (w.collection s).channel

/-- What an element carries. -/
def element? (w : World) (e : ElementId) : Option Element :=
  (w.cells[e]?).map Cell.element

theorem issued_of_handle? {w : World} {t : Ticket} {h : Handle} (hh : w.handle? t = some h) :
    w.Issued t :=
  Slots.issued_of_get? hh

/-! ## Elements -/

theorem lt_size_of_strong {w : World} {e : ElementId} (h : 0 < w.strong e) : e < w.cells.size := by
  by_contra hlt
  rw [strong, Array.getElem?_eq_none (Nat.le_of_not_lt hlt)] at h
  exact absurd h (by decide)

theorem isAlive_iff {w : World} {e : ElementId} : w.isAlive e = true ↔ 0 < w.strong e := by
  simp [isAlive]

theorem strong_congr {w w' : World} (h : w'.cells = w.cells) (e : ElementId) :
    w'.strong e = w.strong e := by
  rw [strong, strong, h]

theorem watchers_congr {w w' : World} (h : w'.cells = w.cells) (e : ElementId) :
    w'.watchers e = w.watchers e := by
  rw [watchers, watchers, h]

theorem face_congr {w w' : World} {e : ElementId} (h : w'.element? e = w.element? e) :
    w'.face e = w.face e := by
  have := congrArg (fun x => (x.map Element.face).getD default) h
  simpa [element?, face, Function.comp_def] using this

theorem value_congr {w w' : World} {e : ElementId} (h : w'.element? e = w.element? e) :
    w'.value e = w.value e := by
  rw [value, value, face_congr h]

theorem target_congr {w w' : World} (h : ∀ e, w'.element? e = w.element? e) (q : Query) :
    q.target w' = q.target w := by
  cases q with
  | value _ => rfl
  | element e => exact value_congr (h e)

theorem face_eq {w : World} {e : ElementId} {x : Element} (h : w.element? e = some x) :
    w.face e = x.face := by
  obtain ⟨c, hc, rfl⟩ := Option.map_eq_some_iff.mp h
  simp [face, hc]

theorem value_eq {w : World} {e : ElementId} {x : Element} (h : w.element? e = some x) :
    w.value e = x.face.value := by
  rw [value, face_eq h]

/-- The cells after a change of one of them. -/
theorem getElem?_modify_cells (w : World) (e e' : ElementId) (f : Cell → Cell) :
    (w.cells.modify e f)[e']? = if e = e' then (w.cells[e']?).map f else w.cells[e']? := by
  rw [Array.getElem?_modify]

theorem strong_acquire {w : World} {e : ElementId} (h : e < w.cells.size) (e' : ElementId) :
    (w.acquire e).strong e' = if e' = e then w.strong e + 1 else w.strong e' := by
  simp only [strong, acquire, getElem?_modify_cells]
  by_cases he : e' = e
  · subst he; simp [h]
  · simp [he, Ne.symm he]

theorem watchers_acquire (w : World) (e e' : ElementId) :
    (w.acquire e).watchers e' = w.watchers e' := by
  simp only [watchers, acquire, getElem?_modify_cells]
  split <;> simp [Function.comp_def]

theorem element?_acquire (w : World) (e e' : ElementId) :
    (w.acquire e).element? e' = w.element? e' := by
  simp only [element?, acquire, getElem?_modify_cells]
  split <;> simp [Function.comp_def]

theorem foldl_acquire_eq (es : List ElementId) (w : World) :
    es.foldl acquire w = { w with cells := (es.foldl acquire w).cells } := by
  induction es generalizing w with
  | nil => rfl
  | cons e es ih => exact ih (w.acquire e)

theorem size_cells_acquire (w : World) (e : ElementId) :
    (w.acquire e).cells.size = w.cells.size := by
  simp [acquire]

theorem strong_create (w : World) (x : Element) (e : ElementId) :
    (w.create x).2.strong e = if e = w.cells.size then 1 else w.strong e := by
  simp only [strong, create, Array.getElem?_push]
  split <;> rfl

theorem watchers_create (w : World) (x : Element) (e : ElementId) :
    (w.create x).2.watchers e = w.watchers e := by
  simp only [watchers, create, Array.getElem?_push]
  split
  · subst_vars; simp
  · rfl

theorem element?_create (w : World) (x : Element) (e : ElementId) :
    (w.create x).2.element? e = if e = w.cells.size then some x else w.element? e := by
  simp only [element?, create, Array.getElem?_push]
  split <;> rfl

/-! ## Watching -/

theorem strong_watch (w : World) (e e' : ElementId) (x : Watcher) :
    (w.watch e x).strong e' = w.strong e' := by
  simp only [strong, watch, getElem?_modify_cells]
  split <;> simp [Function.comp_def]

theorem watchers_watch {w : World} {e : ElementId} (h : e < w.cells.size) (x : Watcher)
    (e' : ElementId) :
    (w.watch e x).watchers e' = if e' = e then w.watchers e ++ [x] else w.watchers e' := by
  simp only [watchers, watch, getElem?_modify_cells]
  by_cases he : e' = e
  · subst he; simp [h]
  · simp [he, Ne.symm he]

theorem element?_watch (w : World) (e e' : ElementId) (x : Watcher) :
    (w.watch e x).element? e' = w.element? e' := by
  simp only [element?, watch, getElem?_modify_cells]
  split <;> simp [Function.comp_def]

/-- Only the cells change when an element is watched no longer. -/
theorem unwatch_eq (w : World) (e : ElementId) (t : Ticket) :
    w.unwatch e t = { w with cells := (w.unwatch e t).cells } := by
  unfold unwatch; split <;> rfl

theorem strong_unwatch (w : World) (e e' : ElementId) (t : Ticket) :
    (w.unwatch e t).strong e' = w.strong e' := by
  unfold unwatch
  split
  · simp only [strong, getElem?_modify_cells]
    split <;> simp [Function.comp_def]
  · rfl

theorem watchers_unwatch (w : World) (e e' : ElementId) (t : Ticket) :
    (w.unwatch e t).watchers e' =
      if e' = e ∧ w.isAlive e then
        (w.watchers e).filter fun x => x.ticket ≠ t && w.hasChannel x.channel
      else w.watchers e' := by
  unfold unwatch
  by_cases ha : w.isAlive e
  · have hlt := lt_size_of_strong (isAlive_iff.mp ha)
    simp only [ha, ite_true, watchers, getElem?_modify_cells, and_true]
    by_cases he : e' = e
    · subst he; simp [hlt]
    · simp [he, Ne.symm he]
  · simp [ha]

theorem element?_unwatch (w : World) (e e' : ElementId) (t : Ticket) :
    (w.unwatch e t).element? e' = w.element? e' := by
  unfold unwatch
  split
  · simp only [element?, getElem?_modify_cells]
    split <;> simp [Function.comp_def]
  · rfl

theorem size_cells_unwatch (w : World) (e : ElementId) (t : Ticket) :
    (w.unwatch e t).cells.size = w.cells.size := by
  unfold unwatch; split <;> simp

/-! ## Channels -/

theorem pending_enqueue {w : World} {c : ChannelId} (h : c < w.channels.size) (t : Ticket)
    (c' : ChannelId) :
    (w.enqueue c t).pending c' = if c' = c then w.pending c ++ [t] else w.pending c' := by
  simp only [pending, enqueue, Array.getElem?_modify]
  by_cases hc : c' = c
  · subst hc; simp [h, Channel.enqueue]
  · simp [hc, Ne.symm hc]

theorem mem_of_mem_pending_enqueue {w : World} {c c' : ChannelId} {t t' : Ticket}
    (h : t ∈ (w.enqueue c' t').pending c) : t ∈ w.pending c ∨ c = c' ∧ t = t' := by
  simp only [enqueue, pending, Array.getElem?_modify] at h
  split at h
  · subst_vars
    cases hc : w.channels[c']? with
    | none => simp [hc] at h
    | some ch =>
      simp only [hc, Option.map_some, Option.getD_some, Channel.enqueue,
        List.mem_append, List.mem_singleton] at h
      exact h.imp (fun h => by simpa [pending, hc] using h) fun h => ⟨rfl, h⟩
  · exact .inl h

theorem drain_eq (w : World) (c : ChannelId) :
    (w.drain c).2 = { w with channels := (w.drain c).2.channels } := by
  unfold drain; split <;> rfl

theorem takeNotices_eq (w : World) (s : SetId) :
    (w.takeNotices s).2 = { w with channels := (w.takeNotices s).2.channels } :=
  drain_eq w _

theorem sets_takeNotices (w : World) (s : SetId) : (w.takeNotices s).2.sets = w.sets := by
  rw [takeNotices_eq]

theorem cells_takeNotices (w : World) (s : SetId) : (w.takeNotices s).2.cells = w.cells := by
  rw [takeNotices_eq]

theorem journal_takeNotices (w : World) (s : SetId) : (w.takeNotices s).2.journal = w.journal := by
  rw [takeNotices_eq]

theorem getElem?_channels_drain (w : World) (c i : ChannelId) :
    (w.drain c).2.channels[i]? =
      (w.channels[i]?).map fun ch => if i = c then ch.drain.2 else ch := by
  unfold drain
  rcases hc : w.channels[c]? with _ | ch
  · by_cases hi : i = c
    · subst hi; simp [hc]
    · simp [hi]
  · have hlt := (Array.getElem?_eq_some_iff.mp hc).1
    simp only [Array.set!_eq_setIfInBounds, Array.getElem?_setIfInBounds]
    by_cases hi : i = c
    · subst hi; rw [if_pos rfl, if_pos hlt, hc]; simp
    · simp [hi, Ne.symm hi]

theorem pending_drain_of_ne {w : World} {c c' : ChannelId} (h : c' ≠ c) :
    (w.drain c).2.pending c' = w.pending c' := by
  unfold drain
  split
  · rfl
  · simp [pending, h.symm]

/-- A drain takes all that waits, or nothing. -/
theorem mem_drain {w : World} {c : ChannelId} {t : Ticket} (h : t ∈ w.pending c) :
    t ∈ (w.drain c).1 ∨ t ∈ (w.drain c).2.pending c := by
  unfold drain
  split
  · rename_i hc; simp [pending, hc] at h
  · rename_i ch hc
    have hlt := (Array.getElem?_eq_some_iff.mp hc).1
    simp only [pending, hc, Option.map_some, Option.getD_some] at h
    by_cases hd : ch.delivers
    · exact .inl (by simpa [Channel.drain, hd] using h)
    · exact .inr (by simpa [pending, Channel.drain, hd, hlt] using h)

/-- What a channel delivers has waited there. -/
theorem mem_of_mem_drain {w : World} {c : ChannelId} {t : Ticket} (h : t ∈ (w.drain c).1) :
    t ∈ w.pending c := by
  unfold drain at h
  rw [pending]
  rcases hc : w.channels[c]? with _ | ch <;> rw [hc] at h
  · cases h
  · exact Channel.mem_of_mem_drain h

/-- What waits after a drain has waited before. -/
theorem mem_of_mem_pending_drain {w : World} {c c' : ChannelId} {t : Ticket}
    (h : t ∈ (w.drain c).2.pending c') : t ∈ w.pending c' := by
  rw [pending, getElem?_channels_drain] at h
  rw [pending]
  rcases hc : w.channels[c']? with _ | ch <;> rw [hc] at h
  · exact h
  · simp only [Option.map_some, Option.getD_some] at h ⊢
    split at h
    · exact Channel.mem_of_mem_rest h
    · exact h

theorem size_channels_drain (w : World) (c : ChannelId) :
    (w.drain c).2.channels.size = w.channels.size := by
  unfold drain; split <;> simp

theorem pending_newChannel (w : World) (kind : ChannelKind) (c : ChannelId) :
    (w.newChannel kind).2.pending c = w.pending c := by
  simp only [pending, newChannel, Array.getElem?_push]
  split
  · subst_vars; simp
  · rfl

/-! ## The end of an element -/

/-- Only channels and the journal change when an end is announced. -/
theorem announce_eq (w : World) (x : Watcher) :
    w.announce x =
      { w with channels := (w.announce x).channels, journal := (w.announce x).journal } := by
  unfold announce; split <;> rfl

theorem foldl_announce_eq (xs : List Watcher) (w : World) :
    xs.foldl announce w =
      { w with
        channels := (xs.foldl announce w).channels
        journal := (xs.foldl announce w).journal } := by
  induction xs generalizing w with
  | nil => rfl
  | cons x xs ih => rw [List.foldl_cons, ih (w.announce x), announce_eq w x]

theorem hasChannel_congr {w w' : World} (hn : w'.channelNames = w.channelNames)
    (hs : w'.sets = w.sets) (c : ChannelId) : w'.hasChannel c = w.hasChannel c := by
  rw [hasChannel, hasChannel, hn, hs]

theorem any_modify {α : Type} (xs : Array α) (i : Nat) {f : α → α} {q : α → Bool}
    (h : ∀ x, q (f x) = q x) : (xs.modify i f).any q = xs.any q := by
  rw [Bool.eq_iff_iff, Array.any_eq_true, Array.any_eq_true]
  simp only [Array.size_modify, Array.getElem_modify]
  refine exists_congr fun j => exists_congr fun hj => ?_
  split
  · rw [h]
  · rfl

theorem hasChannel_announce (w : World) (x : Watcher) (c : ChannelId) :
    (w.announce x).hasChannel c = w.hasChannel c := by
  rw [announce_eq]; rfl

theorem size_channels_announce (w : World) (x : Watcher) :
    (w.announce x).channels.size = w.channels.size := by
  unfold announce; split <;> simp [enqueue, note]

/-- Announcing only adds to what waits. -/
theorem pending_announce_mono (w : World) (x : Watcher) {c : ChannelId} {t : Ticket}
    (h : t ∈ w.pending c) : t ∈ (w.announce x).pending c := by
  unfold announce
  split
  · change t ∈ (w.enqueue x.channel x.ticket).pending c
    by_cases hlt : x.channel < w.channels.size
    · rw [pending_enqueue hlt]
      split
      · subst_vars; exact List.mem_append_left _ h
      · exact h
    · rw [enqueue, pending, Array.getElem?_modify]
      split
      · subst_vars
        simp [pending, Array.getElem?_eq_none (Nat.le_of_not_lt hlt)] at h
      · exact h
  · exact h

theorem pending_foldl_announce_mono {c : ChannelId} {t : Ticket} (xs : List Watcher) {w : World}
    (h : t ∈ w.pending c) : t ∈ (xs.foldl announce w).pending c := by
  induction xs generalizing w with
  | nil => exact h
  | cons x xs ih => exact ih (pending_announce_mono w x h)

/-- What is announced to a channel that somebody has waits there. -/
theorem mem_pending_foldl_announce {xs : List Watcher} {w : World} {x : Watcher} (hx : x ∈ xs)
    (hc : w.hasChannel x.channel) (hlt : x.channel < w.channels.size) :
    x.ticket ∈ (xs.foldl announce w).pending x.channel := by
  induction xs generalizing w with
  | nil => cases hx
  | cons y ys ih =>
    rw [List.foldl_cons]
    rcases List.mem_cons.mp hx with rfl | hx
    · refine pending_foldl_announce_mono ys ?_
      have : w.announce x = (w.enqueue x.channel x.ticket).note (.noticed x.channel x.ticket) := by
        simp [announce, hc]
      rw [this]
      change x.ticket ∈ (w.enqueue x.channel x.ticket).pending x.channel
      rw [pending_enqueue hlt, if_pos rfl]
      simp
    · exact ih hx (by rwa [hasChannel_announce]) (by rwa [size_channels_announce])

/-- Nothing but what is announced comes to wait. -/
theorem mem_of_mem_pending_foldl_announce {xs : List Watcher} {w : World} {c : ChannelId}
    {t : Ticket} (h : t ∈ (xs.foldl announce w).pending c) :
    t ∈ w.pending c ∨ ∃ x ∈ xs, x.ticket = t := by
  induction xs generalizing w with
  | nil => exact .inl h
  | cons x xs ih =>
    rcases ih h with h | ⟨y, hy, rfl⟩
    · unfold announce at h
      split at h
      · exact (mem_of_mem_pending_enqueue h).imp id fun h => ⟨x, by simp, h.2.symm⟩
      · exact .inl h
    · exact .inr ⟨y, by simp [hy], rfl⟩

/-- The watchers whose channels still exist are told, in their order. -/
theorem journal_foldl_announce (xs : List Watcher) (w : World) :
    (xs.foldl announce w).journal.toList = w.journal.toList ++
      (xs.filter fun x => w.hasChannel x.channel).map fun x => .noticed x.channel x.ticket := by
  induction xs generalizing w with
  | nil => simp
  | cons x xs ih =>
    rw [List.foldl_cons, ih]
    simp only [hasChannel_announce]
    unfold announce
    split
    · rename_i hc
      simp [note, enqueue, hc]
    · rename_i hc
      simp [hc]

/-- The world in which the last reference to an element is gone and nobody knows yet. -/
def expire (w : World) (e : ElementId) (c : Cell) : World :=
  { w with cells := w.cells.set! e { c with strong := 0, watchers := [] } }

/-- The two ways of letting go of a reference to a living element: the last, and any other. -/
theorem release_cases {w : World} {e : ElementId} (h : 0 < w.strong e) :
    (w.strong e = 1 ∧ ∃ c, w.cells[e]? = some c ∧ (w.release e).2 =
      { c.watchers.foldl announce (w.expire e c) with journal := (w.release e).2.journal }) ∨
    (1 < w.strong e ∧ ∃ c, w.cells[e]? = some c ∧
      (w.release e).2 = { w with cells := w.cells.set! e { c with strong := c.strong - 1 } }) := by
  unfold release
  cases hc : w.cells[e]? with
  | none => simp [strong, hc] at h
  | some c =>
    have hs : w.strong e = c.strong := by simp [strong, hc]
    rw [hs] at h ⊢
    by_cases h1 : c.strong = 1
    · refine .inl ⟨h1, c, rfl, ?_⟩
      simp only [h1, ite_true]
      cases c.element.onDrop <;> rfl
    · refine .inr ⟨by omega, c, rfl, ?_⟩
      simp only [h1, ite_false]

/-- Only cells, channels and the journal change when a reference is let go of. -/
theorem release_eq (w : World) (e : ElementId) :
    (w.release e).2 =
      { w with
        cells := (w.release e).2.cells
        channels := (w.release e).2.channels
        journal := (w.release e).2.journal } := by
  unfold release
  cases w.cells[e]? with
  | none => rfl
  | some c =>
    simp only
    split
    · cases c.element.onDrop <;> simp only [] <;> rw [foldl_announce_eq] <;> rfl
    · rfl

theorem cells_release {w : World} {e : ElementId} (h : 0 < w.strong e) :
    ∃ c, w.cells[e]? = some c ∧ (w.release e).2.cells = w.cells.set! e
      (if c.strong = 1 then { c with strong := 0, watchers := [] }
        else { c with strong := c.strong - 1 }) := by
  rcases release_cases h with ⟨h1, c, hc, he⟩ | ⟨h1, c, hc, he⟩ <;>
    refine ⟨c, hc, ?_⟩ <;> simp only [strong, hc, Option.map_some, Option.getD_some] at h1 <;> rw [he]
  · rw [if_pos h1, foldl_announce_eq]; rfl
  · rw [if_neg (by omega)]

theorem size_cells_release {w : World} {e : ElementId} (h : 0 < w.strong e) :
    (w.release e).2.cells.size = w.cells.size := by
  obtain ⟨c, -, he⟩ := cells_release h
  simp [he]

theorem strong_release {w : World} {e : ElementId} (h : 0 < w.strong e) (e' : ElementId) :
    (w.release e).2.strong e' = if e' = e then w.strong e - 1 else w.strong e' := by
  obtain ⟨c, hc, he⟩ := cells_release h
  have hlt := lt_size_of_strong h
  simp only [strong, he, Array.set!_eq_setIfInBounds, Array.getElem?_setIfInBounds]
  by_cases hee : e' = e
  · subst hee
    simp only [ite_true, hlt, Option.map_some, Option.getD_some, hc]
    split <;> simp [*]
  · simp [hee, Ne.symm hee]

theorem watchers_release {w : World} {e : ElementId} (h : 0 < w.strong e) (e' : ElementId) :
    (w.release e).2.watchers e' = if e' = e ∧ w.strong e = 1 then [] else w.watchers e' := by
  obtain ⟨c, hc, he⟩ := cells_release h
  have hlt := lt_size_of_strong h
  simp only [watchers, strong, he, Array.set!_eq_setIfInBounds, Array.getElem?_setIfInBounds]
  by_cases hee : e' = e
  · subst hee
    simp only [ite_true, hlt, Option.map_some, Option.getD_some, hc, true_and]
    split <;> simp [*]
  · simp [hee, Ne.symm hee]

theorem element?_release {w : World} {e : ElementId} (h : 0 < w.strong e) (e' : ElementId) :
    (w.release e).2.element? e' = w.element? e' := by
  obtain ⟨c, hc, he⟩ := cells_release h
  have hlt := lt_size_of_strong h
  simp only [element?, he, Array.set!_eq_setIfInBounds, Array.getElem?_setIfInBounds]
  by_cases hee : e = e'
  · subst hee
    simp only [ite_true, hlt, Option.map_some, hc]
    split <;> rfl
  · simp [hee]

/-- The last reference to an element goes and its watchers are told, or no channel changes. -/
theorem channels_release {w : World} {e : ElementId} (h : 0 < w.strong e) :
    (w.strong e = 1 ∧ ∃ c, w.cells[e]? = some c ∧
      (w.release e).2.channels = ((w.watchers e).foldl announce (w.expire e c)).channels) ∨
    (1 < w.strong e ∧ (w.release e).2.channels = w.channels) := by
  rcases release_cases h with ⟨h1, c, hc, he⟩ | ⟨h1, c, hc, he⟩
  · exact .inl ⟨h1, c, hc, by rw [he, watchers, hc]; rfl⟩
  · exact .inr ⟨h1, by rw [he]⟩

theorem journal_release (w : World) (e : ElementId) :
    ∃ l : List Entry, (w.release e).2.journal.toList = w.journal.toList ++ l ∧
      ∀ x ∈ l, Entry.isOfEnding x := by
  unfold release
  cases w.cells[e]? with
  | none => exact ⟨[], by simp, by simp⟩
  | some c =>
    simp only
    split
    · obtain ⟨l, hl, hall⟩ : ∃ l : List Entry,
          (c.watchers.foldl announce (w.expire e c)).journal.toList = w.journal.toList ++ l ∧
            ∀ x ∈ l, Entry.isOfEnding x :=
        ⟨_, journal_foldl_announce _ _, fun x hx => by
          obtain ⟨y, -, rfl⟩ := List.mem_map.mp hx
          rfl⟩
      simp only [expire] at hl
      cases c.element.onDrop with
      | none =>
        refine ⟨l ++ [.ended e], ?_, ?_⟩
        · simp only [note, Array.toList_push, hl, List.append_assoc]
        · simpa [Entry.isOfEnding, or_imp, forall_and] using hall
      | some script =>
        refine ⟨l ++ [.ended e, .destroyed c.element.face.tag], ?_, ?_⟩
        · simp only [note, Array.toList_push, hl, List.append_assoc]
          rfl
        · simpa [Entry.isOfEnding, or_imp, forall_and] using hall
    · exact ⟨[], by simp, by simp⟩

end World

end WeakSet
