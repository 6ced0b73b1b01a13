import WeakSet.Proofs.Coverage
import WeakSet.Proofs.Distinct

/-!
# Why tickets wait

A ticket comes to wait in a channel because the element of its handle ended or because the client put
it there, and a sweep takes handles out for no other reason (`World.Warranted`). So every ticket that
waits was given out (`World.Point.issued_of_pending`), and none is of a handle that is yet to come.
What the client puts into the channel of a set that nobody disturbs stays there until a sweep has dealt
with it (`World.Delivers`).
-/

namespace WeakSet

open Act Duties

namespace World

/-- The element that was stored under a ticket ended. -/
def Lost (w : World) (t : Ticket) : Prop :=
  ∃ e < w.cells.size, .stored t e ∈ w.journal.toList ∧ ¬ w.isAlive e

/-- Why a ticket may wait in a channel: its element ended, or the client put it there. -/
def Warranted (w : World) (c : ChannelId) (t : Ticket) : Prop :=
  w.Lost t ∨ .posted c t ∈ w.journal.toList

/-- For all that waits, that a sweep has to deal with or that one took out there is a reason, and what
the client put into a channel was given out before. -/
structure Warrants (w : World) (D : Duties) : Prop where
  waiting : ∀ c t, t ∈ w.pending c → w.Warranted c t
  dealt : ∀ t, .deal t ∈ D → w.Warranted (w.channelOf t.owner) t
  swept : ∀ t, .departed t .swept ∈ w.journal.toList → w.Warranted (w.channelOf t.owner) t
  posted : ∀ c t, .posted c t ∈ w.journal.toList → w.Issued t

variable {w w' : World} {D D' : Duties} {c : ChannelId} {t : Ticket}

theorem Lost.later (h : w.Lost t) (hl : Later w w') : w'.Lost t := by
  obtain ⟨e, he, hs, hd⟩ := h
  exact ⟨e, he.trans_le hl.cells, hl.mem_journal hs, hl.dead_of_not_isAlive he hd⟩

theorem Warranted.later (h : w.Warranted c t) (hl : Later w w') : w'.Warranted c t :=
  h.imp (·.later hl) hl.mem_journal

theorem Warranted.issued (hr : w.Recorded D) (hw : w.Warrants D) (h : w.Warranted c t) :
    w.Issued t := by
  rcases h with ⟨e, -, hs, -⟩ | hp
  · exact (hr.issued t e hs).1
  · exact hw.posted c t hp

theorem warrants_empty : World.empty.Warrants 0 where
  waiting c t h := by simp [pending, World.empty] at h
  dealt t h := by simp at h
  swept t h := by simp [World.empty] at h
  posted c t h := by simp [World.empty] at h

end World

variable {L : Scene} {w w' : World} {D D' : Duties} {t : Ticket} {c : ChannelId}

/-- What a move to world `w'` may add to the journal of handles and of what the client puts into channels.
What comes into a set is alive. A sweep takes out only what it has to deal with, a removal only what shows
its element, and a filter only what is alive. What is reported had to be, and the listener is told of the
element only if the set shows its elements. Only tickets that were given out are put into channels, where
they wait then. -/
def Entry.IsDue (w : World) (D : Duties) (w' : World) : Entry → Prop
  | .stored _ e => w.isAlive e
  | .departed t .swept => .deal t ∈ D
  | .departed t .removed => ∃ h, w.handle? t = some h ∧ h.kind = .weak
  | .departed t .filtered => ∃ h, w.handle? t = some h ∧ w.isAlive h.element
  | .reported t _ last _ =>
    .report t ∈ D ∧ (last.isSome → (w.collection t.owner).settings.kind = .weak)
  | .posted c t => w.Issued t ∧ (c < w.channels.size → t ∈ w'.pending c)
  | _ => True

theorem mem_push_or {P : Entry → Prop} {j : Array Entry} {x y : Entry} (h : x ∈ (j.push y).toList)
    (hy : P y) : x ∈ j.toList ∨ P x := by
  rw [Array.toList_push, List.mem_append, List.mem_singleton] at h
  rcases h with h | rfl
  · exact .inl h
  · exact .inr hy

/-- What a move adds to the journal is due. -/
theorem Move.adds (hw : w.Sane D) (hm : Move L (w, D) (w', D')) {x : Entry}
    (hx : x ∈ w'.journal.toList) : x ∈ w.journal.toList ∨ x.IsDue w D w' := by
  cases hm with
  | @note _ _ y hy =>
    refine mem_push_or hx ?_
    cases y <;> first | exact trivial | cases hy
  | bar => exact mem_push_or (y := .barred _) hx trivial
  | call r hr =>
    refine mem_push_or (y := .reported r.ticket _ _ _) hx ⟨Multiset.mem_cons_self _ _, fun hl => hr ?_⟩
    rwa [Option.isSome_map] at hl
  | @store _ _ s k h =>
    exact mem_push_or (y := .stored (w.nextTicket s k h) h.element) hx
      (hw.counted.isAlive_of_hold (Multiset.mem_cons_self _ _))
  | @release _ _ e =>
    obtain ⟨l, hl, hall⟩ := w.journal_release e
    rw [hl, List.mem_append] at hx
    refine hx.imp id fun h => ?_
    have := hall x h
    cases x <;> first | exact trivial | cases this
  | @post _ _ c t h =>
    refine mem_push_or (y := .posted c t) hx ⟨h, fun hc => ?_⟩
    change t ∈ ((w.note (.posted c t)).enqueue c t).pending c
    rw [World.pending_enqueue (w := w.note (.posted c t)) hc, if_pos rfl]
    simp
  | drain c =>
    rw [World.drain_eq] at hx
    exact mem_push_or (y := .drained c) hx trivial
  | takeNotices =>
    rw [World.takeNotices_eq] at hx
    exact .inl hx
  | @reap _ _ t h _ hh =>
    rw [World.takeOut_snd hh] at hx
    exact mem_push_or (y := .departed t .swept) hx (Multiset.mem_cons_self _ _)
  | unwatch =>
    rw [World.unwatch_eq] at hx
    exact .inl hx
  | @takeOut _ _ t h d _ hh hd =>
    rw [World.takeOut_snd hh] at hx
    refine mem_push_or (y := .departed t d) hx ?_
    cases d with
    | removed | filtered => exact ⟨h, hh, hd⟩
    | swept | cleared => exact hd.elim
  | takeAll =>
    rw [World.takeAll_snd, Array.toList_append, List.mem_append] at hx
    refine hx.imp id fun h => ?_
    obtain ⟨y, -, rfl⟩ := List.mem_map.mp h
    exact trivial
  | newSet b =>
    rw [World.newSet_eq] at hx
    exact .inl hx
  | unmake =>
    rw [World.unmake_eq] at hx
    exact .inl hx
  | _ => exact .inl hx

/-- What comes to wait in a channel with a move: tickets of an element that ended with it, and what the
client put there. -/
theorem Move.mem_pending (hw : w.Sane D) (hm : Move L (w, D) (w', D')) (ht : t ∈ w'.pending c) :
    t ∈ w.pending c ∨ w'.Warranted c t := by
  cases hm with
  | @release _ _ e =>
    have ha := hw.counted.isAlive_of_hold (Multiset.mem_cons_self _ _)
    refine (World.mem_pending_release (World.isAlive_iff.mp ha) ht).imp id ?_
    rintro ⟨hd, x, hx, rfl⟩
    have hl := World.later_release (e := e) ha
    exact .inl ⟨e, (World.lt_size_of_strong (World.isAlive_iff.mp ha)).trans_le hl.cells,
      hl.mem_journal (hw.recorded.watched e x hx).1, hd⟩
  | turn c' b => exact .inl (by rwa [World.pending_turn] at ht)
  | newChannel k => exact .inl (by rwa [World.pending_newChannel] at ht)
  | @post _ _ c' t' =>
    refine (World.mem_of_mem_pending_enqueue ht).imp id ?_
    rintro ⟨rfl, rfl⟩
    exact .inr (by simp [World.post, World.note, World.enqueue])
  | drain c' => exact .inl (World.mem_of_mem_pending_drain (w := w.note (.drained c')) ht)
  | takeNotices => exact .inl (World.mem_of_mem_pending_drain ht)
  | reap _ hh | takeOut _ hh => exact .inl (by rwa [World.takeOut_snd hh] at ht)
  | unwatch => exact .inl (by rwa [World.pending_congr (by rw [World.unwatch_eq])] at ht)
  | takeAll => exact .inl (by rwa [World.takeAll_snd] at ht)
  | newSet b hc => exact .inl (by rwa [World.pending_newSet] at ht)
  | unmake => exact .inl (by rwa [World.pending_congr (by rw [World.unmake_eq])] at ht)
  | _ => exact .inl ht

/-- What a move makes a sweep have to deal with was waiting in the channel of its set. -/
theorem Move.mem_dealt (hm : Move L (w, D) (w', D')) (ht : .deal t ∈ D') :
    .deal t ∈ D ∨ t ∈ w.pending (w.channelOf t.owner) := by
  cases hm with
  | @takeNotices _ _ s =>
    refine (Multiset.mem_add.mp ht).symm.imp id fun h => ?_
    obtain ⟨hb, rfl⟩ := Duties.mem_deals.mp h
    exact World.mem_of_mem_drain hb
  | stale | lose => exact .inl (Multiset.mem_cons_of_mem ht)
  | reap => exact .inl (Multiset.mem_cons_of_mem (by simpa using ht))
  | takeAll => exact .inl ((Multiset.mem_add.mp ht).resolve_left (not_mem_unwatches (by simp) _))
  | _ => exact .inl (by simpa using ht)

/-- Every move has its reasons. -/
theorem Move.warrants (hw : w.Sane D) (hm : Move L (w, D) (w', D')) (h : w.Warrants D) :
    w'.Warrants D' := by
  have hl := hm.later hw.formed hw.counted
  have hch {t : Ticket} (hi : w.Warranted (w.channelOf t.owner) t) :
      w'.Warranted (w'.channelOf t.owner) t := by
    rw [hl.channelOf (World.lt_size_of_issued (hi.issued hw.recorded h))]
    exact hi.later hl
  refine ⟨fun c t ht => ?_, fun t ht => ?_, fun t ht => ?_, fun c t ht => ?_⟩
  · exact (hm.mem_pending hw ht).elim (fun hp => (h.waiting c t hp).later hl) id
  · exact hch ((hm.mem_dealt ht).elim (h.dealt t) (h.waiting _ t))
  · exact hch ((hm.adds hw ht).elim (h.swept t) (h.dealt t))
  · exact hl.issued t ((hm.adds hw ht).elim (h.posted c t) And.left)

theorem Course.warrants (h : Course L (w, D) (w', D')) (hw : w.Sane D) (hn : w.Warrants D) :
    w'.Warrants D' :=
  (h.keeps (I := fun q => q.1.Sane q.2 ∧ q.1.Warrants q.2)
    (fun _ _ hm hI => ⟨hm.sane hI.1, hm.warrants hI.1 hI.2⟩) ⟨hw, hn⟩).2

namespace World.Point

theorem warrants (h : w.Point D) : w.Warrants D :=
  Course.warrants h sane_empty warrants_empty

/-- Every ticket that waits was given out. -/
theorem issued_of_pending (h : w.Point D) (ht : t ∈ w.pending c) : w.Issued t :=
  (h.warrants.waiting c t ht).issued h.recorded h.warrants

end World.Point

/-! ## What the client puts into a channel -/

/-- What the client put into the channel of a set waits there as long as its handle is stored, unless the
set was disturbed. -/
def World.Delivers (w : World) (D : Duties) : Prop :=
  ∀ t h, w.handle? t = some h → w.Undisturbed t.owner →
    .posted (w.channelOf t.owner) t ∈ w.journal.toList → w.Waits D t

theorem Move.delivers (hw : w.Sane D) (hm : Move L (w, D) (w', D')) (hn : w.Warrants D)
    (h : w.Delivers D) : w'.Delivers D' := by
  intro t x hx hu hp
  have hl := hm.later hw.formed hw.counted
  have hi : w.Issued t := (hm.adds hw hp).elim (hn.posted _ t) And.left
  have hs := World.lt_size_of_issued hi
  have hh := hm.handle?_old hw hi hx
  rw [hl.channelOf hs] at hp
  rcases hm.adds hw hp with hp | hp
  · exact hm.waits hw hu hh hx (h t x hh (hu.earlier hl hs) hp)
  · refine .inl ?_
    rw [hl.channelOf hs]
    exact hp.2 (hw.formed.channel _ hs)

theorem World.delivers_empty : World.empty.Delivers 0 := by
  intro t h hh
  rw [World.handle?_empty] at hh
  cases hh

theorem World.Point.delivered (h : w.Point D) : w.Delivers D :=
  (Course.keeps (I := fun q => q.1.Sane q.2 ∧ q.1.Warrants q.2 ∧ q.1.Delivers q.2)
    (fun _ _ hm hI => ⟨hm.sane hI.1, hm.warrants hI.1 hI.2.1, hm.delivers hI.1 hI.2.1 hI.2.2⟩) h
    ⟨World.sane_empty, World.warrants_empty, World.delivers_empty⟩).2.2

end WeakSet
