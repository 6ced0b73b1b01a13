import WeakSet.Proofs.Books

/-!
# No announcement is lost

While a set has its channel to itself and was never refused entry to its own shards, every handle
that it stores is *tracked*: either the element is alive and has exactly one watcher for the handle,
or it ended and the ticket waits in the channel, or a sweep under way has the ticket to deal with.
The obligation passes from the element to the channel when the element ends (`release`), and from
the channel to the sweep when that takes its batch (`takeNotices`). Every move keeps it
(`Move.covered`).
-/

namespace WeakSet

open Act Duties

namespace World

/-- A set uses a channel that no other set has, nobody else took tickets out of it, and no entry
to the set was refused. -/
structure Undisturbed (w : World) (s : SetId) : Prop where
  own : ∀ s' < w.sets.size, w.channelOf s' = w.channelOf s → s' = s
  undrained : .drained (w.channelOf s) ∉ w.journal.toList
  unbarred : .barred s ∉ w.journal.toList

/-- A ticket waits in the channel of its set, or is on the list of a sweep. -/
def Waits (w : World) (D : Duties) (t : Ticket) : Prop :=
  t ∈ w.pending (w.channelOf t.owner) ∨ .deal t ∈ D

/-- A handle will be announced, waits in the channel, or is on the list of a sweep. -/
def Tracks (w : World) (D : Duties) (t : Ticket) (h : Handle) : Prop :=
  w.isAlive h.element ∧ (w.watchers h.element).count ⟨w.channelOf t.owner, t⟩ = 1 ∨
  ¬ w.isAlive h.element ∧ w.Waits D t

variable {w w' : World} {D D' : Duties} {s : SetId} {t : Ticket} {h : Handle} {c : ChannelId}

/-- What disturbs a set goes on to disturb it. -/
theorem Undisturbed.earlier (hu : w'.Undisturbed s) (hl : Later w w') (hs : s < w.sets.size) :
    w.Undisturbed s where
  own s' hs' he := hu.own s' (hs'.trans_le hl.sets) (by
    rw [hl.channelOf hs', hl.channelOf hs, he])
  undrained hm := hu.undrained (by rw [hl.channelOf hs]; exact hl.mem_journal hm)
  unbarred hm := hu.unbarred (hl.mem_journal hm)

theorem hasChannel_of_isLive (hs : s < w.sets.size) (hl : w.isLive s) :
    w.hasChannel (w.channelOf s) := by
  have hm : w.collection s ∈ w.sets.toList :=
    Array.mem_def.mp (Array.mem_of_getElem? (collection_eq hs))
  rw [hasChannel, Bool.or_eq_true]
  refine .inr (Array.any_eq_true'.mpr ⟨_, Array.mem_def.mpr hm, ?_⟩)
  simpa [channelOf, isLive] using hl

/-! ## What waits in a channel -/

theorem pending_congr (hc : w'.channels = w.channels) (c : ChannelId) :
    w'.pending c = w.pending c := by
  rw [pending, pending, hc]

theorem pending_turn (w : World) (c c' : ChannelId) (isOpen : Bool) :
    pending { w with channels := w.channels.modify c fun ch => { ch with isOpen := isOpen } } c' =
      w.pending c' := by
  simp only [pending, Array.getElem?_modify]
  split <;> simp [Function.comp_def]

theorem mem_pending_enqueue (ht : t ∈ w.pending c) (c' : ChannelId) (t' : Ticket) :
    t ∈ (w.enqueue c' t').pending c := by
  by_cases hlt : c' < w.channels.size
  · rw [pending_enqueue hlt]
    split
    · subst_vars; exact List.mem_append_left _ ht
    · exact ht
  · rwa [enqueue, pending, Array.getElem?_modify, if_neg]
    rintro rfl
    simp [pending, Array.getElem?_eq_none (Nat.le_of_not_lt hlt)] at ht

theorem pending_newSet (w : World) (b : Blueprint) (channel : Option ChannelId) (c : ChannelId) :
    (w.newSet b channel).2.pending c = w.pending c := by
  cases channel with
  | none => exact pending_newChannel w .queue c
  | some c' => rfl

/-! ## Watching no longer for other handles -/

/-- A watcher of another ticket stays, if somebody has its channel. -/
theorem count_watchers_unwatch {t' : Ticket} (ht : t ≠ t') (hc : w.hasChannel c) (e e' : ElementId) :
    ((w.unwatch e' t').watchers e).count ⟨c, t⟩ = (w.watchers e).count ⟨c, t⟩ := by
  rw [watchers_unwatch]
  split
  · rename_i he
    rw [he.1, List.count_filter (by simp [ht, hc])]
  · rfl

theorem count_watchers_unwatchEach {xs : List (Ticket × Handle)} (ht : ∀ x ∈ xs, t ≠ x.1)
    (hc : w.hasChannel c) (e : ElementId) :
    ((w.unwatchEach xs).watchers e).count ⟨c, t⟩ = (w.watchers e).count ⟨c, t⟩ := by
  induction xs generalizing w with
  | nil => rfl
  | cons x xs ih =>
    have hc' : (w.unwatch x.2.element x.1).hasChannel c := by
      rwa [hasChannel_congr (by rw [unwatch_eq]) (by rw [unwatch_eq])]
    exact (ih (fun y hy => ht y (by simp [hy])) hc').trans
      (count_watchers_unwatch (ht x (by simp)) hc e x.2.element)

/-! ## Tracking -/

/-- What waits goes on to wait. -/
theorem Waits.congr (h' : w.Waits D t) (hl : w'.channelOf t.owner = w.channelOf t.owner)
    (hp : t ∈ w.pending (w.channelOf t.owner) →
      t ∈ w'.pending (w.channelOf t.owner) ∨ .deal t ∈ D')
    (hd : .deal t ∈ D → .deal t ∈ D') : w'.Waits D' t := by
  rw [Waits, hl]
  exact h'.elim hp fun hx => .inr (hd hx)

/-- The element is as alive and as much watched as before. -/
theorem Tracks.congr (h' : w.Tracks D t h) (hl : w'.channelOf t.owner = w.channelOf t.owner)
    (ha : w'.isAlive h.element = w.isAlive h.element)
    (hw : (w'.watchers h.element).count ⟨w.channelOf t.owner, t⟩ =
      (w.watchers h.element).count ⟨w.channelOf t.owner, t⟩)
    (hp : w.Waits D t → w'.Waits D' t) : w'.Tracks D' t h := by
  rw [Tracks, ha, hl, hw]
  exact h'.imp id fun ⟨hn, hx⟩ => ⟨hn, hp hx⟩

theorem isAlive_congr {e : ElementId} (h : w'.strong e = w.strong e) : w'.isAlive e = w.isAlive e := by
  rw [isAlive, isAlive, h]

/-- The cells stay as they are. -/
theorem Tracks.of_cells (h' : w.Tracks D t h) (hl : w'.channelOf t.owner = w.channelOf t.owner)
    (hc : w'.cells = w.cells) (hp : w.Waits D t → w'.Waits D' t) : w'.Tracks D' t h :=
  h'.congr hl (isAlive_congr (strong_congr hc _)) (by rw [watchers_congr hc]) hp

theorem pending_release_mono {e : ElementId} (he : 0 < w.strong e) (h : t ∈ w.pending c) :
    t ∈ (w.release e).2.pending c := by
  rcases channels_release he with ⟨-, x, -, hchan⟩ | ⟨-, hchan⟩ <;> rw [pending_congr hchan]
  · exact pending_foldl_announce_mono (w := w.expire e x) _ h
  · exact h

/-- What comes to wait when a reference is let go of are tickets of the element, which ended. -/
theorem mem_pending_release {e : ElementId} (he : 0 < w.strong e)
    (ht : t ∈ (w.release e).2.pending c) :
    t ∈ w.pending c ∨ ¬ (w.release e).2.isAlive e ∧ ∃ x ∈ w.watchers e, x.ticket = t := by
  obtain ⟨hone, x, -, hc⟩ | ⟨-, hc⟩ := channels_release he
  · rw [pending_congr hc] at ht
    refine (mem_of_mem_pending_foldl_announce ht).imp id fun hx => ⟨?_, hx⟩
    rw [isAlive_iff, strong_release he, if_pos rfl, hone]
    decide
  · exact .inl (by rwa [pending_congr hc] at ht)

/-- An element that ends is announced to the channel of a set that exists. -/
theorem Tracks.release {e : ElementId} (h' : w.Tracks D t h) (he : 0 < w.strong e)
    (hl : w.isLive t.owner) (hs : t.owner < w.sets.size)
    (hc : w.channelOf t.owner < w.channels.size)
    (hp : w.Waits D t → (w.release e).2.Waits D' t) : (w.release e).2.Tracks D' t h := by
  have hch : (w.release e).2.channelOf t.owner = w.channelOf t.owner := by
    rw [channelOf, collection_congr (by rw [release_eq])]; rfl
  by_cases hlast : h.element = e ∧ w.strong e = 1
  · obtain ⟨rfl, h1⟩ := hlast
    rcases h' with ⟨-, hcount⟩ | ⟨hn, -⟩
    · have hx : ⟨w.channelOf t.owner, t⟩ ∈ w.watchers h.element :=
        List.count_pos_iff.mp (hcount ▸ Nat.one_pos)
      refine .inr ⟨?_, .inl ?_⟩
      · rw [isAlive_iff, strong_release he, if_pos rfl]; omega
      · rcases channels_release he with ⟨-, x, -, hchan⟩ | ⟨h2, -⟩
        · rw [hch, pending_congr hchan]
          exact mem_pending_foldl_announce (w := w.expire h.element x) hx
            (hasChannel_of_isLive hs hl) hc
        · omega
    · exact absurd (isAlive_iff.mpr he) hn
  · refine h'.congr hch ?_ ?_ hp
    · rw [isAlive, isAlive, strong_release he]
      by_cases hee : h.element = e
      · subst hee
        have h1 : w.strong h.element ≠ 1 := fun h1 => hlast ⟨rfl, h1⟩
        simp only [ite_true, decide_eq_decide]
        omega
      · rw [if_neg hee]
    · rw [watchers_release he, if_neg hlast]

end World

variable {L : Scene} {w w' : World} {D D' : Duties} {t : Ticket} {h : Handle}

/-- A ticket whose handle is there before and after a move goes on to wait, unless its set is
disturbed. -/
theorem Move.waits (hw : w.Sane D) (hm : Move L (w, D) (w', D')) (hu : w'.Undisturbed t.owner)
    (hh : w.handle? t = some h) (hh' : w'.handle? t = some h) (ht : w.Waits D t) : w'.Waits D' t := by
  have hlater := hm.later hw.formed hw.counted
  have hs : t.owner < w.sets.size := (World.hasShard_of_handle? hh).1
  have hu₀ := hu.earlier hlater hs
  have hch := hlater.channelOf hs
  cases hm with
  | release =>
    exact ht.congr hch (fun hp => .inl (World.pending_release_mono (World.isAlive_iff.mp
      (hw.counted.isAlive_of_hold (Multiset.mem_cons_self _ _))) hp)) (by simp)
  | turn c b => exact ht.congr hch (fun hp => .inl (by rwa [World.pending_turn])) id
  | newChannel k => exact ht.congr hch (fun hp => .inl (by rwa [World.pending_newChannel])) id
  | post c => exact ht.congr hch (fun hp => .inl (World.mem_pending_enqueue hp c _)) id
  | drain c =>
    have hne : w.channelOf t.owner ≠ c := by
      rintro rfl
      refine hu.undrained ?_
      rw [hch, World.drain_eq]
      simp [World.note]
    exact ht.congr hch (fun hp => .inl (by rwa [World.pending_drain_of_ne hne])) id
  | @takeNotices _ _ s hs' =>
    refine ht.congr hch (fun hp => ?_) fun hd => Multiset.mem_add.mpr (.inr hd)
    by_cases he : s = t.owner
    · subst he
      refine (World.mem_drain hp).symm.imp id fun hb => Multiset.mem_add.mpr (.inl ?_)
      exact mem_deals.mpr ⟨hb, rfl⟩
    · refine .inl ?_
      change t ∈ (w.drain (w.channelOf s)).2.pending (w.channelOf t.owner)
      rwa [World.pending_drain_of_ne fun h => he (hu₀.own s hs' h.symm)]
  | @stale _ _ t' hn =>
    refine ht.congr hch .inl fun hd => (Multiset.mem_cons.mp hd).resolve_left ?_
    rintro ⟨⟩
    rw [hn] at hh; cases hh
  | @lose _ _ t' hb =>
    refine ht.congr hch .inl fun hd => (Multiset.mem_cons.mp hd).resolve_left ?_
    rintro ⟨⟩
    exact hu₀.unbarred hb
  | @reap _ _ t' h' _ hh₁ =>
    refine ht.congr hch (fun hp => .inl (by rw [World.takeOut_snd hh₁]; exact hp)) fun hd => ?_
    have hd := (Multiset.mem_cons.mp hd).resolve_left (by
      rintro ⟨⟩
      rw [World.handle?_takeOut hh₁, if_pos rfl] at hh'; cases hh')
    simp [hd]
  | unwatch =>
    exact ht.congr hch (fun hp => .inl (by rwa [World.pending_congr (by rw [World.unwatch_eq])]))
      (by simp)
  | takeOut _ hh₁ =>
    exact ht.congr hch (fun hp => .inl (by rw [World.takeOut_snd hh₁]; exact hp)) (by simp)
  | takeAll =>
    exact ht.congr hch (fun hp => .inl (by rw [World.takeAll_snd]; exact hp))
      fun hd => Multiset.mem_add.mpr (.inr hd)
  | newSet b hc => exact ht.congr hch (fun hp => .inl (by rwa [World.pending_newSet])) id
  | unmake =>
    exact ht.congr hch (fun hp => .inl (by rwa [World.pending_congr (by rw [World.unmake_eq])])) id
  | _ => exact ht.congr hch .inl (by simp)

/-- A handle that was stored before a move is tracked after it. -/
theorem Move.tracks_old (hw : w.Sane D) (hm : Move L (w, D) (w', D')) (hl : w'.isLive t.owner)
    (hu : w'.Undisturbed t.owner) (hh : w.handle? t = some h) (hh' : w'.handle? t = some h)
    (ht : w.Tracks D t h) : w'.Tracks D' t h := by
  have hlater := hm.later hw.formed hw.counted
  have hs : t.owner < w.sets.size := (World.hasShard_of_handle? hh).1
  have hlive := hlater.live _ hs hl
  have hch := hlater.channelOf hs
  have hwaits := hm.waits hw hu hh hh'
  cases hm with
  | create x =>
    have hlt := (hw.formed.fits t h hh).element
    refine ht.congr hch (World.isAlive_congr ?_) ?_ hwaits
    · rw [World.strong_create, if_neg (Nat.ne_of_lt hlt)]
    · rw [World.watchers_create]
  | @acquire _ _ e ha =>
    refine ht.congr hch ?_ (by rw [World.watchers_acquire]) hwaits
    have hp := World.isAlive_iff.mp ha
    rw [World.isAlive, World.isAlive, World.strong_acquire (World.lt_size_of_strong hp)]
    by_cases hee : h.element = e
    · simp [hee, hp]
    · simp [hee]
  | release =>
    exact ht.release (World.isAlive_iff.mp (hw.counted.isAlive_of_hold (Multiset.mem_cons_self _ _)))
      hlive hs (hw.formed.channel _ hs) hwaits
  | drain c => exact ht.of_cells hch (by rw [World.drain_eq]; rfl) hwaits
  | takeNotices => exact ht.of_cells hch (World.cells_takeNotices w _) hwaits
  | reap _ hh₁ | takeOut _ hh₁ => exact ht.of_cells hch (by rw [World.takeOut_snd hh₁]; rfl) hwaits
  | @unwatch _ _ t' e =>
    have hne : t ≠ t' := by
      rintro rfl
      rw [(hw.recorded.unwatched _ _ (Multiset.mem_cons_self _ _)).2] at hh; cases hh
    refine ht.congr hch (World.isAlive_congr (World.strong_unwatch w e _ t')) ?_ hwaits
    exact World.count_watchers_unwatch hne (World.hasChannel_of_isLive hs hlive) _ _
  | takeAll => exact ht.of_cells hch (by rw [World.takeAll_snd]; rfl) hwaits
  | @store _ _ s k h' _ ha =>
    have he := World.lt_size_of_strong (World.isAlive_iff.mp
      (hw.counted.isAlive_of_hold (Multiset.mem_cons_self _ _)))
    refine ht.congr hch (World.isAlive_congr (World.strong_store h' _)) ?_ hwaits
    rw [World.watchers_store ha.shard he]
    split
    · have hne : w.nextTicket s k h' ≠ t := fun e =>
        World.not_issued_nextTicket h' (e ▸ World.issued_of_handle? hh)
      simp [List.count_append, hne]
    · rfl
  | newSet b hc => exact ht.of_cells hch (by rw [World.newSet_eq]) hwaits
  | @unmake _ _ s =>
    have hne : s ≠ t.owner := by
      rintro rfl
      rw [World.isLive, World.unmake_eq] at hl
      change ((w.endSet t.owner).collection t.owner).isLive at hl
      rw [World.collection_endSet hs, if_pos rfl] at hl
      cases hl
    have hcells : (w.unmake s).cells = (w.unwatchEach (w.ticketsOf s)).cells := by
      rw [World.unmake_eq]
    refine ht.congr hch (World.isAlive_congr ?_) ?_ hwaits
    · rw [World.strong_congr hcells, World.strong_unwatchEach]
    · rw [World.watchers_congr hcells]
      refine World.count_watchers_unwatchEach (fun x hx e => hne ?_)
        (World.hasChannel_of_isLive hs hlive) _
      rw [e]
      obtain ⟨k, -, hx⟩ := List.mem_flatMap.mp hx
      exact (World.mem_ticketsIn (t := x.1) (h := x.2).mp hx).1.symm
  | _ => exact ht.of_cells hch rfl hwaits

/-- A new handle has the one watcher that came with it. -/
theorem World.tracks_store (hw : w.Sane D) {s : SetId} {k : Nat} (ha : w.Admits s k h)
    (hh : .hold h.element ∈ D) : (w.store s k h).2.Tracks D' (w.nextTicket s k h) h := by
  have he := hw.counted.isAlive_of_hold hh
  have hlt := lt_size_of_strong (isAlive_iff.mp he)
  have hnew : ⟨w.channelOf s, w.nextTicket s k h⟩ ∉ w.watchers h.element := fun hx =>
    not_issued_nextTicket h (hw.recorded.issued _ _ (hw.recorded.watched _ _ hx).1).1
  refine .inl ⟨by rwa [isAlive, strong_store], ?_⟩
  have hch := (later_store hw.formed.shards ha.shard h).channelOf ha.shard.1
  rw [watchers_store ha.shard hlt, if_pos rfl, show (w.nextTicket s k h).owner = s from rfl, hch]
  rw [List.count_append, List.count_eq_zero.mpr hnew]
  simp

/-- Every handle of a set that exists and is not disturbed is tracked. -/
def World.Covered (w : World) (D : Duties) : Prop :=
  ∀ t h, w.handle? t = some h → w.isLive t.owner → w.Undisturbed t.owner → w.Tracks D t h

/-- Every move keeps track of the handles. -/
theorem Move.covered (hw : w.Sane D) (hm : Move L (w, D) (w', D')) (hc : w.Covered D) :
    w'.Covered D' := by
  intro t h hh' hl hu
  have hlater := hm.later hw.formed hw.counted
  have hold : w.handle? t = some h → w'.Tracks D' t h := fun hh => by
    have hs : t.owner < w.sets.size := (World.hasShard_of_handle? hh).1
    exact hm.tracks_old hw hl hu hh hh' (hc t h hh (hlater.live _ hs hl) (hu.earlier hlater hs))
  rcases hm.booking hw with ⟨hh, -, -, -⟩ | ⟨t', h', -, -, ⟨s, k, ha, hd, rfl, rfl⟩, hh, -, -, -⟩ |
    ⟨ts, -, -, hh, -, -, -⟩ | ⟨t', -, hh, -, -, -⟩ | ⟨t', hh, -, -, -⟩ <;> rw [hh] at hh'
  · exact hold hh'
  · split at hh'
    · subst_vars
      obtain rfl := Option.some.inj hh'
      exact World.tracks_store hw ha hd
    · exact hold hh'
  · split at hh'
    · cases hh'
    · exact hold hh'
  · split at hh'
    · cases hh'
    · exact hold hh'
  · exact hold hh'

/-- Every course keeps track of the handles. -/
theorem Course.covered (h : Course L (w, D) (w', D')) (hw : w.Sane D) (hc : w.Covered D) :
    w'.Covered D' :=
  (h.keeps (I := fun q => q.1.Sane q.2 ∧ q.1.Covered q.2)
    (fun _ _ hm hI => ⟨hm.sane hI.1, hm.covered hI.1 hI.2⟩) ⟨hw, hc⟩).2

theorem World.covered_empty : World.empty.Covered 0 := by
  intro t h hh
  rw [World.handle?_empty] at hh
  cases hh

theorem World.Point.covered (h : w.Point D) : w.Covered D :=
  Course.covered h sane_empty covered_empty

/-! ## What a sweep has in hand goes -/

/-- The handle of a ticket is gone, or will be dealt with, or an entry to its set was refused. -/
def World.Settles (w : World) (D : Duties) (t : Ticket) : Prop :=
  w.Issued t ∧
    (w.handle? t = none ∨ .deal t ∈ D ∨ .barred t.owner ∈ w.journal.toList)

theorem Move.settles (hw : w.Sane D) (hm : Move L (w, D) (w', D')) (hs : w.Settles D t) :
    w'.Settles D' t := by
  have hl := hm.later hw.formed hw.counted
  obtain ⟨hi, hs⟩ := hs
  refine ⟨hl.issued t hi, ?_⟩
  rcases hs with hn | hd | hb
  · exact .inl (hl.gone t hi hn)
  · cases hm with
    | @stale _ _ t' hn =>
      rcases Multiset.mem_cons.mp hd with he | hd
      · obtain rfl := Duty.deal.inj he
        exact .inl hn
      · exact .inr (.inl hd)
    | @lose _ _ t' hb =>
      rcases Multiset.mem_cons.mp hd with he | hd
      · obtain rfl := Duty.deal.inj he
        exact .inr (.inr hb)
      · exact .inr (.inl hd)
    | @reap _ _ t' h' _ hh =>
      rcases Multiset.mem_cons.mp hd with he | hd
      · obtain rfl := Duty.deal.inj he
        exact .inl (by rw [World.handle?_takeOut hh, if_pos rfl])
      · exact .inr (.inl (by simp [hd]))
    | takeNotices => exact .inr (.inl (Multiset.mem_add.mpr (.inr hd)))
    | takeAll => exact .inr (.inl (Multiset.mem_add.mpr (.inr hd)))
    | _ => exact .inr (.inl (by simpa using hd))
  · exact .inr (.inr (hl.mem_journal hb))

theorem Course.settles (h : Course L (w, D) (w', D')) (hw : w.Sane D) (hs : w.Settles D t) :
    w'.Settles D' t :=
  (h.keeps (I := fun q => q.1.Sane q.2 ∧ q.1.Settles q.2 t)
    (fun _ _ hm hI => ⟨hm.sane hI.1, hm.settles hI.1 hI.2⟩) ⟨hw, hs⟩).2

theorem World.mem_drain_of_delivers {c : ChannelId} (hc : w.delivers c) (ht : t ∈ w.pending c) :
    t ∈ (w.drain c).1 := by
  unfold drain
  rcases hch : w.channels[c]? with _ | ch
  · simp [pending, hch] at ht
  · simp only [delivers, pending, hch, Option.map_some, Option.getD_some] at hc ht
    simpa [Channel.drain, hc] using ht

/-- A sweep takes out every handle whose ticket its channel delivers, unless it is refused. -/
theorem gone_of_sweep {run : Runner} (hr : run.Sound) {s : SetId} (hw : w.Point D)
    (hs : s < w.sets.size) (hd : w.delivers (w.channelOf s)) (hn : .deal t ∉ D) (ho : t.owner = s)
    (hi : w.Issued t) (ht : t ∈ w.pending (w.channelOf s))
    (hb : .barred s ∉ ((sweep run s).exec w).2.journal.toList) :
    ((sweep run s).exec w).2.handle? t = none := by
  have hm : Move .idle (w, D) ((w.takeNotices s).2, deals s (w.takeNotices s).1 + D) :=
    .takeNotices hs
  have hset : (w.takeNotices s).2.Settles (deals s (w.takeNotices s).1 + D) t :=
    ⟨(hm.later hw.formed hw.counted).issued t hi,
      .inr (.inl (Multiset.mem_add.mpr (.inl (mem_deals.mpr
        ⟨World.mem_drain_of_delivers hd ht, ho⟩))))⟩
  have hc := leads_batch hr (L := .idle) (w := (w.takeNotices s).2) (s := s) (D := D)
    (w.takeNotices s).1 {} (Course.point (.single hm) hw) (.idle _)
  rw [due_same] at hc
  rcases (hc.settles (hm.sane hw.sane) hset).2 with h | h | h
  · exact h
  · exact absurd h hn
  · rw [ho] at h
    exact absurd h hb

namespace Session

variable {depth : Nat} {s : SetId} {name : String} {r : Reply}

/-- Whoever asks for the length of a set gets it swept first. -/
theorem later_of_length {run : Runner} (hr : run.Sound) (hw : w.Point 0) (hs : s < w.sets.size) :
    World.Later ((sweep run s).exec w).2 ((length run s).exec w).2 := by
  have hc := (balanced_sweep hr hs).course hw (.idle _)
  have hl := balanced_count (L := .idle) (s := s) (hc.point hw) (.idle _)
  rw [length, exec_bind, exec_discard]
  rcases h : (sweep run s).exec w with ⟨p | n, w₁⟩
  · exact .refl w₁
  · rw [h] at hc hl
    exact hl.later (hc.point hw).sane

theorem size_of_length {run : Runner} {n : Nat} (h : (length run s).exec w = (.ok n, w')) :
    n = w'.size s := by
  obtain ⟨_, w₁, -, h⟩ := exec_bind_eq_ok.mp h
  obtain ⟨rfl, rfl⟩ := exec_count_eq_ok h
  rfl

/-- No announcement is lost. If a set has its channel to itself and no entry to it was refused, then
between commands every handle that it stores is of a living element with exactly one watcher for it,
or its ticket waits in the channel. So a sweep to which the channel delivers takes out every handle
whose element ended before, and the length that is told then counts none of them. -/
theorem stored_handles_are_tracked (depth : Nat) (cs : List Command) (s : SetId)
    (hl : (carryOutAll depth .empty cs).isLive s)
    (hu : (carryOutAll depth .empty cs).Undisturbed s) :
    let w := carryOutAll depth .empty cs
    (∀ t h, t.owner = s → w.handle? t = some h →
      w.isAlive h.element ∧ (w.watchers h.element).count ⟨w.channelOf s, t⟩ = 1 ∨
      ¬ w.isAlive h.element ∧ t ∈ w.pending (w.channelOf s)) ∧
    ∀ name c r w', w.setNames.find? name = some s → w.delivers (w.channelOf s) →
      c = .sweep name ∨ c = .length name → carryOutWithin depth w c = (r, w') →
      .barred s ∉ w'.journal.toList →
        (∀ t h, t.owner = s → w.handle? t = some h → ¬ w.isAlive h.element →
          w'.handle? t = none) ∧
        ∀ n, c = .length name → r = .number n → n = w'.size s := by
  intro w
  have hw : w.Point 0 := point_carryOutAll depth cs
  have hcov : w.Covered 0 := hw.covered
  have htracks : ∀ t h, t.owner = s → w.handle? t = some h → w.Tracks 0 t h := by
    rintro t h rfl hh
    exact hcov t h hh hl hu
  refine ⟨?_, ?_⟩
  · rintro t h rfl hh
    simpa [World.Tracks, World.Waits] using htracks t h rfl hh
  · intro name c r w' hname hdel hcmd hx hb
    have hs := hw.formed.named.sets _ (Table.mem_of_find? hname)
    have hlater : World.Later ((sweep (runner depth) s).exec w).2 w' := by
      rw [carryOutWithin_eq] at hx
      obtain ⟨-, rfl⟩ := Prod.mk.injEq .. ▸ hx
      rcases hcmd with rfl | rfl
      · rw [perform, exec_withSet hname, exec_map]
        exact .refl _
      · rw [perform, exec_withSet hname, exec_map]
        exact later_of_length (sound_runner depth) hw hs
    refine ⟨fun t h ho hh hdead => ?_, ?_⟩
    · have hi := World.issued_of_handle? hh
      have ht := (htracks t h ho hh).resolve_left fun ha => hdead ha.1
      have hp : t ∈ w.pending (w.channelOf s) := by
        rw [← ho]
        exact ht.2.resolve_right (by simp)
      have hgone := gone_of_sweep (sound_runner depth) hw hs hdel (by simp) ho hi hp
        fun hm => hb (hlater.mem_journal hm)
      have hsweep := balanced_sweep (sound_runner depth) (L := .idle) hs hw (.idle _)
      exact hlater.gone t ((hsweep.later hw.sane).issued t hi) hgone
    · rintro n rfl rfl
      have hx := exec_of_reply hx (by simp)
      rw [perform, exec_withSet hname, exec_map] at hx
      rcases hn : (length (runner depth) s).exec w with ⟨p | m, v⟩ <;> rw [hn] at hx
      · cases hx
      · obtain ⟨⟨⟩, rfl⟩ := Prod.mk.injEq .. ▸ hx
        exact size_of_length hn

/-- The handle of an element that ended is gone when the length is told. -/
theorem stored_handles_are_tracked_brief :
    (carryOutWithin 0 (carryOutAll 0 .empty briefRun) (.length "s")).2.handle? ⟨0, 0, 0, 1⟩ = none :=
  ((stored_handles_are_tracked 0 briefRun 0 (by decide +kernel)
    ⟨by decide +kernel, by decide +kernel, by decide +kernel⟩).2 "s" (.length "s") _ _
    (by decide +kernel) (by decide +kernel) (.inr rfl) rfl (by decide +kernel)).1
    ⟨0, 0, 0, 1⟩ ⟨0, 7, .weak⟩ rfl (by decide +kernel) (by decide +kernel)

end Session

end WeakSet
