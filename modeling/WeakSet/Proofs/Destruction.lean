import WeakSet.Proofs.Mirror
import WeakSet.Proofs.Operations
import WeakSet.Proofs.Ownership

/-!
# Destruction is announced first

An element ends in one way only, whoever is the last to hold it: its last reference is let go of
(`Course.ends`). All its watchers whose channels still exist are told then, in the order in which its handles
were stored, and only after that does its destructor run (`World.Announces`, `exec_release_last`).

So the destructor, and any code after it, finds its element nowhere (`World.Hides`): what a lookup or a walk
comes upon is held, and nobody holds an element that ended. The tickets of the element wait, and the next
sweep of each set that is not locked and whose channel delivers clears up (`World.ClearsUp`). Its handle is
not counted any more, and the listener is told that it went, without the element.
-/

namespace WeakSet

open Act Duties World

variable {L : Scene} {run : Runner} {w w' v : World} {D D' : Duties} {s : SetId} {t : Ticket} {e : ElementId}

/-! ## How elements end -/

/-- An element ends with a move that lets go of the last reference to it. -/
theorem Move.ends (hw : w.Sane D) (hm : Move L (w, D) (w', D')) (ha : w.isAlive e)
    (hd : ¬ w'.isAlive e) : D = .hold e ::ₘ D' ∧ w.strong e = 1 ∧ w' = (w.release e).2 := by
  have hsame : (∀ e, w'.strong e = w.strong e) → False := fun h =>
    hd (by rwa [isAlive, h])
  cases hm with
  | release =>
    rename_i e'
    have hpos := isAlive_iff.mp (hw.counted.isAlive_of_hold (Multiset.mem_cons_self _ _))
    rw [isAlive_iff] at ha hd
    rw [strong_release hpos] at hd
    split at hd
    · subst_vars
      exact ⟨rfl, by omega, rfl⟩
    · exact absurd ha hd
  | create x =>
    have hlt := lt_size_of_strong (isAlive_iff.mp ha)
    refine absurd ?_ hd
    rwa [isAlive, strong_create, if_neg (Nat.ne_of_lt hlt)]
  | acquire h => exact absurd ((isAlive_acquire h e).trans ha) hd
  | store => exact (hsame (strong_store _)).elim
  | reap _ hh | takeOut _ hh => exact (hsame (strong_takeOut w _ _)).elim
  | unwatch => exact (hsame fun e => strong_unwatch _ _ e _).elim
  | unmake => exact (hsame (strong_unmake w _)).elim
  | drain => exact (hsame (strong_congr (by rw [drain_eq]; rfl))).elim
  | takeNotices => exact (hsame (strong_congr (cells_takeNotices w _))).elim
  | takeAll => exact (hsame (strong_congr (by rw [takeAll_snd]; rfl))).elim
  | newSet => exact (hsame (strong_congr (by rw [newSet_eq]))).elim
  | _ => exact (hsame (strong_congr rfl)).elim

/-- Where an element ended in a course, there its last reference was let go of. -/
theorem Course.ends {q : World × Duties} (c : Course L (w, D) q) (hw : w.Sane D) (ha : w.isAlive e)
    (hd : ¬ q.1.isAlive e) : ∃ u E, Course L (w, D) (u, .hold e ::ₘ E) ∧ u.strong e = 1 ∧
      Course L ((u.release e).2, E) q := by
  induction c with
  | refl => exact absurd ha hd
  | @tail p q c hm ih =>
    obtain ⟨v, E⟩ := p
    obtain ⟨w', D'⟩ := q
    -- either the last move ended it, or it had ended before
    by_cases hv : v.isAlive e
    · obtain ⟨rfl, hone, rfl⟩ := hm.ends (Course.sane c hw) hv hd
      exact ⟨v, D', c, hone, .refl⟩
    · obtain ⟨u, E', c₁, hone, c₂⟩ := ih hv
      exact ⟨u, E', c₁, hone, c₂.tail hm⟩

/-! ## Who is told -/

/-- Watchers stay, or go, or one comes last with the handle that is stored. -/
theorem Move.watchers (hw : w.Sane D) (hm : Move L (w, D) (w', D')) (e : ElementId) :
    (w'.watchers e).Sublist (w.watchers e) ∨
      ∃ x : Watcher, w'.watchers e = w.watchers e ++ [x] ∧
        w'.books.stored = w.books.stored ++ [x.ticket] := by
  have hsame : w'.cells = w.cells → (w'.watchers e).Sublist (w.watchers e) := fun h => by
    rw [watchers_congr h]
  cases hm with
  | release =>
    have hpos := isAlive_iff.mp (hw.counted.isAlive_of_hold (Multiset.mem_cons_self _ _))
    rw [watchers_release hpos]
    split
    · exact .inl (List.nil_sublist _)
    · exact .inl (List.Sublist.refl _)
  | create x =>
    rw [watchers_create]
    exact .inl (List.Sublist.refl _)
  | acquire =>
    rw [watchers_acquire]
    exact .inl (List.Sublist.refl _)
  | @store _ _ s k h _ ha =>
    have hlt := lt_size_of_strong (isAlive_iff.mp
      (hw.counted.isAlive_of_hold (Multiset.mem_cons_self _ _)))
    rw [watchers_store ha.shard hlt]
    split
    · exact .inr ⟨_, rfl, congrArg Books.stored
        (books_push (x := .stored (w.nextTicket s k h) h.element) rfl)⟩
    · exact .inl (List.Sublist.refl _)
  | unwatch =>
    rw [watchers_unwatch]
    split
    · rename_i he
      rw [he.1]
      exact .inl List.filter_sublist
    · exact .inl (List.Sublist.refl _)
  | @unmake _ _ s =>
    have h := watchers_unwatchEach_sublist (w.ticketsOf s) w e
    rw [unmake_eq]
    exact .inl h
  | reap _ hh | takeOut _ hh => exact .inl (hsame (by rw [takeOut_snd hh]; rfl))
  | drain => exact .inl (hsame (by rw [drain_eq]; rfl))
  | takeNotices => exact .inl (hsame (cells_takeNotices w _))
  | takeAll => exact .inl (hsame (by rw [takeAll_snd]; rfl))
  | newSet => exact .inl (hsame (by rw [newSet_eq]))
  | _ => exact .inl (hsame rfl)

/-- What was stored stays in the books, in its order. -/
theorem Booking.stored_stays (h : Booking w w' D D') : w.books.stored <+: w'.books.stored := by
  cases h with
  | stored t h _ _ _ _ _ hb => exact hb ▸ List.prefix_append _ _
  | nothing _ _ hb | removed _ _ _ _ _ hb | swept _ _ _ _ hb | reported _ _ _ hb => rw [hb]

/-- The watchers of an element are in the order in which its handles were stored. -/
theorem World.Point.watchers_sublist (hw : w.Point D) (e : ElementId) :
    ((w.watchers e).map Watcher.ticket).Sublist w.books.stored := by
  refine (Course.keeps (I := fun q => q.1.Sane q.2 ∧
    ((q.1.watchers e).map Watcher.ticket).Sublist q.1.books.stored) (fun p q hm hI => ?_) hw
    ⟨sane_empty, by simp [World.watchers, World.empty]⟩).2
  refine ⟨hm.sane hI.1, ?_⟩
  rcases hm.watchers hI.1 e with h | ⟨x, hx, hb⟩
  · exact (h.map _).trans (hI.2.trans (hm.booking hI.1).stored_stays.sublist)
  · rw [hx, hb, List.map_append]
    exact hI.2.append_right _

/-- To whom the end of an element is announced. -/
def World.audience (w : World) (e : ElementId) : List Watcher :=
  (w.watchers e).filter fun x => w.hasChannel x.channel

theorem pending_foldl_announce (xs : List Watcher) (w : World)
    (hx : ∀ x ∈ xs, x.channel < w.channels.size) (c : ChannelId) :
    (xs.foldl announce w).pending c =
      w.pending c ++ (xs.filter fun x => w.hasChannel x.channel && x.channel = c).map Watcher.ticket := by
  induction xs generalizing w with
  | nil => simp
  | cons x xs ih =>
    have hlt := hx x (by simp)
    rw [List.foldl_cons, ih _ fun y hy => by rw [size_channels_announce]; exact hx y (by simp [hy])]
    simp only [hasChannel_announce]
    have hone : (w.announce x).pending c = w.pending c ++
        if w.hasChannel x.channel ∧ x.channel = c then [x.ticket] else [] := by
      unfold announce
      split
      · rename_i hc
        refine (pending_enqueue hlt x.ticket c).trans ?_
        by_cases he : c = x.channel
        · simp [he, hc]
        · simp [he, Ne.symm he]
      · rename_i hc
        simp [hc]
    rw [hone, List.append_assoc]
    by_cases hc : w.hasChannel x.channel ∧ x.channel = c
    · rw [if_pos hc, List.filter_cons_of_pos (by simp [hc.2 ▸ hc.1, hc.2])]
      rfl
    · rw [if_neg hc, List.filter_cons_of_neg (by simpa using hc)]
      rfl

/-- World `v` is that in which the destructor of element `e` starts, if it has one, after its last
reference was let go of in world `w`. All who are to be told have been told, in their order, and each once:
the tickets are at the ends of the channels, and the journal has nothing else before it says that the
element ended. -/
structure World.Announces (w : World) (e : ElementId) (v : World) : Prop where
  queued : ∀ c, v.pending c =
    w.pending c ++ ((w.audience e).filter fun x => x.channel = c).map Watcher.ticket
  told : ∃ x, w.element? e = some x ∧ v.journal.toList = w.journal.toList ++
    (w.audience e).map (fun x => .noticed x.channel x.ticket) ++ x.obituary e
  /-- They are told in the order in which the handles were stored. -/
  ordered : ((w.audience e).map Watcher.ticket).Sublist w.books.stored
  once : ((w.audience e).map Watcher.ticket).Nodup
  /-- Each handle of the element in a set that exists is told of, and its ticket waits. -/
  handles : ∀ t h, w.handle? t = some h → h.element = e → w.isLive t.owner →
    ⟨w.channelOf t.owner, t⟩ ∈ w.audience e ∧ t ∈ v.pending (v.channelOf t.owner)
  stored : ∀ t, v.handle? t = w.handle? t
  ended : ¬ v.isAlive e

theorem World.Point.announces (hw : w.Point (.hold e ::ₘ D)) (h1 : w.strong e = 1) :
    w.Announces e (w.release e).2 := by
  have hpos : 0 < w.strong e := by omega
  obtain ⟨c, hc⟩ : ∃ c, w.cells[e]? = some c := by
    obtain ⟨c, hc, -⟩ := cells_release hpos
    exact ⟨c, hc⟩
  have hwatchers : w.watchers e = c.watchers := by rw [World.watchers, hc]; rfl
  have hcs : c.strong = 1 := by rw [← h1, strong, hc]; rfl
  have hlt : ∀ x ∈ c.watchers, x.channel < (w.expire e c).channels.size := fun x hx => by
    have hx := hw.recorded.watched e x (hwatchers ▸ hx)
    rw [hx.2]
    exact hw.formed.channel _ (hw.recorded.issued _ _ hx.1).2
  have hordered : ((w.audience e).map Watcher.ticket).Sublist w.books.stored :=
    (List.filter_sublist.map _).trans (hw.watchers_sublist e)
  have hqueued (ch : ChannelId) : (w.release e).2.pending ch =
      w.pending ch ++ ((w.audience e).filter fun x => x.channel = ch).map Watcher.ticket := by
    obtain ⟨-, c', hc', hchannels⟩ | ⟨h2, -⟩ := channels_release hpos
    · obtain rfl := Option.some.inj (hc.symm.trans hc')
      rw [pending_congr hchannels, hwatchers, pending_foldl_announce _ _ hlt, audience, hwatchers,
        List.filter_filter]
      exact congrArg (fun l => w.pending ch ++ l.map Watcher.ticket)
        (List.filter_congr fun x _ => Bool.and_comm _ _)
    · omega
  refine ⟨hqueued, ⟨c.element, by rw [element?, hc]; rfl, ?_⟩, hordered,
    (List.nodup_iff_count_le_one.mpr hw.kept.once).sublist hordered, fun t h hh he hl => ?_,
    handle?_congr (by rw [release_eq]), ?_⟩
  · rw [audience, hwatchers]
    exact journal_release_last hc hcs
  · subst he
    have hone := hw.mirrored.watched t h hh hl (isAlive_iff.mpr hpos)
    have htold : ⟨w.channelOf t.owner, t⟩ ∈ w.audience h.element :=
      List.mem_filter.mpr ⟨List.count_pos_iff.mp (hone ▸ Nat.one_pos),
        hasChannel_of_isLive (lt_size_of_isLive hl) hl⟩
    refine ⟨htold, ?_⟩
    have hch : (w.release h.element).2.channelOf t.owner = w.channelOf t.owner :=
      (later_release (isAlive_iff.mpr hpos)).channelOf (lt_size_of_isLive hl)
    rw [hch, hqueued, List.mem_append, List.mem_map]
    exact .inr ⟨_, List.mem_filter.mpr ⟨htold, by simp⟩, rfl⟩
  · rw [isAlive_iff, strong_release hpos, if_pos rfl, h1]
    decide

/-- Letting go of a last reference runs the destructor in the world in which all was announced. -/
theorem exec_release_last (run : Runner) {x : Element} (h1 : w.strong e = 1) (hx : w.element? e = some x) :
    (Act.release run e).exec w = (.ok (), match x.onDrop with
      | none => (w.release e).2
      | some script => ((run .destructor script).exec (w.release e).2).2) := by
  have hdrop : (w.release e).1 = x.onDrop := by
    obtain ⟨c, hc, rfl⟩ := Option.map_eq_some_iff.mp hx
    have hcs : c.strong = 1 := by rw [← h1, strong, hc]; rfl
    rw [World.release, hc]
    simp only [hcs, ite_true]
    cases c.element.onDrop <;> rfl
  rw [Act.release, exec_bind_ok (exec_update _ w), hdrop]
  cases x.onDrop with
  | none => rfl
  | some script => exact exec_discard (attempt (run .destructor script)) _

/-! ## What nobody finds any more -/

/-- No lookup and no walk comes upon element `e`. Insertions and removals find what a probe of a shard
finds. -/
structure World.Hides (w : World) (run : Runner) (e : ElementId) : Prop where
  probe : ∀ s k hash q p w' key, (probeShard run s k hash q).exec w = (.ok p, w') →
    p.found = .ok (some key) → ∃ h, w.handle? ⟨s, k, key⟩ = some h ∧ h.element ≠ e
  ticket : ∀ s q t w', s < w.sets.size → (ticketOf run s q).exec w = (.ok (some t), w') →
    .stored t e ∉ w'.journal.toList
  next : ∀ (c : Cursor) x w', c.set < w.sets.size → (c.next run).exec w = (.ok x, w') → x.outcome ≠ .ok (some e)
  rest : ∀ (c : Cursor) x w' es, c.set < w.sets.size → (c.rest run).exec w = (.ok x, w') → x.outcome = .ok es →
    e ∉ es
  list : ∀ s es w', s < w.sets.size → (toList run s).exec w = (.ok es, w') → e ∉ es

theorem World.Point.hides (hr : run.Sound) (hw : w.Point D) (he : e < w.cells.size)
    (hd : ¬ w.isAlive e) : w.Hides run e := by
  have hnot : ∀ {v E}, Course .idle (w, D) (v, E) → .hold e ∉ E := fun c hm =>
    (c.later hw.sane).dead_of_not_isAlive he hd ((c.point hw).counted.isAlive_of_hold hm)
  refine ⟨fun s k hash q p w' key hx hf => ?_, fun s q t w' hs hx hst => ?_, fun c x w' hs hx ho => ?_,
    fun c x w' es hs hx ho hm => ?_, fun s es w' hs hx hm => ?_⟩
  · have c := (leads_probeShard hr (L := .idle) (E := D) s k hash q).ok hx hw (.idle w)
    rw [exec_probeShard] at hx
    obtain ⟨h, hm, -, hheld⟩ := yields_probe q _ _ _ _ hx key hf
    refine ⟨h, ((hw.formed.shards s k).mem_candidates.mp hm).1, ?_⟩
    rintro rfl
    exact hnot c (Multiset.mem_add.mpr (.inl (hold_mem_holds.mpr hheld)))
  · obtain ⟨e', v, E, c, hst', ha, c'⟩ := shown_of_ticketOf hr hw hs hx
    have hv := (c.point hw).sane
    obtain rfl := (c'.sane hv).recorded.unique _ _ _ hst ((c'.later hv).mem_journal hst')
    exact (c.later hw.sane).dead_of_not_isAlive he hd ha
  · have c' := (Cursor.leads_next hr (E := D) c hs).ok (L := .idle) hx hw (.idle w)
    refine hnot c' (Multiset.mem_add.mpr (.inl ?_))
    rw [Cursor.Step.due, ho]
    exact hold_mem_holds.mpr (List.mem_singleton_self e)
  · have c' := (Cursor.leads_rest hr (E := D) c hs).ok (L := .idle) hx hw (.idle w)
    refine hnot c' (Multiset.mem_add.mpr (.inl ?_))
    rw [Cursor.Step.due, ho]
    exact hold_mem_holds.mpr hm
  · have c' := (leads_toList hr (D := D) hs).ok (L := .idle) hx hw (.idle w)
    exact hnot c' (Multiset.mem_add.mpr (.inl (hold_mem_holds.mpr hm)))

/-! ## What the next sweep tells -/

/-- A sweep tells nothing of an element that ended but that. -/
theorem Visits.last_of_ended {ts : List Ticket} {rs : List (Record × Except Panic Unit)} (hr : run.Sound)
    (h : Visits run s w ts rs w') (hw : w.Point (deals s ts + D)) (hs : s < w.sets.size)
    (hst : .stored t e ∈ w.journal.toList) (he : e < w.cells.size) (hd : ¬ w.isAlive e) :
    ∀ r ∈ rs, r.1.ticket = t → r.1.last = none := by
  induction h with
  | done => simp
  | @foreign w w' t' ts rs hf _ ih =>
    have c : Course .idle (w, deals s (t' :: ts) + D) (w.note (.line (.foreign t')), deals s ts + D) :=
      (course_foreign hf ts).tail (.note rfl)
    have hl := c.later hw.sane
    exact ih (c.point hw) (hs.trans_le hl.sets) (hl.mem_journal hst) (he.trans_le hl.cells)
      (hl.dead_of_not_isAlive he hd)
  | @stale w w' t' ts rs ho hn _ ih =>
    rw [deals_cons_own ho, Multiset.cons_add] at hw
    have c : Course .idle (w, .deal t' ::ₘ (deals s ts + D)) (w, deals s ts + D) := .single (.stale hn)
    exact ih (c.point hw) hs hst he hd
  | @reap w v w' t' x o ts rs ho hx hattests hl _ ih =>
    subst ho
    rw [deals_cons_own rfl, Multiset.cons_add] at hw
    have c := course_reap hw hx
    have c' : Course .idle _ _ := c.trans (course_listen hr (c.point hw) hl)
    have hlater := c'.later hw.sane
    intro r hm ht
    rcases List.mem_cons.mp hm with rfl | hm
    · obtain ⟨e', hst', -, hlast⟩ := hattests
      obtain rfl := hw.recorded.unique _ _ _ hst (ht ▸ hst')
      rw [hlast, if_neg fun h => hd h.2]
    · exact ih (c'.point hw) (hs.trans_le hlater.sets) (hlater.mem_journal hst)
        (he.trans_le hlater.cells) (hlater.dead_of_not_isAlive he hd) r hm ht

/-- How a sweep of its set clears up what is left of an element that ended: ticket `t` is of a handle of
that. Whoever asks for the length has the same sweep, and what is left counted if no panic comes out of
that. -/
structure World.ClearsUp (w : World) (run : Runner) (t : Ticket)
    (rs : List (Record × Except Panic Unit)) (v : World) : Prop where
  visits : Visits run t.owner (w.takeNotices t.owner).2 (w.takeNotices t.owner).1 rs v
  sweep : (sweep run t.owner).exec w =
    ((w.collection t.owner).settings.policy.verdict (rs.map Prod.snd), v.summed rs.length)
  length : (length run t.owner).exec w =
    (((w.collection t.owner).settings.policy.verdict (rs.map Prod.snd)).map
      fun _ => (v.ticketsOf t.owner).length, v.summed rs.length)
  gone : v.handle? t = none
  absent : ∀ r ∈ rs, r.1.ticket = t → r.1.last = none
  /-- The listener's own code may take the handle out in another way. -/
  told : (w.handle? t).isSome →
    t ∉ w.books.reported ∧ v.books.removed.count t + v.books.reported.count t = 1
  reported : (w.collection t.owner).listener.IsInert run → (w.handle? t).isSome →
    ∃ r ∈ rs, r.1.ticket = t

theorem World.Point.clearsUp (hr : run.Sound) (hw : w.Point D) (hs : t.owner < w.sets.size)
    (hn : t.owner ∉ w.entered) (hst : .stored t e ∈ w.journal.toList) (he : e < w.cells.size)
    (hd : ¬ w.isAlive e) (hdel : w.delivers (w.channelOf t.owner))
    (ht : w.handle? t = none ∨ t ∈ w.pending (w.channelOf t.owner)) :
    ∃ rs v, w.ClearsUp run t rs v := by
  have hm : Course .idle (w, D) ((w.takeNotices t.owner).2, deals t.owner (w.takeNotices t.owner).1 + D) :=
    .single (.takeNotices hs)
  have hj := journal_takeNotices w t.owner
  have hcells := cells_takeNotices w t.owner
  obtain ⟨rs, v, hv, hx, c, hgone, -⟩ := exec_sweep_visits hr hw hs hn
  have hl := c.later hw.sane
  have hpoint := c.point hw
  have hnone : v.handle? t = none := ht.elim (hl.gone t (hw.recorded.issued t e hst).1)
    fun ht => hgone t (mem_drain_of_delivers hdel ht) rfl
  have hcount (hh : (w.handle? t).isSome) :
      t ∉ w.books.reported ∧ v.books.removed.count t + v.books.reported.count t = 1 := by
    obtain ⟨hstored, hnew, hdue⟩ := hw.kept.of_handle? hh
    exact ⟨hnew, hpoint.kept.accounted (hl.mem_stored hstored) hnone hdue⟩
  refine ⟨rs, v, hv, hx, ?_, hnone, ?_, hcount, fun hi hh => ?_⟩
  · have hleft : t.owner ∉ (v.summed rs.length).entered := by
      rw [entered_summed, hpoint.mem_entered, ← hw.mem_entered]
      exact hn
    have hsize : (v.summed rs.length).size t.owner = (v.ticketsOf t.owner).length := by
      rw [length_ticketsOf, size, size, collection_congr (sets_summed v _)]
    rw [WeakSet.length, exec_bind, exec_discard, hx]
    cases (w.collection t.owner).settings.policy.verdict (rs.map Prod.snd) with
    | error p => rfl
    | ok n => exact (exec_count hleft).trans (by rw [hsize]; rfl)
  · refine hv.last_of_ended hr (hm.point hw) (hs.trans_le (hm.later hw.sane).sets) (hj ▸ hst)
      (hcells ▸ he) ?_
    rwa [isAlive, strong_congr hcells]
  · obtain ⟨-, hrem, hrep⟩ := hv.inert (by rwa [collection_congr (sets_takeNotices w _)])
    obtain ⟨hnew, hone⟩ := hcount hh
    have hstays : v.books.removed.count t = 0 := by
      rw [hrem, books_congr hj]
      exact List.count_eq_zero.mpr fun h => by simp [(hw.kept.of_removed h).1] at hh
    refine (hrep t (List.count_pos_iff.mp (by omega))).resolve_left ?_
    rwa [books_congr hj]

namespace Session

/-- Destruction is announced before the destructor runs. An element that ends in a course ends where its last
reference is let go of. There every watcher whose channel exists is told, once and in order, and then the
destructor starts. At every point from there no lookup or walk comes upon the element, and for each handle
of it a sweep clears up, or the asking for the length, if the set is not locked and its channel delivers what
waits in it. The ticket waits when the destructor starts. It goes on waiting until a sweep has it in hand,
as long as the set is not disturbed. -/
theorem destruction_announced_first (depth : Nat) :
    (∀ cs, (carryOutAll depth .empty cs).Point 0) ∧
    (∀ w : World, w.Point 0 → ∀ cs, Course .idle (w, 0) (carryOutAll depth w cs, 0)) ∧
    (∀ (w : World) D role script, w.Point D →
      Course .idle (w, D) (((runner depth role script).exec w).2, D)) ∧
    (∀ L (w : World) D w' D' e, w.Point D → Course L (w, D) (w', D') → w.isAlive e → ¬ w'.isAlive e →
      ∃ v E, Course L (w, D) (v, .hold e ::ₘ E) ∧ v.strong e = 1 ∧
        Course L ((v.release e).2, E) (w', D')) ∧
    let run := runner depth
    ∀ (w : World) D e, w.Point (.hold e ::ₘ D) → w.strong e = 1 →
      w.Announces e (w.release e).2 ∧
      (∀ x, w.element? e = some x → (Act.release run e).exec w = (.ok (), match x.onDrop with
        | none => (w.release e).2
        | some script => ((run .destructor script).exec (w.release e).2).2)) ∧
      ∀ L v D', Course L ((w.release e).2, D) (v, D') → v.Hides run e ∧
        ∀ t h, w.handle? t = some h → h.element = e → t.owner ∉ v.entered →
          v.delivers (v.channelOf t.owner) →
          v.handle? t = none ∨ t ∈ v.pending (v.channelOf t.owner) ∨
            v.isLive t.owner ∧ v.Undisturbed t.owner ∧ .deal t ∉ D' →
          ∃ rs u, v.ClearsUp run t rs u := by
  have hr := sound_runner depth
  refine ⟨point_carryOutAll depth, fun w hw cs => course_carryOutAll depth hw cs,
    fun w D role script hw => course_script depth hw role script,
    fun L w D w' D' e hw c ha hd => c.ends hw.sane ha hd, fun w D e hw h1 => ?_⟩
  have ha : w.isAlive e := isAlive_iff.mpr (by omega)
  have hannounced := hw.announces h1
  refine ⟨hannounced, fun x hx => exec_release_last _ h1 hx, fun L v D' c => ?_⟩
  have c' : Course L (w, .hold e ::ₘ D) (v, D') := .head .release c
  have hv := c'.point hw
  have hl := c'.later hw.sane
  have he := lt_size_of_strong (isAlive_iff.mp ha)
  have hd : ¬ v.isAlive e := by
    have hm : Course L (w, .hold e ::ₘ D) ((w.release e).2, D) := .single .release
    have hsane := hm.sane hw.sane
    exact (c.later hsane).dead_of_not_isAlive (he.trans_le (hm.later hw.sane).cells) hannounced.ended
  refine ⟨hv.hides hr (he.trans_le hl.cells) hd, ?_⟩
  rintro t h hh rfl hn hdel hwaits
  have hst := hl.mem_journal (hw.recorded.stored t h hh)
  refine hv.clearsUp hr ((hasShard_of_handle? hh).1.trans_le hl.sets) hn hst (he.trans_le hl.cells) hd
    hdel ?_
  rcases hv? : v.handle? t with _ | x
  · exact .inl rfl
  · refine .inr ?_
    rcases hwaits with hnone | hp | ⟨hlive, hu, hdeal⟩
    · cases hv?.symm.trans hnone
    · exact hp
    · have hx : h.element = x.element := hv.recorded.unique _ _ _ hst (hv.recorded.stored t x hv?)
      have htracks := (hv.covered t x hv? hlive hu).resolve_left fun ha => hd (hx ▸ ha.1)
      exact htracks.2.resolve_right hdeal

/-- An element with a destructor that uses sets again is in a set of phantom references and in one of weak
references. -/
def partingRun : List Command :=
  [.build "p" (.ok ⟨{ capacity := 4, concurrency := 1, kind := .phantom }, none, .constant 7, .silent⟩),
    .build "s" (.ok ⟨{ capacity := 4, concurrency := 1 }, none, .constant 7, .silent⟩),
    .new "x" (.number 1) (some [.length "p", .sweep "s"]) none, .insert "s" "x" none,
    .insert "p" "x" none, .insert "p" "x" none]

/-- When its destructor starts the tickets of all its handles wait, nobody finds it, and a sweep of either
set clears up. -/
theorem destruction_announced_first_parting :
    let w := carryOutAll 1 .empty partingRun
    let u : World := { w with owners := w.owners.erase "x" }
    let v := (u.release 0).2
    v.pending 0 = [⟨0, 0, 0, 1⟩, ⟨0, 0, 1, 1⟩] ∧ v.pending 1 = [⟨1, 0, 0, 1⟩] ∧
      v.Hides (runner 1) 0 ∧ (∃ rs w', v.ClearsUp (runner 1) ⟨0, 0, 1, 1⟩ rs w') ∧
      ∃ rs w', v.ClearsUp (runner 1) ⟨1, 0, 0, 1⟩ rs w' := by
  intro w u v
  obtain ⟨hpoint, -, -, -, h⟩ := destruction_announced_first 1
  have c : Course .idle (w, 0) (u, .hold 0 ::ₘ 0) := .single (.disown (by decide +kernel))
  obtain ⟨-, -, hcode⟩ := h u 0 0 (c.point (hpoint partingRun)) (by decide +kernel)
  obtain ⟨hhides, hclears⟩ := hcode .idle v 0 .refl
  have hp : v.pending 0 = [⟨0, 0, 0, 1⟩, ⟨0, 0, 1, 1⟩] := by decide +kernel
  have hs : v.pending 1 = [⟨1, 0, 0, 1⟩] := by decide +kernel
  refine ⟨hp, hs, hhides, ?_, ?_⟩
  · exact hclears ⟨0, 0, 1, 1⟩ ⟨0, 7, .phantom⟩ (by decide +kernel) rfl (by decide +kernel)
      (by decide +kernel) (.inr (.inl (by decide +kernel)))
  · exact hclears ⟨1, 0, 0, 1⟩ ⟨0, 7, .weak⟩ (by decide +kernel) rfl (by decide +kernel)
      (by decide +kernel) (.inr (.inl (by decide +kernel)))

end Session

end WeakSet
