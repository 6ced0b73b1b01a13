import WeakSet.Proofs.Batches
import WeakSet.Proofs.Reentry

/-!
# Operations honour what waits

An `Operation` of a set does one of two things. Either it sweeps the set before anything else
(`Operation.sweepsFirst`), or it comes to its result without a look at the world: this is so for no
elements and no queries, `retainAll` excepted, and for the comparison of a set with itself
(`Operation.IsIdle`).

So what waits in the channel of a set when an operation is called is dealt with when that has a result
(`World.Honours`), unless the operation is idle. A sweep of a set whose channel has nothing more to deliver
changes nothing, and an operation is the same with or without a sweep before it. This is always so if the
listener's code changes nothing (`Listener.IsInert`).
-/

namespace WeakSet

open Act Duties World

/-! ## The operations of a set -/

/-- The operations of a set with their arguments, but for `clear`. -/
inductive Operation : Type → Type where
  | insert (e : ElementId) : Operation (Option Ticket)
  | add (e : ElementId) : Operation Bool
  | addAll (es : List ElementId) : Operation Bool
  | ticketOf (q : Query) : Operation (Option Ticket)
  | contains (q : Query) : Operation Bool
  | containsAll (qs : List Query) : Operation Bool
  | remove (q : Query) : Operation Bool
  | removeAll (qs : List Query) : Operation Bool
  | retain (keep : ElementId → Act Bool) : Operation Bool
  | retainAll (qs : List Query) : Operation Bool
  | length : Operation Nat
  | isEmpty : Operation Bool
  | start : Operation Cursor
  | toList : Operation (List ElementId)
  | equals (s : SetId) : Operation Bool
  | hash : Operation UInt64

namespace Operation

variable {α : Type}

/-- What an operation does in a set. -/
def act (run : Runner) (s : SetId) : Operation α → Act α
  | insert e => WeakSet.insert run s e
  | add e => WeakSet.add run s e
  | addAll es => WeakSet.addAll run s es
  | ticketOf q => WeakSet.ticketOf run s q
  | contains q => WeakSet.contains run s q
  | containsAll qs => WeakSet.containsAll run s qs
  | remove q => WeakSet.remove run s q
  | removeAll qs => WeakSet.removeAll run s qs
  | retain keep => WeakSet.retain run s keep
  | retainAll qs => WeakSet.retainAll run s qs
  | length => WeakSet.length run s
  | isEmpty => return (← WeakSet.length run s) = 0
  | start => Cursor.start run s
  | toList => WeakSet.toList run s
  | equals s' => sameSets run s s'
  | hash => hashOf run s

/-- Operations that do not look at the set. -/
def IsIdle (s : SetId) : Operation α → Prop
  | addAll es => es = []
  | containsAll qs => qs = []
  | removeAll qs => qs = []
  | equals s' => s = s'
  | _ => False

/-- The client may call an operation: it holds what is put in, the predicate is code of its own, and the
set that is compared with exists. -/
def Fits (w : World) (D : Duties) : Operation α → Prop
  | insert e | add e => .hold e ∈ D
  | addAll es => ∀ e ∈ es, .hold e ∈ D
  | retain keep => ∀ L e w' D', World.Later w w' → Balanced L (keep e) w' D'
  | equals s' => s' < w.sets.size
  | _ => True

/-- The predicates of commands are code of the client's. -/
theorem fits_predicate {run : Runner} (hr : run.Sound) (w : World) (D : Duties) (s : SetId)
    (keep : Face → Bool) (on : List (String × Script)) :
    (Operation.retain (Session.predicate run s keep on)).Fits w D :=
  fun _ e _ _ _ => Session.balanced_predicate hr keep on e

/-- What is due after an operation with a result: only a list comes with references. -/
def due (D : Duties) : Operation α → α → Duties
  | toList, es => holds es + D
  | _, _ => D

variable {L : Scene} {run : Runner} {w w' : World} {D : Duties} {s : SetId} {op : Operation α}

theorem report_mem_due {x : α} {t : Ticket} (h : .report t ∈ op.due D x) : .report t ∈ D := by
  cases op with
  | toList => exact (Multiset.mem_add.mp h).resolve_left (not_mem_holds (by simp) _)
  | _ => exact h

/-- Idle operations change nothing. -/
theorem exec_of_isIdle (run : Runner) (h : op.IsIdle s) (w : World) :
    ∃ x, (op.act run s).exec w = (.ok x, w) := by
  cases op with
  | addAll | removeAll | containsAll =>
    obtain rfl := h
    exact ⟨false, rfl⟩
  | equals s' =>
    obtain rfl : s = s' := h
    exact ⟨true, by rw [act, sameSets, if_pos rfl]; rfl⟩
  | _ => exact h.elim

theorem sweepsFirst_anyOf {β : Type} {f : β → Act Bool} {xs : List β} (hne : xs ≠ [])
    (hx : ∀ x ∈ xs, SweepsFirst run s L (f x) w D (fun _ => D))
    (hxs : ∀ x ∈ xs, ∀ w', World.Later w w' → Balanced L (f x) w' D) :
    SweepsFirst run s L (anyOf f xs) w D (fun _ => D) := by
  cases xs with
  | nil => exact absurd rfl hne
  | cons x xs =>
    rw [anyOf, List.foldlM_cons]
    have hfirst : SweepsFirst run s L (do return (← f x) || false) w D (fun _ => D) :=
      (hx x (by simp)).bind fun _ _ _ => .pure rfl
    refine hfirst.bind fun b w₁ h₁ => ?_
    exact balanced_anyFrom (fun y hy w' hl => hxs y (by simp [hy]) w' (h₁.trans hl)) b

/-- Any other operation sweeps first. -/
theorem sweepsFirst (hr : run.Sound) (hu : L.Uses s) (hs : s < w.sets.size) (hf : op.Fits w D)
    (hi : ¬ op.IsIdle s) : SweepsFirst run s L (op.act run s) w D (op.due D) := by
  cases op with
  | insert e => exact sweepsFirst_insert hr hu hf
  | add e => exact .map (sweepsFirst_insert hr hu hf)
  | addAll es =>
    exact sweepsFirst_anyOf hi (fun e he => .map (sweepsFirst_insert hr hu (hf e he)))
      fun e he _ _ => balanced_add hr hu (hf e he)
  | ticketOf q => exact sweepsFirst_ticketOf hr q
  | contains q => exact .map (sweepsFirst_ticketOf hr q)
  | containsAll qs =>
    cases qs with
    | nil => exact absurd rfl hi
    | cons q qs =>
      have hfirst : SweepsFirst run s L (WeakSet.contains run s q) w D (fun _ => D) :=
        .map (sweepsFirst_ticketOf hr q)
      refine hfirst.bind fun b w₁ h₁ => ?_
      split
      · exact balanced_allOf fun q _ _ hl => balanced_contains hr q ((hs.trans_le h₁.sets).trans_le hl.sets)
      · exact .pure rfl
  | remove q => exact sweepsFirst_remove hr q
  | removeAll qs =>
    exact sweepsFirst_anyOf hi (fun q _ => sweepsFirst_remove hr q)
      fun q _ _ hl => balanced_remove hr q (hs.trans_le hl.sets)
  | retain keep => exact sweepsFirst_retain hr fun e w' D' hl => hf L e w' D' hl
  | retainAll qs => exact sweepsFirst_retainAll hr qs
  | length => exact sweepsFirst_length
  | isEmpty => exact .bind sweepsFirst_length fun _ _ _ => .pure rfl
  | start => exact Cursor.sweepsFirst_start
  | toList => exact sweepsFirst_toList hr hs
  | equals s' => exact sweepsFirst_sameSets hr hi hf
  | hash => exact sweepsFirst_hashOf hr

end Operation

/-! ## Sweeps -/

variable {run : Runner} {w w' v : World} {D : Duties} {s : SetId} {t : Ticket} {ts : List Ticket}
  {rs : List (Record × Except Panic Unit)}

/-- A sweep changes nothing if the channel has nothing to deliver. -/
theorem exec_sweep_drained (run : Runner) (h : w.Drained s) : (sweep run s).exec w = (.ok 0, w) := by
  have hw : (w.takeNotices s).2 = w := by
    rw [World.Drained, World.takeNotices, World.drain] at h
    rw [World.takeNotices, World.drain]
    split at h
    · simp only [*]
    · rename_i ch hc
      have hch : ch.drain.2 = ch := by
        obtain ⟨kind, isOpen, pending⟩ := ch
        unfold Channel.drain at h ⊢
        split <;> simp_all
      obtain ⟨hi, rfl⟩ := Array.getElem?_eq_some_iff.mp hc
      simp only [hch, Array.set!_eq_setIfInBounds, Array.setIfInBounds_def, hi, dite_true,
        Array.set_getElem_self]
  rw [sweep, exec_bind_ok (exec_update _ w), hw, show (w.takeNotices s).1 = [] from h]
  rfl

/-- A batch that a locked set did not stop has no tickets of the set. -/
theorem isForeign_of_locked {b b' : Batch} (hn : s ∈ w.entered)
    (hx : (ts.foldlM (sweepOne run s) b).exec w = (.ok b', w')) (ht : t ∈ ts) : w.isForeign s t := by
  induction ts generalizing w b with
  | nil => cases ht
  | cons t' ts ih =>
    rw [List.foldlM_cons] at hx
    obtain ⟨b₁, w₁, h₁, hx⟩ := exec_bind_eq_ok.mp hx
    by_cases hf : w.isForeign s t'
    · rw [exec_sweepOne_foreign run hf] at h₁
      obtain ⟨-, rfl⟩ := Prod.mk.injEq .. ▸ h₁
      rcases List.mem_cons.mp ht with rfl | ht
      · exact hf
      · exact ih (w := w.note (.line (.foreign t'))) hn hx ht
    · obtain rfl := owner_of_not_isForeign hf
      rw [sweepOne, exec_bind_ok (exec_look _ w), Bool.eq_false_iff.mpr hf] at h₁
      simp only [Bool.false_eq_true, ite_false] at h₁
      have hstop : (takeOut t' .swept).exec w = (.error reentered, w.note (.barred t'.owner)) :=
        exec_guarded_of_mem hn _
      rw [exec_bind_error hstop] at h₁
      cases h₁

/-- A sweep that has a result leaves no handle of what its channel delivered. -/
theorem gone_of_sweep_ok (hr : run.Sound) (hw : w.Point D) (hs : s < w.sets.size) {n : Nat}
    (hx : (sweep run s).exec w = (.ok n, w')) (ht : t ∈ (w.takeNotices s).1) (ho : t.owner = s) :
    w'.handle? t = none := by
  by_cases hn : s ∈ w.entered
  · have hfor : w.isForeign s t := by
      rw [sweep, exec_bind_ok (exec_update _ w)] at hx
      obtain ⟨b, w₁, h₁, -⟩ := exec_bind_eq_ok.mp hx
      have hent : s ∈ (w.takeNotices s).2.entered := by rwa [World.takeNotices_eq]
      have := isForeign_of_locked hent h₁ ht
      rwa [World.isForeign, World.shardCount,
        World.collection_congr (World.sets_takeNotices w s)] at this
    have hkept : w.Refused s true ((sweep run s).exec w).2 :=
      keeps_sweep ⟨hn, hw.formed.roomy s hs⟩
    rw [hx] at hkept
    rw [World.handle?_congr hkept.sets]
    exact World.handle?_of_isForeign hfor ho
  · obtain ⟨rs, v, -, hx', -, hgone, -⟩ := exec_sweep_visits hr hw hs hn
    rw [hx] at hx'
    obtain ⟨-, rfl⟩ := Prod.mk.injEq .. ▸ hx'
    rw [World.handle?_congr (World.sets_summed v rs.length)]
    exact hgone t ht ho

/-! ## Listeners that change nothing -/

/-- What the code of a listener does at a call. -/
def Listener.react (run : Runner) (l : Listener Script) (n : Nat) : Act Unit :=
  match l.script? n with
  | none => pure ()
  | some script => run .listener script

/-- The code of a listener changes nothing, whether it ends or panics. -/
def Listener.IsInert (run : Runner) (l : Listener Script) : Prop :=
  ∀ n w, ((l.react run n).exec w).2 = w

theorem Listener.IsPlain.isInert {l : Listener Script} (h : l.IsPlain) (run : Runner) :
    l.IsInert run := by
  intro n w
  rw [react, h n]
  rfl

variable {x : Handle} {o : Except Panic Unit}

/-- A listener call ends as its code does. What is left of the record in hand is let go of. -/
theorem exec_listen {n : Nat} (hx : ((w.collection s).listener.react run n).exec w = (o, v)) :
    (listen run s n).exec w = (o, ((releaseAll run (v.hands.head?.join.bind Record.last).toList).exec
      { v with hands := v.hands.tail }).2) := by
  obtain ⟨u, hu⟩ := exec_releaseAll run (v.hands.head?.join.bind Record.last).toList
    { v with hands := v.hands.tail }
  rw [hu, listen, exec_bind_ok (exec_attempt _ _), exec_bind_ok (exec_look _ _)]
  rw [Listener.react] at hx
  generalize (w.collection s).listener.script? n = script? at hx ⊢
  cases script?
  all_goals
    simp only at hx ⊢
    rw [hx, exec_bind_ok (exec_update _ _)]
    dsimp only
    cases hlast : v.hands.head?.join.bind Record.last with
    | none =>
      rw [hlast] at hu
      obtain ⟨-, rfl⟩ := Prod.mk.injEq .. ▸ hu
      exact exec_settle o _
    | some e =>
      rw [hlast, Option.toList_some, releaseAll] at hu
      obtain ⟨_, u', h₁, h₂⟩ := exec_bind_eq_ok.mp hu
      obtain ⟨-, rfl⟩ := Prod.mk.injEq .. ▸ h₂
      exact (exec_bind_ok h₁ _).trans (exec_settle o _)

/-- An inert listener is called, and lets go of what the record holds. -/
theorem framed_listen (n : Nat) (hl : (w.collection t.owner).listener.IsInert run)
    (hx : (listen run t.owner n).exec (w.reap t x) = (o, v)) :
    Framed t.owner [] w v ∧ v.channels = (w.reap t x).channels ∧
      v.journal = (w.reap t x).journal := by
  have hf := ((Framed.takeOut w t .swept).trans (.close _ _ t x)).trans (.call _ _ (w.recordOf t x))
  rw [recordOf_takeOut, List.nil_append, List.append_nil] at hf
  have hsame : ((w.reap t x).collection t.owner).listener = (w.collection t.owner).listener :=
    Collection.listener_eq (hf.mould t.owner)
  obtain ⟨u, hu, hfu, hs⟩ := hf.giveBack run
  obtain ⟨r, hr⟩ : ∃ r, (((w.reap t x).collection t.owner).listener.react run n).exec (w.reap t x) =
      (r, w.reap t x) := ⟨_, Prod.ext rfl (by rw [hsame]; exact hl n _)⟩
  obtain rfl : v = u := by
    have hcall : v = ((releaseAll run (w.recordOf t x).last.toList).exec _).2 :=
      congrArg Prod.snd (hx.symm.trans (exec_listen hr))
    exact hcall.trans (congrArg Prod.snd hu)
  exact ⟨hfu, by rw [hs.rest]; rfl, by rw [hs.rest]; rfl⟩

theorem channels_reap (w : World) (t : Ticket) (x : Handle) : (w.reap t x).channels = w.channels := by
  change ((w.takeOut t .swept).2.close t x).channels = _
  rw [close_eq]
  rcases takeOut_cases w t .swept with ⟨-, e⟩ | ⟨h, -, e⟩
  · rw [e]
  · rw [e]
    rfl

/-- Where the listener is inert, a batch touches no channel, nothing is removed, and what it reports are its
records. -/
theorem Visits.inert (h : Visits run s w ts rs w') (hl : (w.collection s).listener.IsInert run) :
    w'.channels = w.channels ∧ w'.books.removed = w.books.removed ∧
      ∀ t ∈ w'.books.reported, t ∈ w.books.reported ∨ ∃ r ∈ rs, r.1.ticket = t := by
  induction h with
  | done => exact ⟨rfl, rfl, fun _ => .inl⟩
  | foreign hf _ ih =>
    obtain ⟨hc, hr, hm⟩ := ih hl
    refine ⟨hc, hr.trans (by rw [books_note]; rfl), fun t ht => (hm t ht).imp (fun h => ?_) id⟩
    rwa [books_note] at h
  | stale _ _ _ ih => exact ih hl
  | @reap w v w' t x o ts rs ho hx _ hlisten _ ih =>
    subst ho
    obtain ⟨hf, hc, hj⟩ := framed_listen _ hl hlisten
    have hsame : (v.noteEnd t o).sets = v.sets ∧ (v.noteEnd t o).channels = v.channels ∧
        (v.noteEnd t o).books = v.books := by
      cases o
      · exact ⟨rfl, rfl, by rw [noteEnd, books_note]; rfl⟩
      · exact ⟨rfl, rfl, rfl⟩
    have hlis : ((v.noteEnd t o).collection t.owner).listener = (w.collection t.owner).listener := by
      rw [collection_congr hsame.1]
      exact Collection.listener_eq (hf.mould t.owner)
    obtain ⟨hc', hr', hm⟩ := ih (hlis ▸ hl)
    refine ⟨by rw [hc', hsame.2.1, hc, channels_reap], ?_, fun t' ht => ?_⟩
    · rw [hr', hsame.2.2, books_congr hj, books_append (journal_reap hx)]
      rfl
    · rcases hm t' ht with h | ⟨r, hr, hrt⟩
      · rw [hsame.2.2, books_congr hj, books_append (journal_reap hx)] at h
        rcases List.mem_append.mp (show t' ∈ w.books.reported ++ [t] from h) with h | h
        · exact .inl h
        · exact .inr ⟨_, List.mem_cons_self, (List.mem_singleton.mp h).symm⟩
      · exact .inr ⟨r, List.mem_cons_of_mem _ hr, hrt⟩

/-- A sweep with an inert listener leaves the channel with nothing to deliver, and removes nothing. -/
theorem drained_of_sweep (hr : run.Sound) (hw : w.Point D) (hs : s < w.sets.size)
    (hl : (w.collection s).listener.IsInert run) :
    ((sweep run s).exec w).2.Drained s ∧ ((sweep run s).exec w).2.books.removed = w.books.removed := by
  by_cases hn : s ∈ w.entered
  · have hkept : w.Refused s true ((sweep run s).exec w).2 :=
      keeps_sweep ⟨hn, hw.formed.roomy s hs⟩
    exact ⟨drained_of_channels (by rw [channelOf, channelOf, collection_congr hkept.sets]) hkept.channels,
      by rw [hkept.books]⟩
  · obtain ⟨rs, v, hv, hx, hc, -, -⟩ := exec_sweep_visits hr hw hs hn
    obtain ⟨hch, hrem, -⟩ := hv.inert (by rwa [collection_congr (sets_takeNotices w s)])
    rw [hx]
    refine ⟨drained_of_channels ?_ ((channels_summed v _).trans hch), ?_⟩
    · rw [channelOf, collection_congr (sets_summed v _)]
      exact (hc.later hw.sane).channelOf hs
    · rw [books_summed, hrem, books_congr (journal_takeNotices w s)]

/-! ## What waits is honoured -/

/-- What waited in the channel of a set is dealt with: no handle of its tickets is left, and each that
was there was reported, once, unless it was removed in another way. -/
structure World.Honours (w : World) (s : SetId) (w' : World) : Prop where
  gone : ∀ t ∈ w.pending (w.channelOf s), t.owner = s → w'.handle? t = none
  told : ∀ t ∈ w.pending (w.channelOf s), t.owner = s → (w.handle? t).isSome →
    t ∉ w.books.reported ∧ w'.books.removed.count t + w'.books.reported.count t = 1

namespace Operation

variable {α : Type} {op : Operation α} {name : Option String} {y : α}

/-- An operation that has a result had one of its sweep, and is a course of moves from there. -/
theorem exists_swept (hr : run.Sound) (hw : w.Point D) (hv : w.Serves (name, s)) (hf : op.Fits w D)
    (hi : ¬ op.IsIdle s) (hx : (op.act run s).exec w = (.ok y, w')) :
    ∃ n w₁ L, (sweep run s).exec w = (.ok n, w₁) ∧ Course L (w, D) (w₁, D) ∧
      Course L (w₁, D) (w', op.due D y) := by
  have ho : (Scene.idle.use name s).On w := (Scene.On.idle w).use hv
  have hu : (Scene.idle.use name s).Uses s := Scene.uses_use .idle name s
  obtain ⟨b, hb, hl⟩ := op.sweepsFirst hr hu (ho.lt_size hu) hf hi
  rw [hb] at hx
  obtain ⟨_, w₁, h₁, h₂⟩ := exec_bind_eq_ok.mp hx
  rw [exec_discard] at h₁
  rcases hsw : (sweep run s).exec w with ⟨p | n, u⟩ <;> rw [hsw] at h₁
  · cases h₁
  · obtain ⟨-, rfl⟩ := Prod.mk.injEq .. ▸ h₁
    have c₁ := (balanced_sweep hr (ho.lt_size hu)).ok hsw hw ho
    exact ⟨n, u, _, rfl, c₁, (hl u (c₁.later hw.sane)).ok h₂ (c₁.point hw) (c₁.on ho)⟩

/-- An operation that has a result has dealt with what waited. -/
theorem honours (hr : run.Sound) (hw : w.Point D) (hv : w.Serves (name, s)) (hf : op.Fits w D)
    (hi : ¬ op.IsIdle s) (hd : w.delivers (w.channelOf s))
    (hx : (op.act run s).exec w = (.ok y, w')) : w.Honours s w' := by
  obtain ⟨n, w₁, L, hsw, c₁, c₂⟩ := exists_swept hr hw hv hf hi hx
  have hw₁ := c₁.point hw
  have hl := c₂.later hw₁.sane
  have hgone : ∀ t ∈ w.pending (w.channelOf s), t.owner = s → w'.handle? t = none := fun t ht ho =>
    hl.gone t ((c₁.later hw.sane).issued t (hw.issued_of_pending ht))
      (gone_of_sweep_ok hr hw (lt_size_of_isLive hv.isLive) hsw (mem_drain_of_delivers hd ht) ho)
  refine ⟨hgone, fun t ht ho hh => ?_⟩
  obtain ⟨hstored, hnew, hdue⟩ := hw.kept.of_handle? hh
  exact ⟨hnew, (c₂.point hw₁).kept.accounted (hl.mem_stored ((c₁.later hw.sane).mem_stored hstored))
    (hgone t ht ho) fun h => hdue (report_mem_due h)⟩

/-- If the listener is inert, each handle whose ticket waited was reported. -/
theorem reported_of_inert (hr : run.Sound) (hw : w.Point D) (hv : w.Serves (name, s)) (hf : op.Fits w D)
    (hi : ¬ op.IsIdle s) (hd : w.delivers (w.channelOf s))
    (hl : (w.collection s).listener.IsInert run) (hx : (op.act run s).exec w = (.ok y, w'))
    (ht : t ∈ w.pending (w.channelOf s)) (ho : t.owner = s) (hh : (w.handle? t).isSome) :
    w'.books.reported.count t = 1 := by
  obtain ⟨n, w₁, L, hsw, c₁, c₂⟩ := exists_swept hr hw hv hf hi hx
  have hs := lt_size_of_isLive hv.isLive
  have hw₁ := c₁.point hw
  obtain ⟨hstored, hnew, hdue⟩ := hw.kept.of_handle? hh
  have hgone := gone_of_sweep_ok hr hw hs hsw (mem_drain_of_delivers hd ht) ho
  have hkept : w₁.books.removed = w.books.removed := by
    have := (drained_of_sweep hr hw hs hl).2
    rwa [hsw] at this
  have hstays : t ∉ w₁.books.removed := fun h => by
    rw [(hw.kept.of_removed (hkept ▸ h)).1] at hh
    cases hh
  have hcount := hw₁.kept.accounted ((c₁.later hw.sane).mem_stored hstored) hgone hdue
  rw [List.count_eq_zero.mpr hstays] at hcount
  exact (c₂.point hw₁).kept.count_reported
    ((c₂.later hw₁.sane).mem_reported (List.count_pos_iff.mp (by omega)))

/-- A sweep before an operation makes no difference if it leaves nothing to deliver. -/
theorem exec_swept (hr : run.Sound) (hv : w.Serves (name, s)) (hf : op.Fits w D) (hi : ¬ op.IsIdle s)
    (hd : ((sweep run s).exec w).2.Drained s) :
    (discard (sweep run s) >>= fun _ => op.act run s).exec w = (op.act run s).exec w := by
  have hu : (Scene.idle.use name s).Uses s := Scene.uses_use .idle name s
  obtain ⟨b, hb, -⟩ := op.sweepsFirst hr hu (lt_size_of_isLive hv.isLive) hf hi
  rw [hb]
  rcases hsw : (sweep run s).exec w with ⟨p | n, w₁⟩ <;> rw [hsw] at hd
  · have hx : (discard (sweep run s)).exec w = (.error p, w₁) := exec_discard_error hsw
    rw [exec_bind_error hx, exec_bind_error hx]
  · have hx : (discard (sweep run s)).exec w = (.ok (), w₁) := exec_discard_ok hsw
    have hx₁ : (discard (sweep run s)).exec w₁ = (.ok (), w₁) :=
      exec_discard_ok (exec_sweep_drained run hd)
    rw [exec_bind_ok hx, exec_bind_ok hx, exec_bind_ok hx₁]

end Operation

namespace Session

/-- At every point of every run an operation that is not idle honours what waits in the channel of its
set, if that delivers: when it has a result, no handle of a ticket that waited is left, and each that was
there was reported once, unless client code that ran meanwhile removed it; with an inert listener no code
does. If a sweep leaves nothing to deliver, and with an inert listener it does, then the operation after
it comes to the same as without it, be that a result or a panic, in the same world.

Idle operations come to a result and honour nothing. -/
theorem operations_honour_notices (depth : Nat) :
    (∀ cs, (carryOutAll depth .empty cs).Point 0) ∧
    let run := runner depth
    ∀ (w : World) D name s (α : Type) (op : Operation α), w.Point D → w.Serves (name, s) → op.Fits w D →
      (op.IsIdle s → ∃ x, (op.act run s).exec w = (.ok x, w)) ∧
      (¬ op.IsIdle s →
        (w.delivers (w.channelOf s) → ∀ x w', (op.act run s).exec w = (.ok x, w') →
          w.Honours s w' ∧
          ((w.collection s).listener.IsInert run → ∀ t ∈ w.pending (w.channelOf s), t.owner = s →
            (w.handle? t).isSome → w'.books.reported.count t = 1)) ∧
        (((sweep run s).exec w).2.Drained s →
          (discard (sweep run s) >>= fun _ => op.act run s).exec w = (op.act run s).exec w) ∧
        ((w.collection s).listener.IsInert run → ((sweep run s).exec w).2.Drained s)) := by
  have hr := sound_runner depth
  refine ⟨point_carryOutAll depth, fun w D name s α op hw hv hf =>
    ⟨fun hi => Operation.exec_of_isIdle _ hi w, fun hi => ⟨fun hd x w' hx => ⟨?_, ?_⟩, ?_, ?_⟩⟩⟩
  · exact Operation.honours hr hw hv hf hi hd hx
  · exact fun hl t ht ho hh => Operation.reported_of_inert hr hw hv hf hi hd hl hx ht ho hh
  · exact Operation.exec_swept hr hv hf hi
  · exact fun hl => (drained_of_sweep hr hw (lt_size_of_isLive hv.isLive) hl).1

/-- An element of a set ends. -/
def waitingRun : List Command :=
  [.build "s" (.ok ⟨{ capacity := 4, concurrency := 1 }, none, .constant 7, .scripted [] none false⟩),
    .new "x" (.number 1) none none, .add "s" "x", .drop ["x"]]

/-- Its ticket waits. Whether the set contains all of no elements is told without a look at it; who asks
for the length has it reported first. -/
theorem operations_honour_notices_waiting :
    let run := runner 1
    let w := carryOutAll 1 .empty waitingRun
    let t : Ticket := ⟨0, 0, 0, 1⟩
    w.pending (w.channelOf 0) = [t] ∧ (∃ b, (containsAll run 0 []).exec w = (.ok b, w)) ∧
      ∃ w', (length run 0).exec w = (.ok 0, w') ∧ w.Honours 0 w' ∧ w'.books.reported.count t = 1 ∧
        (discard (sweep run 0) >>= fun _ => length run 0).exec w = (length run 0).exec w := by
  intro run w t
  obtain ⟨hpoint, h⟩ := operations_honour_notices 1
  have hw : w.Point 0 := hpoint waitingRun
  have hv : w.Serves (some "s", 0) := ⟨by decide +kernel, by decide +kernel⟩
  have hl : (w.collection 0).listener.IsInert run :=
    Listener.IsPlain.isInert (by decide +kernel) run
  have hp : w.pending (w.channelOf 0) = [t] := by decide +kernel
  obtain ⟨hidle, -⟩ := h w 0 (some "s") 0 Bool (.containsAll []) hw hv trivial
  obtain ⟨-, hlength⟩ := h w 0 (some "s") 0 Nat .length hw hv trivial
  obtain ⟨hhonours, hswept, hdrained⟩ := hlength id
  have hx : (length run 0).exec w = (.ok 0, ((length run 0).exec w).2) :=
    Prod.ext (by decide +kernel) rfl
  obtain ⟨hon, hcount⟩ := hhonours (by decide +kernel) 0 _ hx
  exact ⟨hp, hidle rfl, _, hx, hon, hcount hl t (hp ▸ List.mem_singleton_self t) rfl (by decide +kernel),
    hswept (hdrained hl)⟩

end Session

end WeakSet
