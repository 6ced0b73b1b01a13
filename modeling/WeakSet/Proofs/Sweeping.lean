import WeakSet.Proofs.Leads

/-!
# Sweeping is a course of moves

`balanced_sweep`: a sweep deals with every ticket that it took out of the channel, and reports every
handle that it took out, however its listener behaves. Only a sweep that is refused entry to its set
loses what it had taken out of the channel.
-/

namespace WeakSet

open Act Duties

variable {L : Scene} {run : Runner} (hr : run.Sound) {w : World} {D E : Duties} {s : SetId}

/-- Tickets that a refused sweep loses. -/
theorem course_lose (h : .barred s ∈ w.journal.toList) (ts : List Ticket) :
    Course L (w, deals s ts + D) (w, D) := by
  induction ts with
  | nil => rw [deals_nil, Multiset.zero_add]
  | cons t ts ih =>
    by_cases ht : t.owner = s
    · rw [deals_cons_own ht, Multiset.cons_add]
      exact .head (.lose (by rwa [ht])) ih
    · rwa [deals_cons_foreign ht]

/-- What is left to do with a handle that a sweep took out. -/
def sweptDue (t : Ticket) : Option Handle → Duties
  | none => 0
  | some h => .report t ::ₘ .unwatch t h.element ::ₘ 0

/-- Take out the handle of the ticket at hand. -/
theorem leads_takeOut_swept {t : Ticket} (ts : List Ticket) :
    Leads L (takeOut t .swept) w (deals t.owner (t :: ts) + D)
      (fun h? => sweptDue t h? + (deals t.owner ts + D)) D := by
  refine leads_guarded (fun _ => course_lose (by simp [World.note]) _) fun hs => ?_
  refine .last (.update ?_ (.pure rfl))
  rw [deals_cons_own rfl, World.takeOut_fst, Multiset.cons_add, Multiset.cons_swap]
  rcases World.takeOut_cases (w.lock t.owner) t .swept with ⟨hh, e⟩ | ⟨h, hh, -⟩ <;> rw [hh]
  · rw [e]
    simpa [sweptDue] using Relation.ReflTransGen.single (.stale hh)
  · have hm : Course L _ _ := .single (.reap (D := .leave t.owner ::ₘ (deals t.owner ts + D)) hs hh)
    rw [Multiset.cons_swap (Duty.unwatch _ _), Multiset.cons_swap (Duty.report _)] at hm
    simpa [sweptDue] using hm

theorem leads_closeBooks (t : Ticket) (h : Handle) :
    Leads L (closeBooks t h) w (.unwatch t h.element ::ₘ D) (fun r => holds r.last.toList + D) E := by
  refine .look (.change (.single .unwatch) (.note rfl ?_))
  exact .bind (leads_reach h) fun _ _ _ _ => .pure rfl

theorem yields_closeBooks (t : Ticket) (h : Handle) :
    Yields (closeBooks t h) fun r => r.ticket = t ∧ (r.last.isSome → h.kind = .weak) := by
  refine .seq fun _ => .seq fun _ => .seq fun _ => .bind (yields_reach h) fun e? he => ?_
  refine .pure ⟨rfl, fun hs => ?_⟩
  obtain ⟨e, rfl⟩ := Option.isSome_iff_exists.mp hs
  exact (he e rfl).2

/-- A handle that was taken out was one of its set. -/
theorem fits_of_takeOut {t : Ticket} {d : Departure} {h : Handle} {w' : World}
    (hw : w.Point D) (hx : (takeOut t d).exec w = (.ok (some h), w')) :
    t.owner < w.sets.size ∧ w.Fits t h := by
  obtain ⟨-, w₁, h₁, -⟩ := exec_guarded_eq_ok.mp hx
  have hh : w.handle? t = some h := by
    rw [exec_update, World.takeOut_fst] at h₁
    exact Except.ok.inj (Prod.mk.injEq .. ▸ h₁).1
  exact ⟨(World.hasShard_of_handle? hh).1, hw.formed.fits t h hh⟩

/-- The books on a handle say no more than a listener may be told, also later. -/
theorem World.Fits.mayTell {t : Ticket} {h : Handle} {r : Record} {u u' w' : World}
    (hf : w.Fits t h) (hs : t.owner < w.sets.size) (hl : World.Later w w')
    (hx : (closeBooks t h).exec u = (.ok r, u')) : w'.MayTell r := by
  obtain ⟨ht, hlast⟩ := yields_closeBooks t h _ _ _ hx
  intro hsome
  rw [ht, hl.settings hs, ← hf.kind]
  exact hlast hsome

/-- The listener is called in one go. -/
theorem exec_report (run : Runner) (r : Record) (w : World) :
    (report run r.ticket.owner r).exec w =
      (listen run r.ticket.owner (w.collection r.ticket.owner).calls).exec (w.call r) := rfl

/-- A set has no handle under a ticket of another set, or of a shard that does not exist. -/
theorem World.handle?_of_isForeign {t : Ticket} (h : w.isForeign s t) (ht : t.owner = s) :
    w.handle? t = none := by
  cases hh : w.handle? t with
  | none => rfl
  | some h' =>
    have hk := (World.hasShard_of_handle? hh).2
    simp only [World.isForeign, ht, ne_eq, not_true_eq_false, decide_false, Bool.false_or,
      decide_eq_true_eq] at h
    rw [ht] at hk
    omega

/-- A ticket of another set, or of a shard that does not exist, leaves nothing to do. -/
theorem course_foreign {t : Ticket} (h : w.isForeign s t) (ts : List Ticket) :
    Course L (w, deals s (t :: ts) + D) (w, deals s ts + D) := by
  by_cases ht : t.owner = s
  · rw [deals_cons_own ht, Multiset.cons_add]
    exact .single (.stale (World.handle?_of_isForeign h ht))
  · rw [deals_cons_foreign ht]

theorem owner_of_not_isForeign {t : Ticket} (h : ¬ w.isForeign s t) : t.owner = s := by
  simp only [World.isForeign, Bool.or_eq_true, decide_eq_true_eq, not_or, not_not] at h
  exact h.1

/-- What a batch has done is said, and its panic comes out. -/
theorem balanced_closeBatch (b : Batch) : Balanced L (closeBatch b) w D := by
  unfold closeBatch
  by_cases hb : 0 < b.reclaimed <;> simp only [hb, ite_true, ite_false]
  on_goal 1 => refine .note rfl ?_
  all_goals
    split
    · exact .pure rfl
    · exact .throw rfl

include hr

/-- A listener call: what is left of the record in hand is let go of. -/
theorem balanced_listen (n : Nat) : Balanced L (listen run s n) w D := by
  refine .attempt (K := fun _ => D) (E := D) (.look ?_) fun r w' _ _ => ?_
  · split
    · exact .pure rfl
    · exact hr _ _ _ _ _
  rw [due_same]
  have hc : Course L (w', D)
      ({ w' with hands := w'.hands.tail }, holds (w'.hands.head?.join.bind Record.last).toList + D) := by
    rcases h : w'.hands with _ | ⟨x, hands⟩
    · have e : { w' with hands := [] } = w' := by rw [← h]
      simp only [List.tail_nil, e]
      simpa using Relation.ReflTransGen.refl
    · exact .single (.putDown h)
  refine .update hc ?_
  split
  · rename_i h
    rw [h, holds_toList_none]
    exact .settle (due_same D r).symm
  · rename_i e h
    rw [h, holds_toList_some]
    exact .bind (leads_release hr e) fun _ _ _ _ => .settle (due_same D r).symm

theorem leads_report {r : Record} (h : w.MayTell r) :
    Leads L (report run r.ticket.owner r) w (.report r.ticket ::ₘ (holds r.last.toList + D))
      (fun _ => D) D :=
  .of_exec (exec_report run r w) (.single (.call r h)) (balanced_listen hr _)

/-- One ticket of a batch is dealt with. A refused entry loses it and the rest of the batch. -/
theorem leads_sweepOne (b : Batch) (t : Ticket) (ts : List Ticket) :
    Leads L (sweepOne run s b t) w (deals s (t :: ts) + D) (fun _ => deals s ts + D) D := by
  refine .intro fun hw _ => .look ?_
  split
  · rename_i h
    exact .course (course_foreign h ts) (.note rfl (.pure rfl))
  · rename_i h
    obtain rfl := owner_of_not_isForeign h
    refine .bind (leads_takeOut_swept ts) fun h? w₁ hx h₁ => ?_
    cases h? with
    | none => exact .pure (by simp [sweptDue])
    | some h =>
      simp only [sweptDue, Multiset.cons_add, Multiset.zero_add]
      rw [Multiset.cons_swap]
      refine .bind (leads_closeBooks t h) fun r w₂ hb h₂ => ?_
      obtain ⟨hs, hf⟩ := fits_of_takeOut hw hx
      have htell : w₂.MayTell r := hf.mayTell hs (h₁.trans h₂) hb
      obtain rfl : r.ticket = t := (yields_closeBooks t h _ _ _ hb).1
      rw [Multiset.add_cons]
      refine .attempt (leads_report hr htell) fun outcome w₃ _ _ => ?_
      rw [due_same]
      cases outcome with
      | ok _ => exact .look (.pure rfl)
      | error p => exact .note rfl (.look (.pure rfl))

/-- A batch is dealt with to its end. -/
theorem leads_batch (ts : List Ticket) (b : Batch) :
    Leads L (do closeBatch (← ts.foldlM (sweepOne run s) b)) w (deals s ts + D) (fun _ => D) D := by
  have h : ∀ (b : Batch) (w : World),
      Leads L (ts.foldlM (sweepOne run s) b) w (deals s ts + D) (fun _ => D) D := by
    induction ts with
    | nil => intro b w; exact .pure (by simp)
    | cons t ts ih =>
      intro b w
      rw [List.foldlM_cons]
      exact .bind (leads_sweepOne hr b t ts) fun b' w' _ _ => ih b' w'
  exact .bind (h b w) fun _ _ _ _ => balanced_closeBatch _

/-- A sweep deals with all that it took out of the channel. -/
theorem balanced_sweep (hs : s < w.sets.size) : Balanced L (sweep run s) w D :=
  .update (.single (.takeNotices hs)) (leads_batch hr _ _)

end WeakSet
