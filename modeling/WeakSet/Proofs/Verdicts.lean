import WeakSet.Proofs.Policies

/-!
# What sweeps come to

A sweep goes through its whole batch, whatever its listener does, and the policy of its set decides what
the panics of the listener come to (`Session.sweep_goes_through`). Where it comes to a panic, an operation
that begins with it comes to the same and does nothing else (`Stops`).
-/

namespace WeakSet

open Act

/-- What begins with a sweep of a set comes to nothing but a panic: the world after it is `w'`, whatever
the operation and its arguments. -/
structure Stops (run : Runner) (s : SetId) (w : World) (p : Panic) (w' : World) : Prop where
  insert : ∀ e, (insert run s e).exec w = (.error p, w')
  add : ∀ e, (add run s e).exec w = (.error p, w')
  addAll : ∀ e es, (addAll run s (e :: es)).exec w = (.error p, w')
  ticketOf : ∀ q, (ticketOf run s q).exec w = (.error p, w')
  contains : ∀ q, (contains run s q).exec w = (.error p, w')
  containsAll : ∀ q qs, (containsAll run s (q :: qs)).exec w = (.error p, w')
  remove : ∀ q, (remove run s q).exec w = (.error p, w')
  removeAll : ∀ q qs, (removeAll run s (q :: qs)).exec w = (.error p, w')
  retain : ∀ keep, (retain run s keep).exec w = (.error p, w')
  retainAll : ∀ qs, (retainAll run s qs).exec w = (.error p, w')
  length : (length run s).exec w = (.error p, w')
  start : (Cursor.start run s).exec w = (.error p, w')
  toList : (toList run s).exec w = (.error p, w')
  hashOf : (hashOf run s).exec w = (.error p, w')
  sameSets : ∀ s', s ≠ s' → (sameSets run s s').exec w = (.error p, w')
  addTogether : ∀ v n, (addTogether run s v n).exec w = (.error p, w')

section Stops

variable {α β γ : Type} {a : Act α} {f : α → Act β} {w w' : World} {p : Panic} {run : Runner} {s : SetId}

theorem exec_anyOf_cons_error {g : γ → Act Bool} {x : γ} (h : (g x).exec w = (.error p, w')) (xs : List γ) :
    (anyOf g (x :: xs)).exec w = (.error p, w') := by
  rw [anyOf, List.foldlM_cons]
  exact exec_bind_error (exec_bind_error h _) _

/-- An operation whose sweep panics does nothing else. -/
theorem stops_of_sweep (h : (sweep run s).exec w = (.error p, w')) : Stops run s w p w' := by
  have hd : (discard (sweep run s)).exec w = (.error p, w') := exec_discard_error h
  have hinsert (e : ElementId) : (insert run s e).exec w = (.error p, w') := exec_bind_error hd _
  have hadd (e : ElementId) : (add run s e).exec w = (.error p, w') := by
    rw [add, exec_map, hinsert]
    rfl
  have hticket (q : Query) : (ticketOf run s q).exec w = (.error p, w') := exec_bind_error hd _
  have hcontains (q : Query) : (contains run s q).exec w = (.error p, w') := by
    rw [contains, exec_map, hticket]
    rfl
  have hremove (q : Query) : (remove run s q).exec w = (.error p, w') := exec_bind_error hd _
  have hlength : (length run s).exec w = (.error p, w') := exec_bind_error hd _
  have hstart : (Cursor.start run s).exec w = (.error p, w') := exec_bind_error hd _
  refine ⟨hinsert, hadd, fun e es => exec_anyOf_cons_error (hadd e) es, hticket, hcontains,
    fun q qs => exec_bind_error (hcontains q) _, hremove,
    fun q qs => exec_anyOf_cons_error (hremove q) qs, fun keep => exec_bind_error hd _, fun qs => ?_,
    hlength, hstart, exec_bind_error hstart _, exec_bind_error hd _, fun s' hne => ?_,
    fun v n => exec_bind_error hd _⟩
  · unfold retainAll
    split <;> exact exec_bind_error hd _
  · rw [sameSets, if_neg hne]
    exact exec_bind_error hlength _

end Stops

/-! ## Every point of every run -/

/-- What was added to the journal on the way is all that there is to see of scripts. -/
theorem World.untouched_of_drop {w w' : World}
    (h : ∀ x ∈ w'.journal.toList.drop w.journal.size, x.touches = false) : w.Untouched w' := by
  intro l hl x hx
  rw [hl, ← Array.length_toList, List.drop_left] at h
  exact h x hx

namespace Session

/-- At every point of every run, whatever the channel delivers and the listener does, a sweep of a set
that is not entered goes through its whole batch, and its result is what the policy of the set makes of
the listener calls. If no script runs a command on sets meanwhile, the world after it would be the same
under another policy. A panic of it is all that an operation comes to that begins with it. -/
theorem sweep_goes_through (depth : Nat) :
    (∀ cs, (carryOutAll depth .empty cs).Point 0) ∧
    let run := runner depth
    ∀ (w : World) D s, w.Point D → s < w.sets.size → s ∉ w.entered →
      (∃ rs w', Visits run s (w.takeNotices s).2 (w.takeNotices s).1 rs w' ∧
        (sweep run s).exec w =
          ((w.collection s).settings.policy.verdict (rs.map Prod.snd), w'.summed rs.length) ∧
        (∀ t ∈ (w.takeNotices s).1, t.owner = s → w'.handle? t = none) ∧
        ∀ r ∈ rs, w'.books.reported.count r.1.ticket = 1) ∧
      (∀ policy, w.Untouched ((sweep run s).exec w).2 →
        ((sweep run s).exec (w.withPolicy s policy)).2 =
          ((sweep run s).exec w).2.withPolicy s policy) ∧
      ∀ p w', (sweep run s).exec w = (.error p, w') → Stops run s w p w' := by
  refine ⟨point_carryOutAll depth, fun w D s hw hs hn => ⟨?_, fun policy hu => ?_,
    fun p w' => stops_of_sweep⟩⟩
  · obtain ⟨rs, w', hv, hx, -, hgone, hcount⟩ := exec_sweep_visits (sound_runner depth) hw hs hn
    exact ⟨rs, w', hv, hx, hgone, hcount⟩
  · exact world_sweep_withPolicy (blind_runner depth) s hu

/-- A set with the policy `escalate` is told of its first element twice. Its listener panics each time it is
called. -/
def escalatingRun : List Command :=
  [.new "x" (.number 1) none none, .new "y" (.number 2) none none, .newChannel "c" (.ok .queue),
    .build "s" (.ok ⟨{ capacity := 4, concurrency := 1, policy := .escalate }, some "c", .constant 7,
      .scripted [[.panic none (.text "first")]] (some [.panic none .other]) false⟩),
    .insert "s" "x" (some "a"), .insert "s" "y" none, .enqueue "c" ["a"], .drop ["x", "y"]]

/-- Both elements are reported, the first once, and the first panic comes out, also of an insertion. Under
the other policy it would not. -/
theorem sweep_goes_through_escalating :
    let w := carryOutAll 1 .empty escalatingRun
    let w' := ((sweep (runner 1) 0).exec w).2
    (w.takeNotices 0).1 = [⟨0, 0, 0, 1⟩, ⟨0, 0, 0, 1⟩, ⟨0, 0, 1, 1⟩] ∧
      w'.books.reported.count ⟨0, 0, 0, 1⟩ = 1 ∧ w'.books.reported.count ⟨0, 0, 1, 1⟩ = 1 ∧
      Stops (runner 1) 0 w (.text "first") w' ∧
      (sweep (runner 1) 0).exec (w.withPolicy 0 .log) = (.ok 2, w'.withPolicy 0 .log) := by
  intro w w'
  obtain ⟨hpoint, h⟩ := sweep_goes_through 1
  obtain ⟨-, hpolicy, hstops⟩ :=
    h w 0 0 (hpoint escalatingRun) (by decide +kernel) (by decide +kernel)
  have hu : w.Untouched w' := World.untouched_of_drop (by decide +kernel)
  refine ⟨by decide +kernel, by decide +kernel, by decide +kernel, ?_, ?_⟩
  · exact hstops _ _ (Prod.ext (by decide +kernel) rfl)
  · exact Prod.ext (by decide +kernel) (hpolicy .log hu)

end Session

end WeakSet
