import WeakSet.Proofs.Books

/-!
# The life of a handle

* `stored_of_reply`: the ticket that an insertion replies with was never stored before, and its handle
  is stored now;
* `departs_once_and_is_reported_if_swept`: after every run each handle that was ever stored is there
  or has departed, once, and was reported exactly if a sweep took it out.
-/

namespace WeakSet

open Act Duties

variable {run : Runner} (hr : run.Sound) {w w' : World} {D : Duties} {s : SetId} {e : ElementId}
  {t : Ticket}

include hr

namespace Session

/-- The ticket that the command `insert` replies with, in a script or not, is a new one of the set
that was named. -/
theorem stored_of_reply {inScript : Bool} {name owner : String} {saveAs : Option String}
    (hw : w.Point D)
    (h : (perform run inScript (.insert name owner saveAs)).exec w = (.ok (.ticket t), w')) :
    w.setNames.find? name = some t.owner ∧ t ∉ w.books.stored ∧ t ∈ w'.books.stored := by
  obtain ⟨_, _, h₀, h⟩ := exec_bind_eq_ok.mp h
  obtain ⟨rfl, rfl⟩ := exec_pure_eq_ok.mp h₀
  rcases hn : w.setNames.find? name with _ | s <;> simp only [hn] at h
  · cases (exec_pure_eq_ok.mp h).1
  obtain ⟨_, _, h₀, h⟩ := exec_bind_eq_ok.mp h
  obtain ⟨rfl, rfl⟩ := exec_pure_eq_ok.mp h₀
  rcases ho : w.owners.find? owner with _ | e <;> simp only [ho] at h
  · cases (exec_pure_eq_ok.mp h).1
  have hon : (Scene.idle.use (some name) s).On w :=
    (Scene.On.idle w).use ⟨hw.housed.live _ (Table.mem_of_find? hn), hn⟩
  have hu := Scene.idle.uses_use (some name) s
  have ha : ∀ e' ∈ [e], w.isAlive e' := by
    intro e' he'
    obtain rfl := List.mem_singleton.mp he'
    exact hw.counted.isAlive_of_owner ho
  have c₁ : Course (Scene.idle.use (some name) s) (w, D)
      ([e].foldl World.acquire w, holds [e] + D) := course_acquire hw.sane ha
  obtain ⟨_, w₁, h₁, h⟩ := exec_bind_eq_ok.mp h
  obtain ⟨-, rfl⟩ := Prod.mk.injEq .. ▸ h₁
  obtain ⟨r, w₂, h₂, h⟩ := exec_bind_eq_ok.mp h
  obtain ⟨_, w₃, h₃, h⟩ := exec_bind_eq_ok.mp h
  rw [exec_settle] at h
  obtain ⟨rfl, rfl⟩ := Prod.mk.injEq .. ▸ h
  rw [exec_attempt_eq_ok] at h₂
  have hw₁ := c₁.point hw
  obtain ⟨t?, w₄, h₄, h₂⟩ := exec_bind_eq_ok.mp h₂
  have c₄ := (balanced_insert hr hu (by simp)).ok h₄ hw₁ (c₁.on hon)
  have hw₄ := c₄.point hw₁
  rcases t? with _ | t'
  · cases (exec_pure_eq_ok.mp h₂).1
  obtain ⟨hs, hnew, hm⟩ := stored_of_insert hr hw₁ (c₁.on hon) hu (by simp) h₄
  have c₂ := (balanced_replyTicket (L := .idle) saveAs (hw₄.recorded.issued _ _ hm).1).ok h₂ hw₄
    (.idle _)
  have c₃ := (leads_releaseAll hr (L := .idle) (E := 0) [e]).ok h₃ (c₂.point hw₄) (.idle _)
  obtain ⟨_, w₅, -, h₂⟩ := exec_bind_eq_ok.mp h₂
  obtain ⟨⟨⟩, rfl⟩ := exec_pure_eq_ok.mp h₂
  subst hs
  refine ⟨rfl, fun hold => hnew ?_, World.mem_stored.mpr ⟨e, ?_⟩⟩
  · obtain ⟨e', he'⟩ := World.mem_stored.mp hold
    exact (c₁.later hw.sane).issued _ (hw.recorded.issued _ _ he').1
  · exact (c₃.later (c₂.point hw₄).sane).mem_journal ((c₂.later hw₄.sane).mem_journal hm)

omit hr

/-- The life of a handle. After whatever commands a client has carried out, with whatever scripts,
each ticket was stored at most once; its handle is there or has departed, and then once; and it was
reported as often as a sweep took it out, and so never if it was removed. Each set has stored as
many handles as it has, plus those that were removed and those that were reported. What an insertion
replies with is a ticket that was never stored before and is stored now. -/
theorem departs_once_and_is_reported_if_swept (depth : Nat) (cs : List Command) :
    let w := carryOutAll depth .empty cs
    (∀ t, w.books.stored.count t ≤ 1 ∧
      w.books.stored.count t = (if (w.handle? t).isSome then 1 else 0) +
        w.books.removed.count t + w.books.swept.count t ∧
      w.books.reported.count t = w.books.swept.count t ∧
      (t ∈ w.books.removed → t ∉ w.books.reported)) ∧
    (∀ s, w.books.stored.countP (·.owner = s) =
      w.size s + w.books.removed.countP (·.owner = s) + w.books.reported.countP (·.owner = s)) ∧
    ∀ name owner saveAs t w',
      carryOutWithin depth w (.insert name owner saveAs) = (.ticket t, w') →
        w.setNames.find? name = some t.owner ∧ w.books.stored.count t = 0 ∧
          w'.books.stored.count t = 1 := by
  intro w
  have hw : w.Point 0 := point_carryOutAll depth cs
  have hk : w.Kept 0 := hw.kept
  refine ⟨fun t => ⟨hk.once t, hk.there t, (hk.swept t).symm, fun hr => (hk.of_removed hr).2⟩,
    fun s => ?_, fun name owner saveAs t w' h => ?_⟩
  · have hperm : w.books.swept.Perm w.books.reported := List.perm_iff_count.mpr hk.swept
    rw [hk.sets s, hperm.countP_eq]
  · have hc' := course_carryOutWithin depth hw (.insert name owner saveAs)
    rw [h] at hc'
    obtain ⟨hn, hnew, hm⟩ := stored_of_reply (sound_runner depth) hw (exec_of_reply h (by simp))
    refine ⟨hn, List.count_eq_zero.mpr hnew, ?_⟩
    exact Nat.le_antisymm ((hc'.kept hw.sane hk).once t) (List.count_pos_iff.mpr hm)

/-- After a sweep the handle of an element that ended was stored, swept and reported once, and the
next one gets a ticket of its own. -/
theorem departs_once_and_is_reported_brief :
    let w := carryOutAll 0 .empty (briefRun ++ [.sweep "s", .new "y" (.number 1) none none])
    w.books.reported.count ⟨0, 0, 0, 1⟩ = w.books.swept.count ⟨0, 0, 0, 1⟩ ∧
      (carryOutWithin 0 w (.insert "s" "y" none)).2.books.stored.count ⟨0, 0, 0, 3⟩ = 1 := by
  intro w
  have h := departs_once_and_is_reported_if_swept 0
    (briefRun ++ [.sweep "s", .new "y" (.number 1) none none])
  exact ⟨(h.1 _).2.2.1, (h.2.2 "s" "y" none _ _ (Prod.ext (by decide +kernel) rfl)).2.2⟩

end Session

end WeakSet
