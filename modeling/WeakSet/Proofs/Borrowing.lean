import WeakSet.Proofs.Act
import WeakSet.Proofs.World

/-!
# References that are not the last

Letting go of a reference while others remain runs nothing and only counts. So an act that borrows
the elements of owners gives back exactly what it took (`exec_borrowing`).
-/

namespace WeakSet

open Act

namespace World

/-- Only the number of references to elements may differ. -/
structure SameButCounts (w w' : World) : Prop where
  rest : w' = { w with cells := w'.cells }
  size : w'.cells.size = w.cells.size
  watchers : ∀ e, w'.watchers e = w.watchers e
  element : ∀ e, w'.element? e = w.element? e

namespace SameButCounts

variable {w w' w'' : World}

theorem refl (w : World) : w.SameButCounts w := ⟨rfl, rfl, fun _ => rfl, fun _ => rfl⟩

theorem trans (h : w.SameButCounts w') (h' : w'.SameButCounts w'') : w.SameButCounts w'' where
  rest := by rw [h'.rest, h.rest]
  size := h'.size.trans h.size
  watchers e := (h'.watchers e).trans (h.watchers e)
  element e := (h'.element e).trans (h.element e)

/-- If the counts are the same too nothing differs. -/
theorem eq (h : w.SameButCounts w') (hc : ∀ e, w'.strong e = w.strong e) : w' = w := by
  have hcells : w'.cells = w.cells := by
    refine Array.ext_getElem? fun e => ?_
    have hx := h.element e
    have hs := hc e
    have hw := h.watchers e
    simp only [element?, strong, World.watchers] at hx hs hw
    rcases he' : w'.cells[e]? with _ | ⟨x', n', ws'⟩ <;> rcases he : w.cells[e]? with _ | ⟨x, n, ws⟩
    · rfl
    · rw [he', he] at hx
      cases hx
    · rw [he', he] at hx
      cases hx
    · rw [he', he] at hx hs hw
      simp only [Option.map_some, Option.getD_some, Option.some.injEq] at hx hs hw
      rw [hx, hs, hw]
  rw [h.rest, hcells]

end SameButCounts

theorem sameButCounts_acquire (w : World) (e : ElementId) : w.SameButCounts (w.acquire e) :=
  ⟨rfl, size_cells_acquire w e, watchers_acquire w e, element?_acquire w e⟩

theorem foldl_acquire (es : List ElementId) {w : World} (h : ∀ e ∈ es, e < w.cells.size) :
    w.SameButCounts (es.foldl acquire w) ∧
      ∀ e, (es.foldl acquire w).strong e = w.strong e + es.count e := by
  induction es generalizing w with
  | nil => exact ⟨.refl w, fun e => rfl⟩
  | cons x es ih =>
    have hx := sameButCounts_acquire w x
    obtain ⟨hs, hc⟩ := ih (w := w.acquire x) fun e he => hx.size ▸ h e (by simp [he])
    refine ⟨hx.trans hs, fun e => ?_⟩
    rw [List.foldl_cons, hc, strong_acquire (h x (by simp)), List.count_cons]
    by_cases he : e = x
    · subst he; simp; omega
    · simp [he, Ne.symm he]

/-- A reference that is not the last. -/
theorem release_spare {w : World} {e : ElementId} (h : 1 < w.strong e) :
    (w.release e).1 = none ∧ w.SameButCounts (w.release e).2 ∧
      ∀ e', (w.release e).2.strong e' + (if e' = e then 1 else 0) = w.strong e' := by
  have hpos : 0 < w.strong e := by omega
  refine ⟨?_, ⟨?_, size_cells_release hpos, fun e' => ?_, fun e' => element?_release hpos e'⟩,
    fun e' => ?_⟩
  · unfold release
    rcases hc : w.cells[e]? with _ | c
    · rfl
    · have hs : w.strong e = c.strong := by simp [strong, hc]
      simp only
      rw [if_neg (by omega)]
  · rcases release_cases hpos with ⟨h1, -⟩ | ⟨-, c, -, he⟩
    · omega
    · rw [he]
  · rw [watchers_release hpos, if_neg fun h' => by omega]
  · rw [strong_release hpos]
    by_cases he : e' = e
    · subst he; simp; omega
    · simp [he]

end World

namespace Act

variable {run : Runner} {w : World}

/-- Letting go of references never panics. -/
theorem exec_release (run : Runner) (e : ElementId) (w : World) :
    ∃ w', (release run e).exec w = (.ok (), w') := by
  unfold release
  rw [exec_bind, exec_update]
  rcases (w.release e).1 with _ | script
  · exact ⟨_, rfl⟩
  · exact ⟨_, exec_discard (attempt (run .destructor script)) _⟩

theorem exec_releaseAll (run : Runner) (es : List ElementId) (w : World) :
    ∃ w', (releaseAll run es).exec w = (.ok (), w') := by
  induction es generalizing w with
  | nil => exact ⟨w, rfl⟩
  | cons e es ih =>
    obtain ⟨w', h⟩ := exec_release run e w
    rw [releaseAll, exec_bind_ok h]
    exact ih w'

/-- Letting go of what was held is no part of the result. -/
theorem exec_holding_fst {α : Type} (run : Runner) (es : List ElementId) (a : Act α) (w : World) :
    ((holding run es a).exec w).1 = (a.exec w).1 := by
  obtain ⟨w', h⟩ := exec_releaseAll run es (a.exec w).2
  rw [holding, exec_bind_ok (exec_attempt a w), exec_bind_ok h, exec_settle]

theorem exec_releaseAll_spare (run : Runner) {es : List ElementId} (h : ∀ e ∈ es, es.count e < w.strong e) :
    ∃ w', (releaseAll run es).exec w = (.ok (), w') ∧ w.SameButCounts w' ∧
      ∀ e, w'.strong e + es.count e = w.strong e := by
  induction es generalizing w with
  | nil => exact ⟨w, rfl, .refl w, fun e => rfl⟩
  | cons x es ih =>
    have hx : 1 < w.strong x := by
      have := h x (by simp)
      rw [List.count_cons_self] at this
      omega
    obtain ⟨hn, hs, hc⟩ := World.release_spare hx
    have hstep : (release run x).exec w = (.ok (), (w.release x).2) := by
      rw [release, exec_bind, exec_update, hn]
      rfl
    obtain ⟨w', he, hs', hc'⟩ := ih (w := (w.release x).2) fun e he => by
      have := h e (by simp [he])
      have := hc e
      rw [List.count_cons] at *
      by_cases hex : e = x
      · subst hex; simp at *; omega
      · simp [hex, Ne.symm hex] at *; omega
    refine ⟨w', by rw [releaseAll, exec_bind_ok hstep, he], hs.trans hs', fun e => ?_⟩
    rw [List.count_cons, ← hc e, ← hc' e]
    by_cases hex : e = x
    · subst hex; simp; omega
    · simp [hex, Ne.symm hex]

/-- An act on borrowed elements of owners, and what it gives back. The act leaves the elements
alive, which `h` says by way of the world after it. -/
theorem exec_borrowing {α : Type} (run : Runner) {es : List ElementId} {a : Act α}
    {r : Except Panic α} {w₁ : World}
    (ha : a.exec (es.foldl World.acquire w) = (r, w₁)) (h : ∀ e ∈ es, es.count e < w₁.strong e) :
    ∃ w', (borrowing run es a).exec w = (r, w') ∧ w₁.SameButCounts w' ∧
      ∀ e, w'.strong e + es.count e = w₁.strong e := by
  obtain ⟨w', he, hs, hc⟩ := exec_releaseAll_spare run h
  refine ⟨w', ?_, hs, hc⟩
  rw [borrowing, exec_bind_ok (exec_change _ w), holding, exec_bind_ok (exec_attempt a _), ha]
  rw [exec_bind_ok he, exec_settle]

end Act

end WeakSet
