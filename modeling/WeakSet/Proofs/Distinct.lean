import WeakSet.Proofs.Books

/-!
# At most one living element of each value

Two handles of a set never lead to living elements of the same value (`Course.distinct`): an element
is stored only where there is none of its value, and no element comes back to life. And a ticket
that was given out never gets another handle (`Course.handle?_old`).
-/

namespace WeakSet

open Act Duties

namespace World

/-- No two handles of a set lead to living elements of the same value. -/
def Distinct (w : World) : Prop :=
  ∀ t t' h h', t.owner = t'.owner → w.handle? t = some h → w.handle? t' = some h' →
    h.kind = .weak → h'.kind = .weak → w.isAlive h.element → w.isAlive h'.element →
    w.value h.element = w.value h'.element → t = t'

theorem distinct_empty : World.empty.Distinct := by
  intro t t' h h' _ hh
  rw [handle?_empty] at hh
  cases hh

/-- Handles may go, and elements may end. -/
theorem Distinct.of_handles {w w' : World} {D : Duties} (hd : w.Distinct) (hw : w.Sane D) (hl : Later w w')
    (hh : ∀ t h, w'.handle? t = some h → w.handle? t = some h) : w'.Distinct := by
  intro t t' h h' ho h₁ h₂ hk hk' ha ha' hv
  have hz := (hw.formed.fits _ _ (hh _ _ h₁)).element
  have hz' := (hw.formed.fits _ _ (hh _ _ h₂)).element
  rw [hl.value hz, hl.value hz'] at hv
  have alive : ∀ e < w.cells.size, w'.isAlive e → w.isAlive e := fun e he h =>
    Decidable.byContradiction fun hn => hl.dead_of_not_isAlive he hn h
  exact hd t t' h h' ho (hh _ _ h₁) (hh _ _ h₂) hk hk' (alive _ hz ha) (alive _ hz' ha') hv

end World

variable {L : Scene} {w w' : World} {D D' : Duties}

/-- Every move keeps living elements of a set distinct: none is stored beside its like. -/
theorem Move.distinct (hw : w.Sane D) (hm : Move L (w, D) (w', D')) (hd : w.Distinct) :
    w'.Distinct := by
  have hl := hm.later hw.formed hw.counted
  rcases hm.booking hw with ⟨hh, -, -, -⟩ | ⟨t₀, h₀, hn, -, ⟨s, k, ha, -, rfl, rfl⟩, hh, -, -, -⟩ |
    ⟨ts, -, -, hh, -, -, -⟩ | ⟨t₀, -, hh, -, -, -⟩ | ⟨t₀, hh, -, -, -⟩
  · exact hd.of_handles hw hl fun t h => (hh t ▸ ·)
  · intro t t' h h' ho h₁ h₂ hk hk' ha₁ ha₂ hv
    have hnew : ∀ t h, w.handle? t = some h → t.owner = s → h₀.kind = .weak → w.isAlive h.element →
        w.value h.element ≠ w.value h₀.element := fun t h hh ho hk hal =>
      ha.new hk t h hh ho hal
    simp only [World.isAlive, World.strong_store] at ha₁ ha₂
    have hval : ∀ e, (w.store s k h₀).2.value e = w.value e := fun e =>
      World.value_congr (World.element?_store h₀ e)
    rw [hval, hval] at hv
    rw [hh] at h₁ h₂
    by_cases e₁ : t = w.nextTicket s k h₀ <;> by_cases e₂ : t' = w.nextTicket s k h₀
    · rw [e₁, e₂]
    · rw [if_pos e₁] at h₁
      rw [if_neg e₂] at h₂
      obtain rfl := Option.some.inj h₁
      exact absurd hv.symm (hnew t' h' h₂ (by rw [← ho, e₁]; rfl) hk ha₂)
    · rw [if_neg e₁] at h₁
      rw [if_pos e₂] at h₂
      obtain rfl := Option.some.inj h₂
      exact absurd hv (hnew t h h₁ (by rw [ho, e₂]; rfl) hk' ha₁)
    · rw [if_neg e₁] at h₁
      rw [if_neg e₂] at h₂
      exact hd t t' h h' ho h₁ h₂ hk hk' ha₁ ha₂ hv
  · refine hd.of_handles hw hl fun t h h₁ => ?_
    rw [hh] at h₁
    split at h₁
    · cases h₁
    · exact h₁
  · refine hd.of_handles hw hl fun t h h₁ => ?_
    rw [hh] at h₁
    split at h₁
    · cases h₁
    · exact h₁
  · exact hd.of_handles hw hl fun t h => (hh t ▸ ·)

/-- A handle that is there was there before if its ticket was given out before. -/
theorem Move.handle?_old (hw : w.Sane D) (hm : Move L (w, D) (w', D')) {t : Ticket} {h : Handle}
    (hi : w.Issued t) (hh : w'.handle? t = some h) : w.handle? t = some h := by
  rcases hm.booking hw with ⟨he, -, -, -⟩ | ⟨t₀, h₀, hn, -, ⟨s, k, ha, -, rfl, rfl⟩, he, -, -, -⟩ |
    ⟨ts, -, -, he, -, -, -⟩ | ⟨t₀, -, he, -, -, -⟩ | ⟨t₀, he, -, -, -⟩ <;> rw [he] at hh
  · exact hh
  · rw [if_neg fun e => World.not_issued_nextTicket h₀ (e ▸ hi)] at hh
    exact hh
  · split at hh
    · cases hh
    · exact hh
  · split at hh
    · cases hh
    · exact hh
  · exact hh

theorem Course.distinct (h : Course L (w, D) (w', D')) (hw : w.Sane D) (hd : w.Distinct) :
    w'.Distinct :=
  (h.keeps (I := fun q => q.1.Sane q.2 ∧ q.1.Distinct)
    (fun _ _ hm hI => ⟨hm.sane hI.1, hm.distinct hI.1 hI.2⟩) ⟨hw, hd⟩).2

theorem World.Point.distinct {w : World} {D : Duties} (h : w.Point D) : w.Distinct :=
  Course.distinct h World.sane_empty World.distinct_empty

theorem Course.handle?_old (h : Course L (w, D) (w', D')) (hw : w.Sane D) {t : Ticket} {x : Handle}
    (hi : w.Issued t) (hx : w'.handle? t = some x) : w.handle? t = some x := by
  have := (h.keeps (I := fun q => q.1.Sane q.2 ∧ q.1.Issued t ∧
      (q.1.handle? t = some x → w.handle? t = some x)) (fun p q hm hI =>
    ⟨hm.sane hI.1, (hm.later hI.1.formed hI.1.counted).issued t hI.2.1,
      fun hq => hI.2.2 (hm.handle?_old hI.1 hI.2.1 hq)⟩) ⟨hw, hi, id⟩).2.2
  exact this hx

/-! ## Tickets that lead nowhere -/

variable {t : Ticket}

/-- A ticket was given out, and leads to no living element: its handle is gone, or its element. -/
structure World.Spent (w : World) (t : Ticket) : Prop where
  issued : w.Issued t
  ended : ∀ h, w.handle? t = some h → ¬ w.isAlive h.element

/-- What is spent stays so. -/
theorem Course.spent (h : Course L (w, D) (w', D')) (hw : w.Sane D) (ht : w.Spent t) :
    w'.Spent t where
  issued := (h.later hw).issued t ht.issued
  ended x hx := by
    have hx' := h.handle?_old hw ht.issued hx
    exact (h.later hw).dead_of_not_isAlive (hw.formed.fits t x hx').element (ht.ended x hx')

/-- The handle of a ticket is there, and its element is alive. -/
structure World.Offers (w : World) (t : Ticket) (e : ElementId) : Prop where
  stored : ∃ h, w.handle? t = some h ∧ h.element = e
  alive : w.isAlive e

/-- What is offered was offered before, if the ticket was given out before. -/
theorem Course.offers {e : ElementId} (h : Course L (w, D) (w', D')) (hw : w.Sane D)
    (hi : w.Issued t) (ho : w'.Offers t e) : w.Offers t e := by
  obtain ⟨⟨x, hx, rfl⟩, ha⟩ := ho
  have hx' := h.handle?_old hw hi hx
  refine ⟨⟨x, hx', rfl⟩, Decidable.byContradiction fun hn => ?_⟩
  exact (h.later hw).dead_of_not_isAlive (hw.formed.fits t x hx').element hn ha

theorem World.Spent.not_offers {e : ElementId} (h : w.Spent t) : ¬ w.Offers t e := by
  rintro ⟨⟨x, hx, rfl⟩, ha⟩
  exact h.ended x hx ha

end WeakSet
