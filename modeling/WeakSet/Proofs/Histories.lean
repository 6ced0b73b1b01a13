import WeakSet.Proofs.Stages

/-!
# What threads were told

Every chore of a thread that asks something of a set is answered once, by the ticket that came in or
went out. The answers in the order in which they were decided are the history of the set: together
with its dictionary at the start and with which elements are still alive they say what the
dictionary is (`History.entries`), whichever thread did what.
-/

namespace WeakSet

open Act Duties World

/-- What a thread asked of a set, and the ticket that came in or went out. -/
structure Answer where
  thread : Nat
  chore : Chore
  ticket? : Option Ticket
  deriving DecidableEq

namespace Answer

/-- Whether an element of value `v` came in. -/
def adds (w : World) (v : Value) (a : Answer) : Bool :=
  match a.chore with
  | .add _ e => w.value e = v && a.ticket?.isSome
  | _ => false

/-- Whether the entry of value `v` went out. -/
def takes (w : World) (v : Value) (a : Answer) : Bool :=
  match a.chore with
  | .remove _ q => q.target w = v && a.ticket?.isSome
  | _ => false

end Answer

/-- The answers that a thread was given. -/
def answersTo (i : Nat) (l : List Answer) : List Answer :=
  l.filter fun a => a.thread = i

/-- An element came into a set under a ticket. -/
def Added (l : List Answer) (s : SetId) (e : ElementId) (t : Ticket) : Prop :=
  ∃ i, ⟨i, .add s e, some t⟩ ∈ l

/-- The handle of a ticket was removed from a set. -/
def Removed (l : List Answer) (s : SetId) (t : Ticket) : Prop :=
  ∃ i q, ⟨i, .remove s q, some t⟩ ∈ l

/-- What there ever was under a value. -/
def Came (w₀ : World) (l : List Answer) (s : SetId) (v : Value) (e : ElementId) (t : Ticket) : Prop :=
  w₀.dict s v = some (e, t) ∨ w₀.value e = v ∧ Added l s e t

section

variable {l : List Answer} {a : Answer} {s : SetId} {e : ElementId} {t : Ticket} {w₀ : World}
  {v : Value}

theorem answersTo_snoc (i : Nat) (l : List Answer) (a : Answer) :
    answersTo i (l ++ [a]) = answersTo i l ++ if a.thread = i then [a] else [] := by
  rw [answersTo, List.filter_append, List.filter_singleton]
  simp [answersTo]

theorem added_snoc : Added (l ++ [a]) s e t ↔
    Added l s e t ∨ a.chore = .add s e ∧ a.ticket? = some t := by
  simp only [Added, List.mem_append, List.mem_singleton, exists_or]
  refine or_congr Iff.rfl ⟨?_, ?_⟩
  · rintro ⟨i, rfl⟩
    exact ⟨rfl, rfl⟩
  · rintro ⟨hc, ht⟩
    exact ⟨a.thread, by rw [← hc, ← ht]⟩

theorem removed_snoc : Removed (l ++ [a]) s t ↔
    Removed l s t ∨ (∃ q, a.chore = .remove s q) ∧ a.ticket? = some t := by
  simp only [Removed, List.mem_append, List.mem_singleton, exists_or]
  refine or_congr Iff.rfl ⟨?_, ?_⟩
  · rintro ⟨i, q, rfl⟩
    exact ⟨⟨q, rfl⟩, rfl⟩
  · rintro ⟨⟨q, hc⟩, ht⟩
    exact ⟨a.thread, q, by rw [← hc, ← ht]⟩

end

/-- The world after threads were given answers, and before more of them are. -/
structure History (s : SetId) (w₀ : World) (l : List Answer) (w : World) : Prop where
  element : ∀ e, w.element? e = w₀.element? e
  ends : ∀ e, w.isAlive e → w₀.isAlive e
  /-- The dictionary has what came, was not removed and is alive. -/
  entries : ∀ v e t, w.dict s v = some (e, t) ↔ Came w₀ l s v e t ∧ ¬ Removed l s t ∧ w.isAlive e
  added : ∀ e t, Added l s e t → .stored t e ∈ w.journal.toList
  removed : ∀ i q t, ⟨i, .remove s q, some t⟩ ∈ l →
    ∃ e, w₀.value e = q.target w₀ ∧ .stored t e ∈ w.journal.toList
  /-- An insertion fails only if there was an element of the same value. -/
  refused : ∀ i e, ⟨i, .add s e, none⟩ ∈ l → ∃ e' t, Came w₀ l s (w₀.value e) e' t
  /-- As long as no element of a value ends, what comes in goes out or is there. -/
  balance : ∀ v, (∀ e t, Came w₀ l s v e t → w.isAlive e) →
    l.countP (Answer.adds w₀ v) + (w₀.dict s v).toList.length =
      l.countP (Answer.takes w₀ v) + (w.dict s v).toList.length
  /-- As long as an entry of the start is there, nothing comes in under its value. -/
  constant : ∀ v e t, w₀.dict s v = some (e, t) → ¬ Removed l s t → w.isAlive e →
    l.countP (Answer.adds w₀ v) = 0

namespace History

variable {s : SetId} {w₀ w w' : World} {D D' : Duties} {l : List Answer} {e : ElementId} {t : Ticket}

theorem refl (hq : w₀.Quiet) : History s w₀ [] w₀ where
  element _ := rfl
  ends _ h := h
  entries v e t := by
    have hn : ¬ Added [] s e t := by simp [Added]
    have hr : ¬ Removed [] s t := by simp [Removed]
    simp only [Came, hn, hr, and_false, or_false, not_false_eq_true, true_and]
    exact ⟨fun h => ⟨h, (hq.dict_eq_some.mp h).alive⟩, And.left⟩
  added e t h := by simp [Added] at h
  removed i q t h := by cases h
  refused i e h := by cases h
  balance v _ := by simp
  constant v e t _ _ _ := rfl

theorem value (h : History s w₀ l w) (e : ElementId) : w.value e = w₀.value e :=
  value_congr (h.element e)

theorem target (h : History s w₀ l w) (q : Query) : q.target w = q.target w₀ :=
  target_congr h.element q

theorem issued_of_removed (h : History s w₀ l w) (hw : w.Sane D) (ht : Removed l s t) : w.Issued t := by
  obtain ⟨i, q, hm⟩ := ht
  obtain ⟨e, -, hs⟩ := h.removed i q t hm
  exact (hw.recorded.issued t e hs).1

/-- Nothing was decided, and nothing happened but that elements ended. -/
theorem other (h : History s w₀ l w) (he : ∀ e, w'.element? e = w.element? e) (hl : Later w w')
    (ha : ∀ e, w'.isAlive e → w.isAlive e)
    (hd : w'.dict s = (w.dict s).filter fun _ e => w'.isAlive e) : History s w₀ l w' where
  element e := (he e).trans (h.element e)
  ends e hx := h.ends e (ha e hx)
  entries v e t := by
    rw [hd, Dict.filter_eq_some, h.entries]
    constructor
    · rintro ⟨⟨hc, hr, -⟩, hx⟩
      exact ⟨hc, hr, hx⟩
    · rintro ⟨hc, hr, hx⟩
      exact ⟨⟨hc, hr, ha e hx⟩, hx⟩
  added e t hm := hl.mem_journal (h.added e t hm)
  removed i q t hm := (h.removed i q t hm).imp fun _ hx => ⟨hx.1, hl.mem_journal hx.2⟩
  refused := h.refused
  balance v hv := by
    rw [h.balance v fun e t hc => ha e (hv e t hc), hd, Dict.filter]
    rcases hm : w.dict s v with _ | ⟨e, t⟩
    · rfl
    · have := hv e t ((h.entries v e t).mp hm).1
      simp [Option.filter, this]
  constant v e t hm hr hx := h.constant v e t hm hr (ha e hx)

/-- An insertion failed. -/
theorem refuse (h : History s w₀ l w) (he : ∀ e, w'.element? e = w.element? e) (hl : Later w w')
    (i : Nat) {e₁ : ElementId} (ha : ∀ e, w'.isAlive e = w.isAlive e) {x : ElementId × Ticket}
    (hx : w.dict s (w.value e₁) = some x) (hd : w'.dict s = w.dict s) :
    History s w₀ (l ++ [⟨i, .add s e₁, none⟩]) w' := by
  have hadd : ∀ e t, Added (l ++ [⟨i, .add s e₁, none⟩]) s e t ↔ Added l s e t := by
    simp [added_snoc]
  have hrem : ∀ t, Removed (l ++ [⟨i, .add s e₁, none⟩]) s t ↔ Removed l s t := by
    simp [removed_snoc]
  have hcame : ∀ v e t, Came w₀ (l ++ [⟨i, .add s e₁, none⟩]) s v e t ↔ Came w₀ l s v e t :=
    fun v e t => by rw [Came, Came, hadd]
  exact
    { element e := (he e).trans (h.element e)
      ends e hx := h.ends e (ha e ▸ hx)
      entries v e t := by rw [hd, h.entries, hcame, hrem, ha]
      added e t hm := hl.mem_journal (h.added e t ((hadd e t).mp hm))
      removed j q t hm := by
        have hm : ⟨j, .remove s q, some t⟩ ∈ l := by simpa using hm
        exact (h.removed j q t hm).imp fun _ hx => ⟨hx.1, hl.mem_journal hx.2⟩
      refused j e hm := by
        simp only [hcame]
        rcases List.mem_append.mp hm with hm | hm
        · exact h.refused j e hm
        · obtain ⟨-, rfl⟩ : j = i ∧ e = e₁ := by simpa using hm
          rw [h.value] at hx
          exact ⟨x.1, x.2, ((h.entries _ _ _).mp hx).1⟩
      balance v hv := by
        have := h.balance v fun e t hc => ha e ▸ hv e t ((hcame v e t).mpr hc)
        rw [hd, List.countP_append, List.countP_append]
        simpa [Answer.adds, Answer.takes] using this
      constant v e t hm hr hx := by
        rw [hrem] at hr
        rw [ha] at hx
        simpa [Answer.adds] using h.constant v e t hm hr hx }

/-- An element came in. -/
theorem add (h : History s w₀ l w) (hw : w.Sane D) (hw' : w'.Sane D') (hq' : w'.Quiet)
    (he : ∀ e, w'.element? e = w.element? e) (hl : Later w w') (i : Nat) {e₁ : ElementId}
    {t₁ : Ticket} (ha : ∀ e, w'.isAlive e = w.isAlive e) (hm : w.dict s (w.value e₁) = none)
    (hd : w'.dict s = (w.dict s).insert (w.value e₁) (e₁, t₁)) (hn : ¬ w.Issued t₁) :
    History s w₀ (l ++ [⟨i, .add s e₁, some t₁⟩]) w' := by
  have hadd : ∀ e t, Added (l ++ [⟨i, .add s e₁, some t₁⟩]) s e t ↔
      Added l s e t ∨ e₁ = e ∧ t₁ = t := by
    simp [added_snoc]
  have hrem : ∀ t, Removed (l ++ [⟨i, .add s e₁, some t₁⟩]) s t ↔ Removed l s t := by
    simp [removed_snoc]
  have hcame : ∀ v e t, Came w₀ (l ++ [⟨i, .add s e₁, some t₁⟩]) s v e t ↔
      Came w₀ l s v e t ∨ w₀.value e = v ∧ e₁ = e ∧ t₁ = t := fun v e t => by
    rw [Came, Came, hadd, and_or_left, or_assoc]
  have hv₁ := h.value e₁
  have hnew : w'.dict s (w₀.value e₁) = some (e₁, t₁) := by
    rw [hd, ← hv₁, Dict.insert, if_pos rfl]
  exact
    { element e := (he e).trans (h.element e)
      ends e hx := h.ends e (ha e ▸ hx)
      entries v e t := by
        rw [hd, Dict.insert_eq_some, hcame, hrem, ha, h.entries, hv₁]
        constructor
        · rintro (⟨rfl, hx⟩ | ⟨-, hc, hr, hx⟩)
          · obtain ⟨rfl, rfl⟩ := Prod.mk.injEq .. ▸ hx
            refine ⟨.inr ⟨rfl, rfl, rfl⟩, fun hr => hn (h.issued_of_removed hw hr), ?_⟩
            rw [← ha]
            exact (hq'.dict_eq_some.mp hnew).alive
          · exact ⟨.inl hc, hr, hx⟩
        · rintro ⟨hc | ⟨rfl, rfl, rfl⟩, hr, hx⟩
          · refine .inr ⟨fun hv => ?_, hc, hr, hx⟩
            rw [hv₁, ← hv, (h.entries v e t).mpr ⟨hc, hr, hx⟩] at hm
            cases hm
          · exact .inl ⟨rfl, rfl⟩
      added e t hx := by
        rcases (hadd e t).mp hx with hx | ⟨rfl, rfl⟩
        · exact hl.mem_journal (h.added e t hx)
        · obtain ⟨y, hy, rfl⟩ := (hq'.dict_eq_some.mp hnew).handle
          exact hw'.recorded.stored _ _ hy
      removed j q t hx := by
        have hx : ⟨j, .remove s q, some t⟩ ∈ l := by simpa using hx
        exact (h.removed j q t hx).imp fun _ hy => ⟨hy.1, hl.mem_journal hy.2⟩
      refused j e hx := by
        have hx : ⟨j, .add s e, none⟩ ∈ l := by simpa using hx
        obtain ⟨e', t, hc⟩ := h.refused j e hx
        exact ⟨e', t, (hcame _ _ _).mpr (.inl hc)⟩
      balance v hv := by
        have hb := h.balance v fun e t hc => ha e ▸ hv e t ((hcame v e t).mpr (.inl hc))
        rw [List.countP_append, List.countP_append, hd, Dict.insert, hv₁]
        by_cases hve : v = w₀.value e₁
        · subst hve
          rw [hv₁] at hm
          rw [hm] at hb
          simp only [List.countP_singleton, Answer.adds, Answer.takes, Option.isSome_some,
            Bool.and_true, decide_true, if_true, Bool.false_eq_true, if_false, Option.toList_some,
            Option.toList_none, List.length_nil, List.length_singleton] at hb ⊢
          omega
        · simpa [Answer.adds, Answer.takes, hve, Ne.symm hve] using hb
      constant v e t hx hr hal := by
        rw [hrem] at hr
        rw [ha] at hal
        have hne : w₀.value e₁ ≠ v := by
          rintro rfl
          rw [hv₁, (h.entries _ e t).mpr ⟨.inl hx, hr, hal⟩] at hm
          cases hm
        simpa [Answer.adds, hne] using h.constant v e t hx hr hal }

/-- A removal was decided. -/
theorem remove (h : History s w₀ l w) (hw : w.Sane D) (hq : w.Quiet)
    (he : ∀ e, w'.element? e = w.element? e) (hl : Later w w') (i : Nat) {q : Query}
    (ha : ∀ e, w'.isAlive e = w.isAlive e)
    (hd : w'.dict s = (w.dict s).filter fun v _ => v ≠ q.target w) :
    History s w₀ (l ++ [⟨i, .remove s q, (w.dict s (q.target w)).map Prod.snd⟩]) w' := by
  have htarget := h.target q
  generalize ht : (w.dict s (q.target w)).map Prod.snd = t?
  have hadd : ∀ e t, Added (l ++ [⟨i, .remove s q, t?⟩]) s e t ↔ Added l s e t := by
    simp [added_snoc]
  have hrem : ∀ t, Removed (l ++ [⟨i, .remove s q, t?⟩]) s t ↔ Removed l s t ∨ t? = some t := by
    simp [removed_snoc]
  have hcame : ∀ v e t, Came w₀ (l ++ [⟨i, .remove s q, t?⟩]) s v e t ↔ Came w₀ l s v e t :=
    fun v e t => by rw [Came, Came, hadd]
  have hgone : ∀ {t}, t? = some t → ∃ e, w.dict s (q.target w) = some (e, t) := by
    rintro t rfl
    obtain ⟨x, hx, rfl⟩ := Option.map_eq_some_iff.mp ht
    exact ⟨x.1, hx⟩
  exact
    { element e := (he e).trans (h.element e)
      ends e hx := h.ends e (ha e ▸ hx)
      entries v e t := by
        rw [hd, Dict.filter_eq_some, hcame, hrem, ha, not_or, h.entries]
        constructor
        · rintro ⟨⟨hc, hr, hx⟩, hne⟩
          refine ⟨hc, ⟨hr, fun h' => hne ?_⟩, hx⟩
          obtain ⟨e', h'⟩ := hgone h'
          have h₁ := hq.dict_eq_some.mp ((h.entries v e t).mpr ⟨hc, hr, hx⟩)
          have h₂ := hq.dict_eq_some.mp h'
          obtain ⟨y, hy, rfl⟩ := h₁.handle
          obtain ⟨y', hy', rfl⟩ := h₂.handle
          obtain rfl := Option.some.inj (hy.symm.trans hy')
          exact h₁.value.symm.trans h₂.value
        · rintro ⟨hc, ⟨hr, h'⟩, hx⟩
          refine ⟨⟨hc, hr, hx⟩, fun hv => h' ?_⟩
          rw [← ht, ← hv, (h.entries v e t).mpr ⟨hc, hr, hx⟩]
          rfl
      added e t hx := hl.mem_journal (h.added e t ((hadd e t).mp hx))
      removed j q' t hx := by
        rcases List.mem_append.mp hx with hx | hx
        · exact (h.removed j q' t hx).imp fun _ hy => ⟨hy.1, hl.mem_journal hy.2⟩
        · obtain ⟨-, rfl, h'⟩ : j = i ∧ q' = q ∧ some t = t? := by simpa using hx
          obtain ⟨e, h'⟩ := hgone h'.symm
          have hhas := hq.dict_eq_some.mp h'
          obtain ⟨y, hy, rfl⟩ := hhas.handle
          refine ⟨y.element, ?_, hl.mem_journal (hw.recorded.stored _ _ hy)⟩
          rw [← h.value, ← htarget]
          exact hhas.value
      refused j e hx := by
        have hx : ⟨j, .add s e, none⟩ ∈ l := by simpa using hx
        simpa only [hcame] using h.refused j e hx
      balance v hv := by
        have hb := h.balance v fun e t hc => ha e ▸ hv e t ((hcame v e t).mpr hc)
        rw [List.countP_append, List.countP_append, hd, Dict.filter, htarget]
        rw [htarget] at ht
        by_cases hve : v = q.target w₀
        · subst hve
          rcases hm : w.dict s (q.target w₀) with _ | x <;> rw [hm] at hb ht <;> subst ht
          · simpa [Answer.adds, Answer.takes] using hb
          · simp [Answer.adds, Answer.takes, Option.filter] at hb ⊢
            omega
        · have hf : ((w.dict s v).filter fun _ => decide (v ≠ q.target w₀)) = w.dict s v := by
            cases w.dict s v <;> simp [Option.filter, hve]
          rw [hf]
          simpa [Answer.adds, Answer.takes, Ne.symm hve] using hb
      constant v e t hx hr hal := by
        rw [hrem, not_or] at hr
        rw [ha] at hal
        simpa [Answer.adds] using h.constant v e t hx hr.1 hal }

/-- A stage adds to the history what it decides. -/
theorem turn (h : History s w₀ l w) (hw : w.Sane D) (hw' : w'.Sane D') (hq : w.Quiet)
    (hq' : w'.Quiet) (he : ∀ e, w'.element? e = w.element? e) (hl : Later w w') (i : Nat)
    {c? : Option Chore} {t? : Option Ticket} (ht : w.Turn s w' c? t?) :
    History s w₀ (l ++ (c?.map fun c => (⟨i, c, t?⟩ : Answer)).toList) w' := by
  cases ht with
  | other ha hd =>
    rw [Option.map_none, Option.toList_none, List.append_nil]
    exact h.other he hl ha hd
  | remove ha hd => exact h.remove hw hq he hl i ha hd
  | @add e t? ha hi hn =>
    unfold Dict.Inserts at hi
    rcases hm : w.dict s (w.value e) with _ | x <;> simp only [hm] at hi
    · obtain ⟨t, rfl, hd⟩ := hi
      exact h.add hw hw' hq' he hl i ha hm hd (hn t rfl)
    · obtain ⟨rfl, hd⟩ := hi
      exact h.refuse he hl i ha hm hd

end History

end WeakSet
