import WeakSet.Proofs.Probing

/-!
# The operations of a set are balanced

Whatever scripts run meanwhile, an operation of a set leaves as much due as there was, whether it
has a result or ends with a panic: it lets go of the references that it took, reports what its sweep
took out, and has what it took out watched no longer.
-/

namespace WeakSet

open Act Duties

variable {L : Scene} {run : Runner} (hr : run.Sound) {w : World} {D E : Duties} {s : SetId}

/-! ## Acts that sweep first -/

/-- An act that begins with a sweep of a set and goes on, from whatever world the sweep leaves, with a
course of moves. -/
def SweepsFirst {α : Type} (run : Runner) (s : SetId) (L : Scene) (a : Act α) (w : World) (D : Duties)
    (K : α → Duties) : Prop :=
  ∃ b : Act α, a = (discard (sweep run s) >>= fun _ => b) ∧
    ∀ w', World.Later w w' → Leads L b w' D K D

namespace SweepsFirst

variable {α β : Type} {a : Act α} {K : α → Duties} {K' : β → Duties}

theorem bind {f : α → Act β} (h : SweepsFirst run s L a w D K)
    (hf : ∀ x w', World.Later w w' → Leads L (f x) w' (K x) K' D) :
    SweepsFirst run s L (a >>= f) w D K' := by
  obtain ⟨b, rfl, hb⟩ := h
  exact ⟨b >>= f, bind_assoc .., fun w' hl => .bind (hb w' hl) fun x w'' _ hl' =>
    hf x w'' (hl.trans hl')⟩

theorem map {f : α → β} (h : SweepsFirst run s L a w D (K' ∘ f)) :
    SweepsFirst run s L (f <$> a) w D K' := by
  rw [map_eq_pure_bind]
  exact h.bind fun _ _ _ => .pure rfl

include hr in
theorem leads (h : SweepsFirst run s L a w D K) (hs : s < w.sets.size) : Leads L a w D K D := by
  obtain ⟨b, rfl, hb⟩ := h
  exact .bind (.discard (balanced_sweep hr hs)) fun _ w' _ hl => hb w' hl

end SweepsFirst

/-! ## Membership -/

theorem balanced_anyFrom {α : Type} {f : α → Act Bool} {xs : List α}
    (h : ∀ x ∈ xs, ∀ w', World.Later w w' → Balanced L (f x) w' D) (b : Bool) :
    Balanced L (xs.foldlM (fun changed x => do return (← f x) || changed) b) w D := by
  induction xs generalizing w b with
  | nil => exact .pure rfl
  | cons x xs ih =>
    rw [List.foldlM_cons]
    have hx : Balanced L (do return (← f x) || b) w D :=
      .bind (h x (by simp) w (.refl w)) fun _ _ _ _ => .pure rfl
    refine .bind hx fun c w' _ hl => ?_
    exact ih (fun y hy w'' hl' => h y (by simp [hy]) w'' (hl.trans hl')) c

theorem balanced_anyOf {α : Type} {f : α → Act Bool} {xs : List α}
    (h : ∀ x ∈ xs, ∀ w', World.Later w w' → Balanced L (f x) w' D) :
    Balanced L (anyOf f xs) w D :=
  balanced_anyFrom h false

theorem balanced_allOf {α : Type} {f : α → Act Bool} {xs : List α}
    (h : ∀ x ∈ xs, ∀ w', World.Later w w' → Balanced L (f x) w' D) :
    Balanced L (allOf f xs) w D := by
  induction xs generalizing w with
  | nil => exact .pure rfl
  | cons x xs ih =>
    refine .bind (h x (by simp) w (.refl w)) fun c w' _ hl => ?_
    split
    · exact ih fun y hy w'' hl' => h y (by simp [hy]) w'' (hl.trans hl')
    · exact .pure rfl

theorem leads_bookRemoval (t : Ticket) (h : Handle) :
    Leads L (bookRemoval t h) w (.unwatch t h.element ::ₘ D) (fun _ => D) E :=
  .change (.single .unwatch) (.last (.note rfl (.pure rfl)))

theorem balanced_count : Balanced L (count s) w D := by
  refine .look ?_
  generalize List.range _ = ks, 0 = n
  induction ks generalizing w n with
  | nil => exact .pure rfl
  | cons k ks ih =>
    rw [List.foldlM_cons]
    have hk : Balanced L (do return n + (← guarded s (look fun w => (w.shard s k).size))) w D :=
      .bind (balanced_guarded (K := fun _ => D) fun _ => .last (.look (.pure rfl))) fun _ _ _ _ =>
        .pure rfl
    exact .bind hk fun m w' _ _ => ih m

/-- A count that is not refused is right, and changes nothing. -/
theorem exec_count_eq_ok {n : Nat} {w' : World} (h : (count s).exec w = (.ok n, w')) :
    n = w.size s ∧ w' = w := by
  have hloop : ∀ (ks : List Nat) (m : Nat),
      (ks.foldlM (fun n k => return n + (← guarded s (look fun w => (w.shard s k).size))) m).exec w =
          (.ok n, w') →
        n = m + (ks.map fun k => (w.shard s k).size).sum ∧ w' = w := by
    intro ks
    induction ks with
    | nil =>
      intro m h
      obtain ⟨rfl, rfl⟩ := exec_pure_eq_ok.mp h
      exact ⟨rfl, rfl⟩
    | cons k ks ih =>
      intro m h
      rw [List.foldlM_cons] at h
      obtain ⟨_, w₁, h₁, h⟩ := exec_bind_eq_ok.mp h
      obtain ⟨x, w₂, h₂, h₁⟩ := exec_bind_eq_ok.mp h₁
      obtain ⟨-, w₃, h₃, rfl⟩ := exec_guarded_eq_ok.mp h₂
      obtain ⟨⟨⟩, rfl⟩ := Prod.mk.injEq .. ▸ h₃
      obtain ⟨rfl, rfl⟩ := exec_pure_eq_ok.mp h₁
      rw [World.unlock_lock] at h
      obtain ⟨rfl, rfl⟩ := ih _ h
      exact ⟨by rw [List.map_cons, List.sum_cons, ← Nat.add_assoc]; rfl, rfl⟩
  rw [World.size_eq_sum]
  simpa using hloop _ 0 h

section Run

include hr

theorem leads_close {α : Type} {G : α → Duties} (x : Section α) :
    Leads L (x.close run) w (x.due G + D) (fun r => G r + D) D := by
  rw [Section.due, Multiset.add_assoc]
  refine .bind (leads_releaseAll hr _) fun _ _ _ _ => .settle ?_
  cases x.result with
  | ok r => rfl
  | error p => exact Multiset.zero_add D

/-- A sweep, and what follows it. -/
theorem leads_swept {α : Type} {a : Act α} {K : α → Duties} (hs : s < w.sets.size)
    (h : ∀ w', World.Later w w' → Leads L a w' D K D) :
    Leads L (discard (sweep run s) >>= fun _ => a) w D K D :=
  SweepsFirst.leads hr ⟨a, rfl, h⟩ hs

theorem sweepsFirst_insert {e : ElementId} (hu : L.Uses s) (he : .hold e ∈ D) :
    SweepsFirst run s L (insert run s e) w D (fun _ => D) := by
  refine ⟨_, rfl, fun w₁ _ => ?_⟩
  refine .bind (leads_insertSection hr hu he) fun x w₂ _ _ => ?_
  refine .bind (leads_close hr x) fun t? w₃ _ _ => ?_
  rw [Multiset.zero_add]
  split
  · exact .note rfl (.pure rfl)
  · exact .pure rfl

theorem balanced_insert {e : ElementId} (hu : L.Uses s) (he : .hold e ∈ D) :
    Balanced L (insert run s e) w D :=
  .intro fun _ ho => (sweepsFirst_insert hr hu he).leads hr (ho.lt_size hu)

/-- The ticket that an insertion comes to is one of the set that was not given out before, and its
handle was stored. -/
theorem stored_of_insert {e : ElementId} {t : Ticket} {w' : World} (hw : w.Point D) (ho : L.On w) (hu : L.Uses s)
    (he : .hold e ∈ D) (h : (insert run s e).exec w = (.ok (some t), w')) :
    t.owner = s ∧ ¬ w.Issued t ∧ .stored t e ∈ w'.journal.toList := by
  obtain ⟨_, w₁, h₁, h⟩ := exec_bind_eq_ok.mp h
  have c₁ := (Leads.discard (balanced_sweep hr (ho.lt_size hu))).ok h₁ hw ho
  obtain ⟨x, w₂, h₂, h⟩ := exec_bind_eq_ok.mp h
  have c₂ := (leads_insertSection hr hu he).ok h₂ (c₁.point hw) (c₁.on ho)
  have hw₂ := c₂.point (c₁.point hw)
  obtain ⟨t?, w₃, h₃, h⟩ := exec_bind_eq_ok.mp h
  have c₃ := (leads_close hr (L := .idle) x).ok h₃ hw₂ (.idle _)
  have hres : x.result = .ok t? := by
    obtain ⟨_, w₄, -, h₄⟩ := exec_bind_eq_ok.mp h₃
    rw [exec_settle] at h₄
    exact (Prod.mk.injEq .. ▸ h₄).1
  have hlast : t? = some t ∧ World.Later w₃ w' := by
    cases t? with
    | none => cases (exec_pure_eq_ok.mp h).1
    | some t' =>
      obtain ⟨_, w₄, h₄, h⟩ := exec_bind_eq_ok.mp h
      obtain ⟨ht, rfl⟩ := exec_pure_eq_ok.mp h
      obtain ⟨-, rfl⟩ := Prod.mk.injEq .. ▸ h₄
      exact ⟨ht, World.later_note _ _⟩
  obtain ⟨ho, hi, hj⟩ := stored_of_insertSection hr (c₁.point hw) h₂ (hlast.1 ▸ hres)
  exact ⟨ho, fun hi' => hi ((c₁.later hw.sane).issued _ hi'),
    hlast.2.mem_journal ((c₃.later hw₂.sane).mem_journal hj)⟩

theorem balanced_add {e : ElementId} (hu : L.Uses s) (he : .hold e ∈ D) :
    Balanced L (add run s e) w D :=
  .map (balanced_insert hr hu he)

theorem balanced_addAll {es : List ElementId} (hu : L.Uses s) (he : ∀ e ∈ es, .hold e ∈ D) :
    Balanced L (addAll run s es) w D :=
  balanced_anyOf fun e h _ _ => balanced_add hr hu (he e h)

theorem balanced_find (q : Query) : Balanced L (find run s q) w D := by
  refine .bind (leads_findSection hr q) fun x w' _ _ => ?_
  have h := leads_close hr (L := L) (w := w') (D := D) (G := fun _ => 0) x
  simpa using h

theorem sweepsFirst_ticketOf (q : Query) :
    SweepsFirst run s L (ticketOf run s q) w D (fun _ => D) :=
  ⟨_, rfl, fun _ _ => balanced_find hr q⟩

theorem balanced_ticketOf (q : Query) (hs : s < w.sets.size) :
    Balanced L (ticketOf run s q) w D :=
  (sweepsFirst_ticketOf hr q).leads hr hs

/-- The ticket that a lookup comes to led to a living element when it was found. -/
theorem shown_of_ticketOf {q : Query} {t : Ticket} {w' : World} (hw : w.Point D) (hs : s < w.sets.size)
    (h : (ticketOf run s q).exec w = (.ok (some t), w')) :
    ∃ e v E, Course .idle (w, D) (v, E) ∧ .stored t e ∈ v.journal.toList ∧ v.isAlive e ∧
      Course .idle (v, E) (w', D) := by
  obtain ⟨_, w₁, h₁, h⟩ := exec_bind_eq_ok.mp h
  have c₁ := (Leads.discard (balanced_sweep hr hs)).ok h₁ hw (.idle _)
  have hw₁ := c₁.point hw
  obtain ⟨x, w₂, h₂, h⟩ := exec_bind_eq_ok.mp h
  have c₂ := (leads_findSection hr (L := .idle) q).ok h₂ hw₁ (.idle _)
  have hw₂ := c₂.point hw₁
  have c₃ := (leads_close hr (L := .idle) x).ok h hw₂ (.idle _)
  rw [Multiset.zero_add] at c₃
  obtain ⟨_, w₃, -, h₃⟩ := exec_bind_eq_ok.mp h
  rw [exec_settle] at h₃
  obtain ⟨e, he, hst⟩ := stored_of_findSection hr hw₁ h₂ (Prod.mk.injEq .. ▸ h₃).1
  refine ⟨e, w₂, _, c₁.trans c₂, hst, hw₂.counted.isAlive_of_hold ?_, c₃⟩
  exact Multiset.mem_add.mpr (.inl (Multiset.mem_add.mpr (.inl (hold_mem_holds.mpr he))))

/-- The ticket that a lookup comes to was given out. -/
theorem issued_of_ticketOf {q : Query} {t : Ticket} {w' : World} (hw : w.Point D) (hs : s < w.sets.size)
    (h : (ticketOf run s q).exec w = (.ok (some t), w')) : w'.Issued t := by
  obtain ⟨e, v, E, c, hst, -, c'⟩ := shown_of_ticketOf hr hw hs h
  have hv := (c.point hw).sane
  exact (c'.later hv).issued t (hv.recorded.issued t e hst).1

theorem balanced_contains (q : Query) (hs : s < w.sets.size) :
    Balanced L (contains run s q) w D :=
  .map (balanced_ticketOf hr q hs)

theorem sweepsFirst_remove (q : Query) :
    SweepsFirst run s L (remove run s q) w D (fun _ => D) := by
  refine ⟨_, rfl, fun w₁ _ => ?_⟩
  refine .bind (leads_removeSection hr q) fun x w₂ _ _ => ?_
  refine .bind (leads_close hr x) fun r w₃ _ _ => ?_
  cases r with
  | none => exact .pure (by simp [removedDue])
  | some x =>
    simp only [removedDue, Multiset.cons_add, Multiset.zero_add]
    exact .bind (leads_bookRemoval _ _) fun _ _ _ _ => .pure rfl

theorem balanced_remove (q : Query) (hs : s < w.sets.size) :
    Balanced L (remove run s q) w D :=
  (sweepsFirst_remove hr q).leads hr hs

theorem balanced_removeAll (qs : List Query) (hs : s < w.sets.size) :
    Balanced L (removeAll run s qs) w D :=
  balanced_anyOf fun q _ _ hl => balanced_remove hr q (hs.trans_le hl.sets)

theorem balanced_containsAll (qs : List Query) (hs : s < w.sets.size) :
    Balanced L (containsAll run s qs) w D := by
  unfold containsAll
  split
  · exact .pure rfl
  · exact balanced_allOf fun q _ _ hl => balanced_contains hr q (hs.trans_le hl.sets)

omit hr in
theorem sweepsFirst_length : SweepsFirst run s L (length run s) w D (fun _ => D) :=
  ⟨_, rfl, fun _ _ => balanced_count⟩

theorem balanced_length (hs : s < w.sets.size) : Balanced L (length run s) w D :=
  sweepsFirst_length.leads hr hs

end Run

/-! ## Filtering and clearing -/

theorem leads_pinAll (xs : List (SlotKey × Handle)) :
    Leads L (pinAll xs) w D (fun ps => holds (ps.map Prod.snd) + D) E := by
  induction xs generalizing w D with
  | nil => exact .pure (by simp)
  | cons x xs ih =>
    obtain ⟨key, h⟩ := x
    refine .bind (leads_upgrade h.element) fun e? w₁ _ _ => ?_
    cases e? with
    | none => rw [holds_toList_none]; exact ih
    | some e =>
      rw [holds_toList_some]
      exact .bind ih fun ps _ _ _ => .pure (by simp)

/-- What is pinned are elements of different handles. -/
theorem yields_pinAll (xs : List (SlotKey × Handle)) :
    Yields (pinAll xs) fun ps => (ps.map Prod.fst).Sublist (xs.map Prod.fst) ∧
      ∀ x ∈ ps, ∃ h, (x.1, h) ∈ xs ∧ h.element = x.2 := by
  induction xs with
  | nil => exact .pure (by simp)
  | cons x xs ih =>
    obtain ⟨key, h⟩ := x
    refine .bind (yields_upgrade h.element) fun e? he => ?_
    cases e? with
    | none =>
      intro w ps w' hx
      obtain ⟨hs, hm⟩ := ih w ps w' hx
      refine ⟨hs.trans (List.sublist_cons_self _ _), fun x hx => ?_⟩
      obtain ⟨h', hm, e⟩ := hm x hx
      exact ⟨h', List.mem_cons_of_mem _ hm, e⟩
    | some e =>
      refine .bind ih fun ps ⟨hs, hm⟩ => .pure ⟨hs.cons_cons _, fun x hx => ?_⟩
      rcases List.mem_cons.mp hx with rfl | hx
      · exact ⟨h, by simp, (he e rfl).symm⟩
      · obtain ⟨h', hm, e⟩ := hm x hx
        exact ⟨h', List.mem_cons_of_mem _ hm, e⟩

theorem balanced_rejected {keep : ElementId → Act Bool} (ps : List (SlotKey × ElementId))
    (h : ∀ e w', World.Later w w' → Balanced L (keep e) w' D) :
    Balanced L (rejected keep ps) w D := by
  induction ps generalizing w with
  | nil => exact .pure rfl
  | cons p ps ih =>
    refine .bind (h p.2 w (.refl w)) fun b w' _ hl => ?_
    have := ih fun e w'' hl' => h e w'' (hl.trans hl')
    split
    · exact this
    · exact .bind this fun _ _ _ _ => .pure rfl

theorem yields_rejected (keep : ElementId → Act Bool) (ps : List (SlotKey × ElementId)) :
    Yields (rejected keep ps) fun keys => keys.Sublist (ps.map Prod.fst) := by
  induction ps with
  | nil => exact .pure (List.Sublist.refl _)
  | cons p ps ih =>
    refine .seq fun b => ?_
    split
    · exact fun w keys w' hx => (ih w keys w' hx).trans (List.sublist_cons_self _ _)
    · exact .bind ih fun keys hs => .pure (hs.cons_cons _)

/-- What is left to do with handles that a filter took out, if it is known which elements they are
of. -/
def filteredDue (s : SetId) (k : Nat) (of : SlotKey → ElementId) (keys : List SlotKey) : Duties :=
  (keys.map fun key => Duty.unwatch ⟨s, k, key⟩ (of key) : List Duty)

theorem filteredDue_cons (k : Nat) (of : SlotKey → ElementId) (key : SlotKey)
    (keys : List SlotKey) :
    filteredDue s k of (key :: keys) =
      .unwatch ⟨s, k, key⟩ (of key) ::ₘ filteredDue s k of keys := rfl

/-- Taking handles out of a locked shard, when it is known which elements they are of and these are
held. -/
theorem leads_takeOutAll {k : Nat} {of : SlotKey → ElementId} (hL : s ∉ L.locked) (keys : List SlotKey)
    (h : ∀ key ∈ keys, .stored ⟨s, k, key⟩ (of key) ∈ w.journal.toList)
    (he : ∀ key ∈ keys, .hold (of key) ∈ D) :
    Leads L (takeOutAll s k keys) w D
      (fun taken => filteredDue s k of taken + D) E := by
  induction keys generalizing w D with
  | nil => exact .pure (Multiset.zero_add D).symm
  | cons key keys ih =>
    refine .intro fun hs _ => ?_
    have hrest : ∀ key ∈ keys, .stored ⟨s, k, key⟩ (of key) ∈ w.journal.toList :=
      fun key hm => h key (by simp [hm])
    have hheld : ∀ key ∈ keys, .hold (of key) ∈ D := fun key hm => he key (by simp [hm])
    rcases hh : w.handle? ⟨s, k, key⟩ with _ | hd
    · have e := w.takeOut_none hh .filtered
      refine .update (by rw [e]) ?_
      rw [World.takeOut_fst, hh, e]
      exact ih hrest hheld
    · have hof : hd.element = of key :=
        hs.recorded.unique _ _ _ (hs.recorded.stored _ _ hh) (h key (by simp))
      have ha : w.isAlive hd.element := hs.counted.isAlive_of_hold (hof ▸ he key (by simp))
      have hm : Move L (w, D) ((w.takeOut ⟨s, k, key⟩ .filtered).2, _) := .takeOut hL hh ha
      refine .update (.single hm) ?_
      rw [World.takeOut_fst, hh, hof]
      refine .bind (ih (fun key hk => (World.later_takeOut hh _).mem_journal (hrest key hk))
        fun key hk => Multiset.mem_cons_of_mem (hheld key hk)) fun taken w' _ _ => .pure ?_
      rw [filteredDue_cons, Multiset.cons_add, Multiset.add_cons]

theorem yields_takeOutAll (s : SetId) (k : Nat) (keys : List SlotKey) :
    Yields (takeOutAll s k keys) fun taken => taken.Sublist keys := by
  induction keys with
  | nil => exact .pure (List.Sublist.refl _)
  | cons key keys ih =>
    refine .seq fun h? => ?_
    cases h? with
    | none => exact fun w taken w' hx => (ih w taken w' hx).trans (List.sublist_cons_self _ _)
    | some _ => exact .bind ih fun taken hs => .pure (hs.cons_cons _)

/-- The handles that were taken out are those of the pinned elements whose keys were taken. -/
theorem filteredDue_eq {k : Nat} {of : SlotKey → ElementId} {taken : List SlotKey}
    {pinned : List (SlotKey × ElementId)} (hp : (pinned.map Prod.fst).Nodup)
    (ht : taken.Sublist (pinned.map Prod.fst)) (ho : ∀ x ∈ pinned, of x.1 = x.2) :
    filteredDue s k of taken =
      ((pinned.filter fun x => taken.contains x.1).map fun x =>
        Duty.unwatch ⟨s, k, x.1⟩ x.2 : List Duty) := by
  have hperm : taken.Perm ((pinned.filter fun x => taken.contains x.1).map Prod.fst) := by
    refine (List.perm_ext_iff_of_nodup (hp.sublist ht)
      (hp.sublist (List.filter_sublist.map _))).mpr fun key => ?_
    constructor
    · intro hk
      obtain ⟨x, hx, rfl⟩ := List.mem_map.mp (ht.subset hk)
      exact List.mem_map_of_mem (List.mem_filter.mpr ⟨hx, by simpa using hk⟩)
    · intro hk
      obtain ⟨x, hx, rfl⟩ := List.mem_map.mp hk
      simpa using (List.mem_filter.mp hx).2
  rw [filteredDue, Multiset.coe_eq_coe.mpr (hperm.map _), List.map_map]
  congr 1
  refine List.map_congr_left fun x hx => ?_
  rw [Function.comp_apply, ho x (List.mem_of_mem_filter hx)]

/-- The elements whose handles were taken out are watched no longer. -/
theorem leads_unwatchTaken {k : Nat} (taken : List SlotKey) (pinned : List (SlotKey × ElementId)) :
    Leads L (pinned.forM fun (key, e) =>
        if taken.contains key then change (·.unwatch e ⟨s, k, key⟩) else pure ()) w
      (((pinned.filter fun x => taken.contains x.1).map fun x =>
        Duty.unwatch ⟨s, k, x.1⟩ x.2 : List Duty) + D) (fun _ => D) E := by
  induction pinned generalizing w with
  | nil => exact .pure (by simp)
  | cons x pinned ih =>
    rw [List.forM_eq_forM] at ih ⊢
    rw [List.forM_cons, List.filter_cons]
    by_cases hx : taken.contains x.1
    · simp only [hx, ite_true, List.map_cons, ← Multiset.cons_coe, Multiset.cons_add]
      exact .change (.single .unwatch) ih
    · simp only [hx, Bool.false_eq_true, ite_false]
      exact ih

include hr

theorem balanced_retainShard {keep : ElementId → Act Bool} (k : Nat)
    (h : ∀ e w' D, World.Later w w' → Balanced L (keep e) w' D) :
    Balanced L (retainShard run s keep k) w D := by
  have hpin : Leads L (guarded s do pinAll (← look (·.shard s k)).entries) w D
      (fun ps => holds (ps.map Prod.snd) + D) D :=
    leads_guarded_add fun _ => .look (leads_pinAll _)
  refine .intro fun hs₀ _ => .bind hpin fun pinned w₁ hx hl₁ => ?_
  obtain ⟨-, w₂, hx, -⟩ := exec_guarded_eq_ok.mp hx
  obtain ⟨hsub, hpinned⟩ := yields_pinAll _ _ _ _ hx
  have hnodup : (pinned.map Prod.fst).Nodup := (Shard.nodup_keys_entries _).sublist hsub
  -- a pinned element is the one of its handle, whatever the predicate does meanwhile
  let of : SlotKey → ElementId := fun key =>
    ((w.handle? ⟨s, k, key⟩).map Handle.element).getD 0
  have hof : ∀ x ∈ pinned, of x.1 = x.2 ∧ .stored ⟨s, k, x.1⟩ (of x.1) ∈ w₁.journal.toList := by
    intro x hx
    obtain ⟨hd, hm, he⟩ := hpinned x hx
    have hh : w.handle? ⟨s, k, x.1⟩ = some hd := Shard.mem_entries.mp hm
    have ho : of x.1 = hd.element := by simp only [of, hh, Option.map_some, Option.getD_some]
    exact ⟨ho.trans he, ho ▸ hl₁.mem_journal (hs₀.recorded.stored _ _ hh)⟩
  refine balanced_holding hr (.bind (balanced_rejected _ fun e w' hl => h e w' _ (hl₁.trans hl))
    fun doomed w₃ hx hl₃ => ?_)
  have hdoomed := yields_rejected _ _ _ _ _ hx
  split
  · exact .pure rfl
  · have htake : Leads L (guarded s (takeOutAll s k doomed)) w₃ (holds (pinned.map Prod.snd) + D)
        (fun taken => filteredDue s k of taken + (holds (pinned.map Prod.snd) + D))
        (holds (pinned.map Prod.snd) + D) := by
      refine leads_guarded_add fun hL => leads_takeOutAll hL doomed (fun key hk => ?_) fun key hk => ?_
      all_goals obtain ⟨x, hx, rfl⟩ := List.mem_map.mp (hdoomed.subset hk)
      · exact hl₃.mem_journal (hof x hx).2
      · rw [(hof x hx).1]
        exact Multiset.mem_cons_of_mem (Multiset.mem_add.mpr
          (.inl (hold_mem_holds.mpr (List.mem_map_of_mem hx))))
    refine .bind htake fun taken w₄ hx _ => ?_
    obtain ⟨-, w₅, hx, -⟩ := exec_guarded_eq_ok.mp hx
    have htaken := (yields_takeOutAll _ _ _ _ _ _ hx).trans hdoomed
    rw [filteredDue_eq hnodup htaken fun x hx => (hof x hx).1]
    exact .bind (leads_unwatchTaken taken pinned) fun _ _ _ _ => .pure rfl

theorem sweepsFirst_retain {keep : ElementId → Act Bool}
    (h : ∀ e w' D, World.Later w w' → Balanced L (keep e) w' D) :
    SweepsFirst run s L (retain run s keep) w D (fun _ => D) := by
  refine ⟨_, rfl, fun w₁ h₁ => .look (.look (balanced_anyOf fun k _ w₂ h₂ => ?_))⟩
  refine balanced_retainShard hr k fun e w₃ D' h₃ => ?_
  split
  · exact h e w₃ D' ((h₁.trans h₂).trans h₃)
  · exact .pure rfl

theorem balanced_retain {keep : ElementId → Act Bool} (hs : s < w.sets.size)
    (h : ∀ e w' D, World.Later w w' → Balanced L (keep e) w' D) :
    Balanced L (retain run s keep) w D :=
  (sweepsFirst_retain hr h).leads hr hs

theorem balanced_meetsAny (e : ElementId) (qs : List Query) :
    Balanced L (meetsAny run e qs) w D := by
  induction qs generalizing w with
  | nil => exact .pure rfl
  | cons q qs ih =>
    refine .bind (balanced_matchesQuery hr q e) fun b w' _ _ => ?_
    split
    · exact .pure rfl
    · exact ih

theorem sweepsFirst_retainAll (qs : List Query) :
    SweepsFirst run s L (retainAll run s qs) w D (fun _ => D) := by
  unfold retainAll
  split
  · exact ⟨_, rfl, fun _ _ => .pure rfl⟩
  · exact sweepsFirst_retain hr fun e _ _ _ => balanced_meetsAny hr e qs

theorem balanced_retainAll (qs : List Query) (hs : s < w.sets.size) :
    Balanced L (retainAll run s qs) w D :=
  (sweepsFirst_retainAll hr qs).leads hr hs

omit hr in
theorem leads_forgetAll (taken : List (Ticket × Handle)) :
    Leads L (taken.forM fun (t, h) => forget t h) w (unwatches taken + D) (fun _ => D) E := by
  induction taken generalizing w with
  | nil => exact .pure (Multiset.zero_add D)
  | cons x taken ih =>
    rw [List.forM_eq_forM] at ih ⊢
    rw [List.forM_cons, unwatches_cons, Multiset.cons_add]
    exact .change (.single .unwatch) ih

omit hr in
theorem balanced_clear : Balanced L (clear s) w D := by
  have hshard : ∀ k w, w.HasShard s k → Balanced L (clearShard s k) w D := fun k w hk =>
    .bind (K := fun taken => unwatches taken + D)
      (leads_guarded_add fun hL => .last (.update (.single (.takeAll hL hk)) (.pure rfl)))
      fun taken _ _ _ => leads_forgetAll taken
  have hall : ∀ (ks : List Nat) w, (∀ k ∈ ks, w.HasShard s k) →
      Balanced L (ks.forM (clearShard s)) w D := by
    intro ks
    induction ks with
    | nil => intro w _; exact .pure rfl
    | cons k ks ih =>
      intro w hk
      rw [List.forM_eq_forM] at ih ⊢
      rw [List.forM_cons]
      exact .bind (hshard k w (hk k (by simp))) fun _ w' _ hl =>
        ih w' fun k' hm => hl.hasShard (hk k' (by simp [hm]))
  refine .look (.bind (hall _ w fun k hk => ?_) fun _ _ _ _ => .last (.note rfl (.pure rfl)))
  exact World.hasShard_of_mem_range k hk

/-! ## Comparing and hashing -/

omit hr in
theorem leads_reachAll (xs : List (SlotKey × Handle)) :
    Leads L (reachAll xs) w D (fun r => holds r.1 + D) E := by
  induction xs generalizing w D with
  | nil => exact .pure (Multiset.zero_add D).symm
  | cons x xs ih =>
    obtain ⟨key, h⟩ := x
    refine .bind (leads_reach h) fun e? w₁ _ _ => ?_
    cases e? with
    | none =>
      rw [holds_toList_none]
      exact .bind ih fun r _ _ _ => .pure rfl
    | some e =>
      rw [holds_toList_some]
      refine .bind ih fun r _ _ _ => .pure ?_
      rw [holds_cons, Multiset.cons_add, Multiset.add_cons]

theorem leads_reachableIn (es : List ElementId) (complete : Bool) (ks : List Nat) :
    Leads L (reachableIn run s es complete ks) w (holds es + D) (fun r => holds r.1 + D) D := by
  induction ks generalizing w es complete with
  | nil => exact .pure rfl
  | cons k ks ih =>
    have hk : Leads L (guarded s do reachAll (← look (·.shard s k)).entries) w (holds es + D)
        (fun r => holds r.1 + (holds es + D)) (holds es + D) :=
      leads_guarded_add fun _ => .look (leads_reachAll _)
    refine .attempt hk fun r w' _ _ => ?_
    rcases r with p | ⟨more, all⟩
    · exact .bind (leads_releaseAll hr es) fun _ _ _ _ => .throw rfl
    · have hd : due (fun r : List ElementId × Bool => holds r.1 + (holds es + D)) (holds es + D)
          (.ok (more, all)) = holds (es ++ more) + D := by
        rw [holds_append, Multiset.add_comm (holds es) (holds more), Multiset.add_assoc]
        rfl
      rw [hd]
      exact ih _ _

theorem leads_reachable : Leads L (reachable run s) w D (fun r => holds r.1 + D) D := by
  refine .look ?_
  have := leads_reachableIn hr (L := L) (w := w) (D := D) (s := s) [] true
  simpa using this _

theorem sweepsFirst_sameSets {s' : SetId} (hne : s ≠ s') (hs' : s' < w.sets.size) :
    SweepsFirst run s L (sameSets run s s') w D (fun _ => D) := by
  rw [sameSets, if_neg hne]
  refine .bind sweepsFirst_length fun n w₁ h₁ => ?_
  refine .bind (balanced_length hr (hs'.trans_le h₁.sets)) fun m w₂ _ h₂ => ?_
  split
  · exact .pure rfl
  · refine .bind (leads_reachable hr) fun r w₃ _ h₃ => balanced_holding hr ?_
    split
    · exact balanced_allOf fun e _ _ h₄ =>
        balanced_contains hr _ (hs'.trans_le (((h₁.trans h₂).trans h₃).trans h₄).sets)
    · exact .pure rfl

theorem balanced_sameSets {s' : SetId} (hs : s < w.sets.size) (hs' : s' < w.sets.size) :
    Balanced L (sameSets run s s') w D := by
  by_cases hne : s = s'
  · rw [sameSets, if_pos hne]
    exact .pure rfl
  · exact (sweepsFirst_sameSets hr hne hs').leads hr hs

theorem sweepsFirst_hashOf : SweepsFirst run s L (hashOf run s) w D (fun _ => D) :=
  ⟨_, rfl, fun _ _ => .bind (leads_reachable hr) fun _ _ _ _ =>
    balanced_holding hr (.last (.look (.pure rfl)))⟩

theorem balanced_hashOf (hs : s < w.sets.size) : Balanced L (hashOf run s) w D :=
  (sweepsFirst_hashOf hr).leads hr hs

end WeakSet
