import WeakSet.Proofs.Sweeping

/-!
# Probing is a course of moves

* `leads_probe`: a probe holds the references that it says it holds, and nothing else is due;
* `probe_none`: a probe that finds nothing has seen no living element of the value looked for, so
  there is none among the handles that it was to look at, whatever the comparisons did meanwhile;
* `leads_insertSection`, `leads_findSection`, `leads_removeSection`: the locked parts of the
  operations that probe.
-/

namespace WeakSet

open Act Duties

variable {L : Scene} {run : Runner} (hr : run.Sound) {w : World} {D E : Duties} {s : SetId}

include hr

theorem balanced_compareHook (e : ElementId) : Balanced L (compareHook run e) w D := by
  refine .look ?_
  split
  · exact .pure rfl
  · exact .look (.note rfl (hr _ _ _ _ _))

theorem balanced_sameElements (a b : ElementId) : Balanced L (sameElements run a b) w D :=
  .bind (balanced_compareHook hr a) fun _ _ _ _ =>
    .bind (balanced_compareHook hr b) fun _ _ _ _ => .last (.look (.pure rfl))

theorem balanced_matchesQuery (q : Query) (e : ElementId) :
    Balanced L (matchesQuery run q e) w D := by
  cases q with
  | value v => exact .last (.look (.pure rfl))
  | element e' => exact balanced_sameElements hr e e'

/-- A probe holds what it says. -/
theorem leads_probe (q : Query) (cs : List (SlotKey × Handle)) :
    Leads L (probe run q cs) w D (fun p => holds p.held + D) E := by
  induction cs generalizing w D with
  | nil => exact .pure (by simp)
  | cons c cs ih =>
    obtain ⟨key, h⟩ := c
    refine .bind (leads_reach h) fun e? w₁ _ _ => ?_
    cases e? with
    | none => rw [holds_toList_none]; exact ih
    | some e =>
      rw [holds_toList_some]
      refine .attempt (balanced_matchesQuery hr q e) fun r w₂ _ _ => ?_
      rcases r with p | b
      · exact .bind (leads_release hr e) fun _ _ _ _ => .pure (by simp)
      · cases b with
        | true => exact .pure (by simp [due])
        | false =>
          refine .bind ih fun p w₃ _ _ => .pure ?_
          simp [due]

omit hr in
theorem exec_probeShard (s : SetId) (k : Nat) (hash : UInt64) (q : Query) (w : World) :
    (probeShard run s k hash q).exec w = (probe run q ((w.shard s k).candidates hash)).exec w :=
  exec_bind_ok (exec_look _ w) _

theorem leads_probeShard (s : SetId) (k : Nat) (hash : UInt64) (q : Query) :
    Leads L (probeShard run s k hash q) w D (fun p => holds p.held + D) E :=
  .look (leads_probe hr q _)

omit hr in
theorem matchesQuery_false {q : Query} {e : ElementId} {w' : World}
    (h : (matchesQuery run q e).exec w = (.ok false, w')) : w'.value e ≠ q.target w' := by
  cases q with
  | value v =>
    simp only [matchesQuery, exec_look, Prod.mk.injEq, Except.ok.injEq, decide_eq_false_iff_not] at h
    obtain ⟨hv, rfl⟩ := h
    exact hv
  | element e' =>
    simp only [matchesQuery, sameElements, exec_bind_eq_ok, exec_look, Prod.mk.injEq,
      Except.ok.injEq, decide_eq_false_iff_not] at h
    obtain ⟨_, _, _, _, _, _, hv, rfl⟩ := h
    exact hv

omit hr in
theorem dead_of_reach_none {h : Handle} (hk : h.kind = .weak) {w' : World}
    (hn : (reach h).exec w = (.ok none, w')) : ¬ w.isAlive h.element := by
  intro ha
  simp only [reach, hk, upgrade, exec_update, ha, ite_true, Prod.mk.injEq, Except.ok.injEq,
    reduceCtorEq, false_and] at hn

omit hr in
theorem target_later {q : Query} {w' : World} (hl : World.Later w w')
    (hq : ∀ e, q = .element e → e < w.cells.size) : q.target w' = q.target w := by
  cases q with
  | value _ => rfl
  | element e => exact hl.value (hq e rfl)

/-- A probe that finds nothing has seen no living element of the value looked for. -/
theorem probe_none {q : Query} {cs : List (SlotKey × Handle)} (hs : w.Point D)
    (hq : ∀ e, q = .element e → e < w.cells.size) (hc : ∀ x ∈ cs, x.2.element < w.cells.size)
    {p : Probe} {w' : World} (h : (probe run q cs).exec w = (.ok p, w')) (hp : p.found = .ok none) :
    ∀ x ∈ cs, x.2.kind = .weak → w'.isAlive x.2.element → w'.value x.2.element ≠ q.target w' := by
  induction cs generalizing w D p with
  | nil => simp
  | cons c cs ih =>
    obtain ⟨key, hd⟩ := c
    have he := hc (key, hd) (by simp)
    have hc' : ∀ x ∈ cs, x.2.element < w.cells.size := fun x hx => hc x (by simp [hx])
    obtain ⟨e?, w₁, h₁, h⟩ := exec_bind_eq_ok.mp h
    have c₁ := (leads_reach (L := .idle) (E := D) hd).ok h₁ hs (.idle _)
    have s₁ := c₁.point hs
    have l₁ := c₁.later hs.sane
    cases e? with
    | none =>
      rw [holds_toList_none] at s₁
      have c₂ := (leads_probe hr (L := .idle) (E := D) q cs).ok h s₁ (.idle _)
      intro x hx hk ha
      rcases List.mem_cons.mp hx with rfl | hx
      · exact absurd ha ((l₁.trans (c₂.later s₁.sane)).dead_of_not_isAlive he (dead_of_reach_none hk h₁))
      · exact ih s₁ (fun e hqe => (hq e hqe).trans_le l₁.cells)
          (fun x hx => (hc' x hx).trans_le l₁.cells) h hp x hx hk ha
    | some e =>
      obtain rfl := (yields_reach hd _ _ _ h₁ e rfl).1
      rw [holds_toList_some] at s₁
      obtain ⟨r, w₂, h₂, h⟩ := exec_bind_eq_ok.mp h
      rw [exec_attempt_eq_ok] at h₂
      rcases r with _ | b
      · obtain ⟨_, _, -, h⟩ := exec_bind_eq_ok.mp h
        obtain ⟨rfl, -⟩ := exec_pure_eq_ok.mp h
        cases hp
      · have c₂ := (balanced_matchesQuery hr (L := .idle) q hd.element).ok h₂ s₁ (.idle _)
        have s₂ := c₂.point s₁
        have l₂ := l₁.trans (c₂.later s₁.sane)
        cases b with
        | true =>
          obtain ⟨rfl, -⟩ := exec_pure_eq_ok.mp h
          cases hp
        | false =>
          obtain ⟨p', w₃, h₃, h⟩ := exec_bind_eq_ok.mp h
          obtain ⟨rfl, rfl⟩ := exec_pure_eq_ok.mp h
          have l₃ := ((leads_probe hr (L := .idle) (E := D) q cs).ok h₃ s₂ (.idle _)).later s₂.sane
          intro x hx hk ha
          rcases List.mem_cons.mp hx with rfl | hx
          · rw [l₃.value (he.trans_le l₂.cells),
              target_later l₃ fun e hqe => (hq e hqe).trans_le l₂.cells]
            exact matchesQuery_false h₂
          · exact ih s₂ (fun e hqe => (hq e hqe).trans_le l₂.cells)
              (fun x hx => (hc' x hx).trans_le l₂.cells) h₃ hp x hx hk ha

/-! ## The locked parts of operations -/

section Locked

variable {α : Type} {q : Query} {go : UInt64 → Nat → Option SlotKey → Act α}

omit hr in
/-- An operation that finds its set unlocked probes the shard of its query under the lock, and goes on
there with what it found. -/
theorem exec_probeThen {hash : UInt64} {k : Nat} {p : Probe} {v : World} (hn : s ∉ w.entered)
    (hl : (locus s q).exec w = (.ok (hash, k), w))
    (hp : (probeShard run s k hash q).exec (w.lock s) = (.ok p, v)) :
    (probeThen run s q go).exec w = match p.found with
      | .error e => (.ok ⟨p.held, .error e⟩, v.unlock s)
      | .ok found => (((go hash k found).exec v).1.map fun r => ⟨p.held, .ok r⟩,
          ((go hash k found).exec v).2.unlock s) := by
  rw [probeThen, exec_bind_ok hl, exec_guarded_of_not_mem hn, exec_bind_ok hp]
  rcases p.found with e | found
  · rfl
  · simp only
    rw [exec_bind]
    rcases (go hash k found).exec v with ⟨_ | r, v'⟩ <;> rfl

omit hr in
/-- If the locked part of an operation comes to something, then its probe did, and what follows it. -/
theorem exec_probeThen_eq_ok {w' : World} {x : Section α} {r : α}
    (h : (probeThen run s q go).exec w = (.ok x, w')) (hx : x.result = .ok r) :
    s ∉ w.entered ∧ ∃ hash k p found v v', (probeShard run s k hash q).exec (w.lock s) = (.ok p, v) ∧
      p.found = .ok found ∧ (go hash k found).exec v = (.ok r, v') ∧ x.held = p.held ∧
      v'.unlock s = w' := by
  obtain ⟨⟨hash, k⟩, w₀, h₀, h⟩ := exec_bind_eq_ok.mp h
  obtain ⟨-, rfl⟩ := Prod.mk.injEq .. ▸ h₀
  obtain ⟨hn, v', hg, rfl⟩ := exec_guarded_eq_ok.mp h
  obtain ⟨p, v, hp, hg⟩ := exec_bind_eq_ok.mp hg
  refine ⟨hn, hash, k, p, ?_⟩
  rcases hf : p.found with e | found <;> rw [hf] at hg
  · obtain ⟨rfl, -⟩ := exec_pure_eq_ok.mp hg
    cases hx
  · obtain ⟨r', v₁, hgo, hend⟩ := exec_bind_eq_ok.mp hg
    obtain ⟨rfl, rfl⟩ := exec_pure_eq_ok.mp hend
    obtain rfl := Except.ok.inj hx
    exact ⟨found, v, _, hp, rfl, hgo, rfl, rfl⟩

end Locked

/-- What a section leaves due: its references, and what comes with its result. -/
def Section.due {α : Type} (G : α → Duties) (x : Section α) : Duties :=
  holds x.held + match x.result with
    | .ok r => G r
    | .error _ => 0

/-- What is known when a probe is done: it was made under the lock of the set, in the shard where
the query belongs. -/
structure Probed (run : Runner) (L : Scene) (s : SetId) (q : Query) (w : World) (D : Duties)
    (hash : UInt64) (k : Nat) (found : Option SlotKey) (w' : World) (p : Probe) : Prop where
  point : (w.lock s).Point D
  on : (L.lock s).On (w.lock s)
  free : s ∉ L.locked
  hashed : hash = (w.collection s).scheme.hash (q.target w)
  placed : k = shardOf (w.shardCount s) hash
  probed : (probeShard run s k hash q).exec (w.lock s) = (.ok p, w')
  outcome : p.found = .ok found
  course : Course (L.lock s) (w.lock s, D) (w', holds p.held + D)

/-- A probe and what follows it under the same lock. -/
theorem leads_probeThen {α : Type} {q : Query} {go : UInt64 → Nat → Option SlotKey → Act α}
    {G : α → Duties}
    (hgo : ∀ E hash k found w' p, E = .leave s ::ₘ D → Probed run L s q w E hash k found w' p →
      Leads L (go hash k found) w' (holds p.held + E) (fun x => holds p.held + (G x + E)) E) :
    Leads L (probeThen run s q go) w D (fun x => x.due G + D) D := by
  refine .intro fun _ he => .look (leads_guarded_add fun hs => .intro fun hw' _ => ?_)
  have hon : (L.lock s).On (w.lock s) := he.lock s
  have hp := fun hash k => leads_probeShard hr (L := L.lock s) (w := w.lock s)
    (D := .leave s ::ₘ D) (E := .leave s ::ₘ D) s k hash q
  refine .bind ((hp _ _).mono (L.le_lock s) hon) fun p w' hx _ => ?_
  rcases hf : p.found with e | found
  · exact .pure (by simp [Section.due])
  · refine .bind (hgo _ _ _ found w' p rfl ⟨hw', hon, hs, rfl, rfl, hx, hf, (hp _ _).ok hx hw' hon⟩)
      fun x w'' _ _ => .pure (Multiset.add_assoc _ _ _).symm

omit hr in
theorem shardOf_lt {n : Nat} (h : 0 < n) (hash : UInt64) : shardOf n hash < n :=
  Nat.lt_of_le_of_lt Nat.and_le_right (Nat.sub_lt h Nat.zero_lt_one)

/-- What a probe for an element did not find, the set may come to have. -/
theorem Probed.admits {e : ElementId} {hash : UInt64} {k : Nat} {w' : World} {p : Probe}
    (h : Probed run L s (.element e) w D hash k none w' p) (hu : L.Uses s)
    (he : e < w.cells.size) :
    w'.Admits s k ⟨e, hash, (w'.collection s).settings.kind⟩ := by
  have hu' : (L.lock s).Uses s := hu.mono (L.le_lock s)
  have hs : s < w.sets.size := h.on.lt_size hu'
  have hlock : World.Later w (w.lock s) := .of_cells rfl rfl le_rfl List.prefix_rfl
  have hl : World.Later w w' := hlock.trans (h.course.later h.point.sane)
  have hw' := h.course.point h.point
  have hsh : ∀ k, w'.shard s k = w.shard s k :=
    h.course.shard h.point.sane List.mem_cons_self hs
  have hhash : hash = (w'.collection s).scheme.hash (w'.value e) := by
    rw [hl.scheme hs, hl.value he]; exact h.hashed
  refine ⟨(h.course.on h.on).isLive hu', ⟨hs.trans_le hl.sets, ?_⟩, rfl, hhash, ?_,
    fun hk t h' hh ht ha hv => ?_⟩
  · rw [hl.shardCount hs, h.placed]
    exact shardOf_lt (h.point.formed.roomy s hs) _
  · rw [hl.shardCount hs]; exact h.placed
  · subst ht
    have hfit := hw'.formed.fits t h' hh
    have hhash' : h'.hash = hash := by rw [hfit.hash, hv, ← hhash]
    have hplace : t.shard = k := by rw [hfit.place, hhash', hl.shardCount hs, ← h.placed]
    have hget : (w.shard t.owner k).get? t.key = some h' := by
      rw [← hsh, ← hplace]; exact hh
    have hc : (t.key, h') ∈ (w.shard t.owner k).candidates hash :=
      (h.point.formed.shards t.owner k).mem_candidates.mpr ⟨hget, hhash'⟩
    refine probe_none hr h.point (by rintro _ ⟨⟩; exact he) (fun x hx => ?_) h.probed h.outcome
      _ hc (hfit.kind.trans hk) ha hv
    have hx' := ((h.point.formed.shards t.owner k).mem_candidates.mp hx).1
    exact (h.point.formed.fits ⟨t.owner, k, x.1⟩ x.2 hx').element

/-- The locked part of an insertion of an element that somebody holds into a set in use. -/
theorem leads_insertSection {e : ElementId} (hu : L.Uses s) (he : .hold e ∈ D) :
    Leads L (insertSection run s e) w D (fun x => x.due (fun _ => 0) + D) D := by
  refine leads_probeThen hr fun E hash k found w' p hE hp => ?_
  cases found with
  | some key => exact .pure (by rw [Multiset.zero_add])
  | none =>
    have he : .hold e ∈ E := hE ▸ Multiset.mem_cons_of_mem he
    have ha := hp.admits hr hu (World.lt_size_of_strong
      (World.isAlive_iff.mp (hp.point.counted.isAlive_of_hold he)))
    obtain ⟨D', rfl⟩ := Multiset.exists_cons_of_mem he
    have hm : Move L (w', .hold e ::ₘ (holds p.held + D')) (_, .hold e ::ₘ (holds p.held + D')) :=
      .store hp.free ha
    rw [Multiset.zero_add, Multiset.add_cons]
    exact .map (.last (.update (.single hm) (.pure rfl)))

/-- The handle that an insertion comes to is stored, under a new ticket. -/
theorem stored_of_insertSection {e : ElementId} {t : Ticket} {w' : World}
    {x : Section (Option Ticket)} (hw : w.Point D) (h : (insertSection run s e).exec w = (.ok x, w'))
    (hx : x.result = .ok (some t)) :
    t.owner = s ∧ ¬ w.Issued t ∧ .stored t e ∈ w'.journal.toList := by
  obtain ⟨hn, hash, k, p, found, v, v', hp, -, hgo, -, rfl⟩ := exec_probeThen_eq_ok h hx
  have hlock : Course .idle (w, D) (w.lock s, .leave s ::ₘ D) := .single (.enter hn)
  have hw' := hlock.point hw
  have hl : World.Later w v := (hlock.later hw.sane).trans
    (((leads_probeShard hr (L := .idle) (E := 0) s k hash _).ok hp hw' (.idle _)).later hw'.sane)
  cases found with
  | some key => cases (exec_pure_eq_ok.mp hgo).1
  | none =>
    rw [exec_map, exec_update, Prod.mk.injEq] at hgo
    obtain ⟨ht, rfl⟩ := hgo
    obtain rfl := Option.some.inj (Except.ok.inj ht)
    refine ⟨rfl, fun hi => World.not_issued_nextTicket _ (hl.issued _ hi), ?_⟩
    rw [World.unlock, World.store_eq]
    simp [World.store_fst]

omit hr in
/-- What a probe finds is one of the handles that it was to look at, one that shows its element, and the
element is held. -/
theorem yields_probe (q : Query) (cs : List (SlotKey × Handle)) :
    Yields (probe run q cs) fun p => ∀ key, p.found = .ok (some key) →
      ∃ h, (key, h) ∈ cs ∧ h.kind = .weak ∧ h.element ∈ p.held := by
  induction cs with
  | nil => exact .pure (by simp)
  | cons c cs ih =>
    obtain ⟨key, h⟩ := c
    refine .bind (yields_reach h) fun e? he => ?_
    cases e? with
    | none =>
      refine ih.imp fun p hp key' hk => ?_
      obtain ⟨h', hm, hw⟩ := hp key' hk
      exact ⟨h', List.mem_cons_of_mem _ hm, hw⟩
    | some e =>
      refine .seq fun r => ?_
      rcases r with p | b
      · exact .seq fun _ => .pure (by simp)
      · cases b with
        | true =>
          refine .pure fun key' hk => ⟨h, ?_, (he e rfl).2, ?_⟩
          · obtain rfl := Option.some.inj (Except.ok.inj hk)
            exact List.mem_cons_self
          · rw [(he e rfl).1]
            exact List.mem_singleton_self _
        | false =>
          refine .bind ih fun p hp => .pure fun key' hk => ?_
          obtain ⟨h', hm, hw, hheld⟩ := hp key' hk
          exact ⟨h', List.mem_cons_of_mem _ hm, hw, List.mem_cons_of_mem _ hheld⟩

omit hr in
/-- The handle that a probe found shows its element. -/
theorem Probed.weak {q : Query} {hash : UInt64} {k : Nat} {key : SlotKey} {w' : World} {p : Probe}
    (h : Probed run L s q w D hash k (some key) w' p) {hd : Handle}
    (hh : w'.handle? ⟨s, k, key⟩ = some hd) : hd.kind = .weak := by
  have hprobed := h.probed
  rw [exec_probeShard] at hprobed
  obtain ⟨h', hm, hk, -⟩ := yields_probe q _ _ _ _ hprobed key h.outcome
  have hh' : w.handle? ⟨s, k, key⟩ = some h' := ((h.point.formed.shards s k).mem_candidates.mp hm).1
  have hsh : w'.shard s k = w.shard s k :=
    h.course.shard h.point.sane List.mem_cons_self (World.hasShard_of_handle? hh').1 k
  have he : w'.handle? ⟨s, k, key⟩ = w.handle? ⟨s, k, key⟩ :=
    congrArg (fun sh : Shard => sh.get? key) hsh
  obtain rfl : hd = h' := Option.some.inj (hh.symm.trans (he.trans hh'))
  exact hk

/-- The ticket that a lookup comes to is that of an element that it holds. -/
theorem stored_of_findSection {q : Query} {t : Ticket} {w' : World} {x : Section (Option Ticket)}
    (hw : w.Point D) (h : (findSection run s q).exec w = (.ok x, w')) (hx : x.result = .ok (some t)) :
    ∃ e ∈ x.held, .stored t e ∈ w'.journal.toList := by
  obtain ⟨hn, hash, k, p, found, v, v', hp, hf, hgo, hheld, rfl⟩ := exec_probeThen_eq_ok h hx
  have hlock : Course .idle (w, D) (w.lock s, .leave s ::ₘ D) := .single (.enter hn)
  have hw' := hlock.point hw
  have hl := ((leads_probeShard hr (L := .idle) (E := 0) s k hash q).ok hp hw' (.idle _)).later
    hw'.sane
  obtain ⟨hkey, rfl⟩ := exec_pure_eq_ok.mp hgo
  obtain ⟨key, rfl, rfl⟩ := Option.map_eq_some_iff.mp hkey
  rw [exec_probeShard] at hp
  obtain ⟨h', hm, -, hin⟩ := yields_probe q _ _ _ _ hp key hf
  have hget := ((hw'.formed.shards s k).mem_candidates.mp hm).1
  exact ⟨h'.element, hheld ▸ hin, hl.mem_journal (hw'.recorded.stored ⟨s, k, key⟩ h' hget)⟩

theorem leads_findSection (q : Query) :
    Leads L (findSection run s q) w D (fun x => x.due (fun _ => 0) + D) D :=
  leads_probeThen hr fun _ _ _ _ _ _ _ _ => .pure (by rw [Multiset.zero_add])

/-- What is left to do with what a removal took out. -/
def removedDue : Option (Ticket × Handle) → Duties
  | none => 0
  | some (t, h) => .unwatch t h.element ::ₘ 0

theorem leads_removeSection (q : Query) :
    Leads L (removeSection run s q) w D (fun x => x.due removedDue + D) D := by
  refine leads_probeThen hr fun E hash k found w' p _ hp => ?_
  cases found with
  | none => exact .pure (by simp [removedDue])
  | some key =>
    refine .last (.update ?_ (.pure rfl))
    have hf := World.takeOut_fst w' ⟨s, k, key⟩ .removed
    rcases e : w'.takeOut ⟨s, k, key⟩ .removed with ⟨_ | h, w''⟩ <;> rw [e] at hf
    · have hw := w'.takeOut_none hf.symm .removed
      rw [e] at hw
      obtain rfl := hw
      simpa [e, removedDue] using Relation.ReflTransGen.refl
    · have hm : Move L (w', holds p.held + E) ((w'.takeOut ⟨s, k, key⟩ .removed).2, _) :=
        .takeOut hp.free hf.symm (hp.weak hf.symm)
      rw [e] at hm
      simpa [e, removedDue] using Relation.ReflTransGen.single hm

end WeakSet
