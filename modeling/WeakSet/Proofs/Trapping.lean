import WeakSet.Proofs.Spilling

/-!
# No destructor runs under the lock of a probe

`Runner.trapping` replaces what destructors do that an operation runs while a set is locked. `Agree` says
that this makes no difference to an act that begins while the set is not locked, unless a comparison
under the lock panics. Every command that probes the set is such an act (`perform_trapping`). With what
is known of the references themselves and of operations that find their set unlocked this is
`Session.probe_references_outlive_lock`.
-/

namespace WeakSet

open Act

/-- Runs destructors by `trap` while a shard of set `s` is locked, and all else by `run`. -/
def Runner.trapping (run : Runner) (s : SetId) (trap : Script → Act Unit) : Runner
  | .destructor, script => do
    if (← look World.entered).contains s then trap script else run .destructor script
  | role, script => run role script

/-- On the way from world `w` to world `v`, an element was compared while set `s` was locked, as the
journal says, and its script panicked with `p`. -/
def BrokenComparison (run : Runner) (s : SetId) (w : World) (p : Panic) (v : World) : Prop :=
  ∃ e script u u', u.onEqual e = some script ∧ s ∈ u.entered ∧
    (∃ l, u.journal.toList = w.journal.toList ++ l ++ [.compared (u.face e).tag]) ∧
    (run .equality script).exec u = (.error p, u') ∧ u'.journal.toList <+: v.journal.toList

/-- Two acts give back all locks, and come to the same where set `s` is not locked. Only if `c` they need
not where the first ends with the panic of a comparison under the lock on `s`. -/
structure Agree {α : Type} (run : Runner) (s : SetId) (c : Prop) (a b : Act α) : Prop where
  returns : ∀ j n F, Preserves (Condition.locking j True n F) a
  same : ∀ w, s ∉ w.entered → b.exec w = a.exec w ∨
    c ∧ ∃ p v, a.exec w = (.error p, v) ∧ BrokenComparison run s w p v

variable {run : Runner} {s : SetId} {c : Prop} {w w' v v' : World} {p : Panic} {α β : Type}

theorem BrokenComparison.mono (h : BrokenComparison run s w p v)
    (hw : w'.journal.toList <+: w.journal.toList) (hv : v.journal.toList <+: v'.journal.toList) :
    BrokenComparison run s w' p v' := by
  obtain ⟨e, script, u, u', he, hs, ⟨l, hl⟩, hx, hj⟩ := h
  obtain ⟨l', hl'⟩ := hw
  exact ⟨e, script, u, u', he, hs, ⟨l' ++ l, by rw [hl, ← hl']; simp⟩, hx, hj.trans hv⟩

/-- What an act that gives back all locks leaves of the locks and the journal. -/
theorem Act.locking_exec {a : Act α} (ha : ∀ j n F, Preserves (Condition.locking j True n F) a)
    (w : World) : (a.exec w).2.entered = w.entered ∧
      w.journal.toList <+: (a.exec w).2.journal.toList :=
  Preserves.exec (ha w.journal.toList { locks := w.entered } 0) ⟨rfl, List.prefix_rfl⟩

namespace Agree

variable {a b : Act α}

theorem refl (h : ∀ j n F, Preserves (Condition.locking j True n F) a) : Agree run s c a a :=
  ⟨h, fun _ _ => .inl rfl⟩

theorem pure {x : α} : Agree run s c (pure x) (pure x) :=
  .refl fun _ _ _ => .pure fun _ h => h

theorem throw {p : Panic} : Agree run s c (throw p : Act α) (throw p) :=
  .refl fun _ _ _ => .throw fun _ h => h

theorem weaken {c' : Prop} (hc : c → c') (h : Agree run s c a b) : Agree run s c' a b :=
  ⟨h.returns, fun w hs => (h.same w hs).imp_right fun hx => ⟨hc hx.1, hx.2⟩⟩

/-- What two acts come to after something that gave back all locks. -/
theorem same_after (h : Agree run s c a b) (hs : s ∉ w.entered)
    (hv : v.entered = w.entered ∧ w.journal.toList <+: v.journal.toList) :
    b.exec v = a.exec v ∨ c ∧ ∃ p v', a.exec v = (.error p, v') ∧ BrokenComparison run s w p v' := by
  refine (h.same v (by rwa [hv.1])).imp_right (.imp_right ?_)
  rintro ⟨p, v', hx, hb⟩
  exact ⟨p, v', hx, hb.mono hv.2 List.prefix_rfl⟩

theorem bind {f g : α → Act β} (ha : Agree run s c a b) (hf : ∀ x, Agree run s c (f x) (g x)) :
    Agree run s c (a >>= f) (b >>= g) := by
  refine ⟨fun j n F => .bind (ha.returns j n F) fun x => (hf x).returns j n F, fun w hs => ?_⟩
  have hl := locking_exec ha.returns w
  rcases ha.same w hs with h | ⟨hc, p, v, h, hb⟩
  · rw [exec_bind, exec_bind, h]
    rcases hx : a.exec w with ⟨p | x, v⟩
    · exact .inl rfl
    · rw [hx] at hl
      exact (hf x).same_after hs hl
  · exact .inr ⟨hc, p, v, exec_bind_error h _, hb⟩

theorem map {f : α → β} (ha : Agree run s c a b) : Agree run s c (f <$> a) (f <$> b) := by
  rw [← bind_pure_comp, ← bind_pure_comp]
  exact ha.bind fun _ => .pure

theorem discard (ha : Agree run s c a b) : Agree run s c (discard a) (discard b) :=
  ha.map

theorem settle (run : Runner) (s : SetId) (c : Prop) (r : Except Panic α) :
    Agree run s c (settle r) (settle r) := by
  cases r
  · exact .throw
  · exact .pure

theorem look {γ : Type} {f : World → γ} {g g' : γ → Act α} (h : ∀ x, Agree run s c (g x) (g' x)) :
    Agree run s c (look f >>= g) (look f >>= g') :=
  .bind (.refl fun _ _ _ => .last (.look fun _ => .pure fun _ h => h.1)) h

/-- Two acts that agree without exception, whose panic is caught, and others after them. -/
theorem attempt {f g : Except Panic α → Act β} (ha : Agree run s False a b)
    (hf : ∀ r, Agree run s c (f r) (g r)) :
    Agree run s c (attempt a >>= f) (attempt b >>= g) := by
  refine .bind ⟨fun j n F => ?_, fun w hs => ?_⟩ hf
  · refine .last (.attempt (ha.returns j n F) fun r => ?_)
    rw [after_same]
    exact .pure fun _ h => h
  · rw [exec_attempt, exec_attempt, (ha.same w hs).resolve_right fun h => h.1]
    exact .inl rfl

theorem foldlM {γ : Type} {f g : β → γ → Act β} {xs : List γ}
    (h : ∀ b, ∀ x ∈ xs, Agree run s c (f b x) (g b x)) (b : β) :
    Agree run s c (xs.foldlM f b) (xs.foldlM g b) := by
  induction xs generalizing b with
  | nil => exact .pure
  | cons x xs ih =>
    rw [List.foldlM_cons, List.foldlM_cons]
    exact .bind (h b x (by simp)) fun b' => ih (fun c y hy => h c y (by simp [hy])) b'

end Agree

/-! ## Operations -/

section Run

variable (hr : ∀ j, run.Returns j True) (trap : Script → Act Unit)

include hr

/-- A reference that is let go of while the set is not locked. -/
theorem agree_release (e : ElementId) :
    Agree run s c (release run e) (release (run.trapping s trap) e) := by
  refine ⟨fun j n F w h => ?_, fun w hs => .inl ?_⟩
  · rw [after_same]
    exact (lends_locking (hr j)).release (e := e) h
  · rw [release, release, exec_bind, exec_bind, exec_update]
    rcases h : w.release e with ⟨_ | script, w'⟩
    · rfl
    · have hw' : w'.entered.contains s = false := by
        have : w'.entered = w.entered := by
          have := congrArg World.entered (World.release_eq w e)
          rwa [h] at this
        rw [this]
        simpa using hs
      have hrun : (run.trapping s trap .destructor script).exec w' =
          (run .destructor script).exec w' := by
        rw [Runner.trapping, exec_bind, exec_look]
        simp only [hw', Bool.false_eq_true, ite_false]
      simp only [exec_discard, exec_attempt, hrun]

theorem agree_releaseAll (es : List ElementId) :
    Agree run s c (releaseAll run es) (releaseAll (run.trapping s trap) es) := by
  induction es with
  | nil => exact .pure
  | cons e es ih => exact .bind (agree_release hr trap e) fun _ => ih

theorem agree_holding {es : List ElementId} {a b : Act α} (ha : Agree run s c a b) :
    Agree run s c (holding run es a) (holding (run.trapping s trap) es b) := by
  have hrel := agree_releaseAll (s := s) (c := c) hr trap es
  refine ⟨fun j n F => .attempt (ha.returns j n F) fun r => ?_, fun w hs => ?_⟩
  · rw [after_same]
    exact .bind (hrel.returns j n F) fun _ => (Agree.settle run s c r).returns j n F
  · have hl := locking_exec ha.returns w
    rcases ha.same w hs with h | ⟨hc, p, v, h, hb⟩
    · rw [holding, holding, exec_bind, exec_bind, exec_attempt, exec_attempt, h]
      exact (hrel.bind fun _ => Agree.settle run s c (a.exec w).1).same_after hs hl
    · obtain ⟨v', hv'⟩ := exec_releaseAll run es v
      have hj := (locking_exec hrel.returns v).2
      rw [hv'] at hj
      refine .inr ⟨hc, p, v', ?_, hb.mono List.prefix_rfl hj⟩
      rw [holding, exec_bind, exec_attempt, h]
      exact exec_bind_ok hv' _

/-! ### Sweeping -/

theorem agree_listen (s' : SetId) (i : Nat) :
    Agree run s False (listen run s' i) (listen (run.trapping s trap) s' i) := by
  refine .attempt (.look fun c => ?_) fun r => ?_
  · split
    · exact .pure
    · exact .refl fun j n F => (hr j n F .listener _).forget
  · refine .bind (.refl fun j n F => .last (.update (R := fun _ => Condition.locking j True n F)
      (fun w h => ⟨h.1, h.2⟩) fun _ => .pure fun _ h => h)) fun left => ?_
    rcases left.bind Record.last with _ | e
    · exact .settle run s _ r
    · exact .bind (agree_release hr trap e) fun _ => .settle run s _ r

theorem agree_sweepOne (s' : SetId) (b : Batch) (t : Ticket) :
    Agree run s False (sweepOne run s' b t) (sweepOne (run.trapping s trap) s' b t) := by
  have hlog (l : LogLine) : Agree run s False (log l) (log l) :=
    .refl fun j n F => .last (.note (fun _ h => World.locking_note h) (.pure fun _ h => h))
  refine .look fun foreign => ?_
  split
  · exact .bind (hlog _) fun _ => .pure
  · refine .bind (.refl fun j n F => ((upheld_locking (hr j) t.owner).takeOutOne rfl
      fun _ => trivial).forget) fun h? => ?_
    cases h? with
    | none => exact .pure
    | some h =>
      refine .bind (.refl fun j n F => ((kept_locking (hr j) t.owner).closeBooks (n := n) (F := F) rfl h).post
        (fun _ _ h => h.1) fun _ h => h) fun r => ?_
      have hreport : Agree run s False (report run s' r) (report (run.trapping s trap) s' r) := by
        refine .bind (.refl fun j n F => ?_) fun i => .look fun last => .look fun named =>
          .bind (.refl fun j n F => ?_) fun _ => .bind (.refl fun j n F => ?_) fun _ =>
            agree_listen hr trap s' i
        · exact .last (.update (R := fun _ => Condition.locking j True n F)
            (fun w h => ⟨h.1, h.2⟩) fun _ => .pure fun _ h => h)
        · exact .last (.note (fun w h => World.locking_note h) (.pure fun _ h => h))
        · exact .last (.change (R := Condition.locking j True n F) (fun w h => ⟨h.1, h.2⟩)
            (.pure fun _ h => h))
      refine .attempt hreport fun outcome => ?_
      cases outcome with
      | ok _ => exact .look fun _ => .pure
      | error p => exact .bind (hlog _) fun _ => .look fun _ => .pure

theorem agree_sweep (s' : SetId) :
    Agree run s c (sweep run s') (sweep (run.trapping s trap) s') := by
  refine .weaken False.elim (.bind (.refl fun j n F => .last (.update
    (R := fun _ => Condition.locking j True n F) (fun w h => ?_) fun _ => .pure fun _ h => h))
    fun batch => .bind (.foldlM (fun b t _ => agree_sweepOne hr trap s' b t) _) fun b => ?_)
  · exact ((kept_locking (hr j) s').takeNotices h).1
  · exact .refl fun j n F => .imp ((upheld_locking (hr j) s').closeBatch b).forget
      fun w h => ⟨h, fun _ => .inl trivial⟩

theorem agree_swept (s' : SetId) {a b : Act α} (ha : Agree run s c a b) :
    Agree run s c (discard (sweep run s') >>= fun _ => a)
      (discard (sweep (run.trapping s trap) s') >>= fun _ => b) :=
  .bind (.discard (agree_sweep hr trap s')) fun _ => ha

/-! ### Probing -/

omit hr in
theorem matchesQuery_trapping (q : Query) (e : ElementId) :
    matchesQuery (run.trapping s trap) q e = matchesQuery run q e := rfl

omit hr in
/-- A comparison under a lock panics with the panic of a script. -/
theorem broken_of_compareHook {e : ElementId} (hs : s ∈ w.entered)
    (h : (compareHook run e).exec w = (.error p, v)) : BrokenComparison run s w p v := by
  rw [compareHook, exec_bind_ok (exec_look _ w)] at h
  cases he : w.onEqual e with
  | none =>
    rw [he] at h
    cases h
  | some script =>
    rw [he, exec_bind_ok (exec_look _ w)] at h
    exact ⟨e, script, w.note (.compared (w.face e).tag), v, he, hs,
      ⟨[], by simp [World.note, World.face]⟩, h, List.prefix_rfl⟩

theorem broken_of_matchesQuery {q : Query} {e : ElementId} (hs : s ∈ w.entered)
    (h : (matchesQuery run q e).exec w = (.error p, v)) : BrokenComparison run s w p v := by
  cases q with
  | value _ => cases h
  | element e' =>
    rw [matchesQuery, sameElements, exec_bind] at h
    rcases hx : (compareHook run e).exec w with ⟨p' | _, u⟩ <;> rw [hx] at h
    · cases h
      exact broken_of_compareHook hs hx
    · have hl := locking_exec (fun j n F => ((kept_locking (hr j) s).compareHook e).forget) w
      rw [hx] at hl
      simp only [exec_bind] at h
      rcases hy : (compareHook run e').exec u with ⟨p' | _, u'⟩ <;> rw [hy] at h
      · cases h
        exact (broken_of_compareHook (by rw [hl.1]; exact hs) hy).mono hl.2 List.prefix_rfl
      · cases h

/-- What a probe comes to does not depend on destructors unless a comparison panics. -/
theorem probe_trapping (q : Query) (cs : List (SlotKey × Handle)) (hs : s ∈ w.entered) :
    (probe (run.trapping s trap) q cs).exec w = (probe run q cs).exec w ∨
      ∃ x v e, (probe run q cs).exec w = (.ok x, v) ∧ x.found = .error e ∧
        BrokenComparison run s w e v := by
  induction cs generalizing w with
  | nil => exact .inl rfl
  | cons y cs ih =>
    obtain ⟨key, h⟩ := y
    have hl₁ := locking_exec (a := reach h)
      (fun j n F => ((lends_locking (hr j)).reach h).post (fun _ _ h => h) fun _ h => h) w
    rcases hx : (reach h).exec w with ⟨p | o, w₁⟩ <;> rw [hx] at hl₁
    · exact .inl (by rw [probe, probe, exec_bind_error hx, exec_bind_error hx])
    have hs₁ : s ∈ w₁.entered := by rw [hl₁.1]; exact hs
    rw [probe, probe, exec_bind_ok hx, exec_bind_ok hx]
    cases o with
    | none =>
      refine (ih hs₁).imp_right ?_
      rintro ⟨x, v, e, hv, he, hb⟩
      exact ⟨x, v, e, hv, he, hb.mono hl₁.2 List.prefix_rfl⟩
    | some e =>
      have hl₂ := locking_exec
        (fun j n F => ((kept_locking (hr j) s).matchesQuery q e).forget) w₁
      simp only [matchesQuery_trapping, exec_bind, exec_attempt]
      rcases hm : (matchesQuery run q e).exec w₁ with ⟨p | b, w₂⟩ <;> rw [hm] at hl₂
      · obtain ⟨v, hv⟩ := exec_release run e w₂
        have hl₃ := locking_exec (agree_release (s := s) (c := False) hr trap e).returns w₂
        rw [hv] at hl₃
        refine .inr ⟨⟨[], .error p⟩, v, p, exec_bind_ok hv _, rfl, ?_⟩
        exact (broken_of_matchesQuery hr hs₁ hm).mono hl₁.2 hl₃.2
      · have hs₂ : s ∈ w₂.entered := by rw [hl₂.1]; exact hs₁
        cases b with
        | true => exact .inl rfl
        | false =>
          rcases ih hs₂ with h | ⟨x, v, p, hv, hp, hb⟩
          · exact .inl (by simp only [exec_bind, h])
          · refine .inr ⟨{ x with held := e :: x.held }, v, p, exec_bind_ok hv _, hp, ?_⟩
            exact hb.mono (hl₁.2.trans hl₂.2) List.prefix_rfl

/-- The locked part of an operation, and what lets go of its references. -/
theorem agree_closed {q : Query} {go : UInt64 → Nat → Option SlotKey → Act α}
    (hgo : ∀ j n F hash k found, Ensures (Condition.locking j True n F) (go hash k found)
      (fun _ => Condition.locking j True n F) fun _ => False) :
    Agree run s True (probeThen run s q go >>= fun x => x.close run)
      (probeThen (run.trapping s trap) s q go >>= fun x => x.close (run.trapping s trap)) := by
  have hthen (j n F) : Ensures (Condition.locking j True n F) (probeThen run s q go)
      (Condition.Upheld.Closing (Condition.locking j True) n F (fun _ => 0) fun _ => True)
      fun w => Condition.locking j True n F w ∧ (Condition.locking j True).fails n s :=
    (upheld_locking (hr j) s).probeThen fun F hash k found =>
      (hgo j (n.lock s) F hash k found).post (fun _ _ h => ⟨h, trivial⟩) fun _ h => h
  have hclose (x : Section α) : Agree run s True (x.close run) (x.close (run.trapping s trap)) :=
    .bind (agree_releaseAll hr trap x.held) fun _ => .settle run s _ x.result
  refine ⟨fun j n F => .bind ((hthen j n F).post (fun _ _ h => h.holds) fun _ h => h.1) fun x =>
    (hclose x).returns j n F, fun w hs => ?_⟩
  have hl := locking_exec (fun j n F => (hthen j n F).post (fun _ _ h => h.holds) fun _ h => h.1) w
  let hash := (w.collection s).scheme.hash (q.target w)
  let k := shardOf (w.shardCount s) hash
  rcases probe_trapping hr trap q ((w.shard s k).candidates hash) (s := s) (w := w.lock s)
    List.mem_cons_self with h | ⟨x, v, e, hx, hf, hb⟩
  · have hshard : (probeShard (run.trapping s trap) s k hash q).exec (w.lock s) =
        (probeShard run s k hash q).exec (w.lock s) := by
      rw [exec_probeShard, exec_probeShard]
      exact h
    have hsame : (probeThen (run.trapping s trap) s q go).exec w = (probeThen run s q go).exec w := by
      rw [probeThen, probeThen, locus, exec_bind_ok (exec_look _ w), exec_bind_ok (exec_look _ w),
        exec_guarded_of_not_mem hs, exec_guarded_of_not_mem hs, exec_bind, exec_bind, hshard]
    rw [exec_bind, exec_bind, hsame]
    rcases hx : (probeThen run s q go).exec w with ⟨p | x, v⟩
    · exact .inl rfl
    · rw [hx] at hl
      exact (hclose x).same_after hs hl
  · have hshard : (probeShard run s k hash q).exec (w.lock s) = (.ok x, v) :=
      (exec_probeShard s k hash q _).trans hx
    have hsec : (probeThen run s q go).exec w = (.ok ⟨x.held, .error e⟩, v.unlock s) := by
      rw [exec_probeThen hs rfl hshard, hf]
    obtain ⟨v', hv'⟩ := exec_releaseAll run x.held (v.unlock s)
    have hj := (locking_exec (agree_releaseAll (s := s) (c := True) hr trap x.held).returns (v.unlock s)).2
    rw [hv'] at hj
    refine .inr ⟨trivial, e, v', ?_, hb.mono List.prefix_rfl hj⟩
    rw [exec_bind_ok hsec, Section.close, exec_bind_ok hv']
    rfl

theorem agree_inserted (e : ElementId) :
    Agree run s True (insertSection run s e >>= fun x => x.close run)
      (insertSection (run.trapping s trap) s e >>= fun x => x.close (run.trapping s trap)) := by
  refine agree_closed hr trap fun j n F hash k found => ?_
  cases found with
  | some _ => exact .pure fun _ h => h
  | none =>
    exact .map (.last (.update (fun w h => (kept_locking (hr j) s).store h) fun _ =>
      .pure fun _ h => h))

theorem agree_find (q : Query) :
    Agree run s True (find run s q) (find (run.trapping s trap) s q) :=
  agree_closed hr trap fun _ _ _ _ _ _ => .pure fun _ h => h

theorem agree_removed (q : Query) :
    Agree run s True (removeSection run s q >>= fun x => x.close run)
      (removeSection (run.trapping s trap) s q >>= fun x => x.close (run.trapping s trap)) := by
  refine agree_closed hr trap fun j n F hash k found => ?_
  cases found with
  | none => exact .pure fun _ h => h
  | some key =>
    refine .last (.update (R := fun _ => Condition.locking j True n F) (fun w h => ?_) fun _ =>
      .pure fun _ h => h)
    have h := World.locking_takeOut (t := ⟨s, k, key⟩) (d := .removed) h
    rcases hx : w.takeOut ⟨s, k, key⟩ .removed with ⟨_ | x, w'⟩ <;> rw [hx] at h
    · simpa [hx] using h
    · simpa [hx] using h

theorem agree_insert (e : ElementId) :
    Agree run s True (insert run s e) (insert (run.trapping s trap) s e) := by
  refine agree_swept hr trap s ?_
  rw [← bind_assoc, ← bind_assoc]
  refine .bind (agree_inserted hr trap e) fun t? => ?_
  cases t? with
  | none => exact .pure
  | some t => exact .bind (.refl fun j n F => (kept_locking (hr j) s).told (n := n) (F := F) rfl) fun _ => .pure

theorem agree_add (e : ElementId) :
    Agree run s True (add run s e) (add (run.trapping s trap) s e) :=
  .map (agree_insert hr trap e)

theorem agree_ticketOf (q : Query) :
    Agree run s True (ticketOf run s q) (ticketOf (run.trapping s trap) s q) :=
  agree_swept hr trap s (agree_find hr trap q)

theorem agree_contains (q : Query) :
    Agree run s True (contains run s q) (contains (run.trapping s trap) s q) :=
  .map (agree_ticketOf hr trap q)

theorem agree_remove (q : Query) :
    Agree run s True (remove run s q) (remove (run.trapping s trap) s q) := by
  refine agree_swept hr trap s ?_
  rw [← bind_assoc, ← bind_assoc]
  refine .bind (agree_removed hr trap q) fun y? => ?_
  cases y? with
  | none => exact .pure
  | some y =>
    exact .bind (.refl fun j n F => (upheld_locking (hr j) y.1.owner).bookRemoval rfl y.2) fun _ => .pure

omit hr in
theorem agree_anyOf {f g : β → Act Bool} {xs : List β} (h : ∀ x, Agree run s c (f x) (g x)) :
    Agree run s c (anyOf f xs) (anyOf g xs) :=
  .foldlM (fun _ x _ => .bind (h x) fun _ => .pure) _

omit hr in
theorem agree_allOf {f g : β → Act Bool} {xs : List β} (h : ∀ x, Agree run s c (f x) (g x)) :
    Agree run s c (allOf f xs) (allOf g xs) := by
  induction xs with
  | nil => exact .pure
  | cons x xs ih =>
    refine .bind (h x) fun b => ?_
    split
    · exact ih
    · exact .pure

theorem agree_containsAll (qs : List Query) :
    Agree run s True (containsAll run s qs) (containsAll (run.trapping s trap) s qs) := by
  unfold containsAll
  split
  · exact .pure
  · exact agree_allOf fun q => agree_contains hr trap q

/-! ### Comparing sets -/

theorem agree_length (s' : SetId) :
    Agree run s c (length run s') (length (run.trapping s trap) s') :=
  agree_swept hr trap s' (.refl fun j _ _ => (upheld_locking (hr j) s').count.forget)

theorem agree_reachableIn (s' : SetId) (es : List ElementId) (complete : Bool) (ks : List Nat) :
    Agree run s c (reachableIn run s' es complete ks)
      (reachableIn (run.trapping s trap) s' es complete ks) := by
  induction ks generalizing es complete with
  | nil => exact .pure
  | cons k ks ih =>
    refine .attempt (.refl fun j n F => ?_) fun r => ?_
    · exact ((upheld_locking (hr j) s').guarded (Q := fun _ => Condition.locking j True n F)
        (fun _ _ h => (kept_locking (hr j) s').unlock h)
        (.look fun _ => .left ((lends_locking (hr j)).reachAll _))).forget
    · cases r with
      | error p => exact .bind (agree_releaseAll hr trap es) fun _ => .throw
      | ok r => exact ih _ _

theorem agree_sameSets (s' : SetId) :
    Agree run s True (sameSets run s' s) (sameSets (run.trapping s trap) s' s) := by
  unfold sameSets
  split
  · exact .pure
  · refine .bind (agree_length hr trap s') fun m => .bind (agree_length hr trap s) fun m' => ?_
    split
    · exact .pure
    · refine .bind (.bind (.refl fun j n F => Condition.Upheld.shards) fun ks =>
        agree_reachableIn hr trap s' [] true ks) fun r => agree_holding hr trap ?_
      split
      · exact agree_allOf fun e => agree_contains hr trap _
      · exact .pure

/-! ### Commands -/

open Session

theorem agree_borrowing (es : List ElementId) {a b : Act Reply} (ha : Agree run s c a b) :
    Agree run s c (borrowing run es a) (borrowing (run.trapping s trap) es b) := by
  refine .bind (.refl fun j n F => .last (.change (R := Condition.locking j True n F) (fun w h => ?_)
    (.pure fun _ h => h))) fun _ => agree_holding hr trap ha
  induction es generalizing w with
  | nil => exact h
  | cons e es ih => exact ih _ ⟨h.1, h.2⟩

theorem agree_withOwners {names : List String} {f g : List ElementId → Act Reply}
    (h : ∀ es, Agree run s c (f es) (g es)) :
    Agree run s c (withOwners run names f) (withOwners (run.trapping s trap) names g) := by
  refine .bind (.refl fun _ _ _ => .last (.get fun _ => .pure fun _ h => h.1)) fun v => ?_
  cases findAll v.owners names with
  | none => exact .pure
  | some es => exact agree_borrowing hr trap es (h es)

theorem agree_withOwner {name : String} {f g : ElementId → Act Reply}
    (h : ∀ e, Agree run s c (f e) (g e)) :
    Agree run s c (withOwner run name f) (withOwner (run.trapping s trap) name g) := by
  refine .bind (.refl fun _ _ _ => .last (.get fun _ => .pure fun _ h => h.1)) fun v => ?_
  cases v.owners.find? name with
  | none => exact .pure
  | some e => exact agree_borrowing hr trap [e] (h e)

theorem agree_withWanted {wanted : Wanted} {f g : Query → Act Reply}
    (h : ∀ q, Agree run s c (f q) (g q)) :
    Agree run s c (withWanted run wanted f) (withWanted (run.trapping s trap) wanted g) := by
  cases wanted with
  | value v => exact h _
  | owner o => exact agree_withOwner hr trap fun e => h _

theorem agree_withAllWanted {wanted : WantedAll} {f g : List Query → Act Reply}
    (h : ∀ qs, Agree run s c (f qs) (g qs)) :
    Agree run s c (withAllWanted run wanted f) (withAllWanted (run.trapping s trap) wanted g) := by
  cases wanted with
  | values vs => exact h _
  | owners os => exact agree_withOwners hr trap fun es => h _

end Run

/-- The set that a command probes. -/
def Command.probed? (c : Command) (w : World) : Option SetId :=
  match c with
  | .insert name _ _ | .add name _ | .addAll name _ | .contains name _ | .remove name _
  | .ticketOf name _ _ | .containsAll name _ | .removeAll name _ | .sameSet _ name =>
    w.setNames.find? name
  | _ => none

namespace Session

/-- Whatever destructors would do under the lock, a command that probes a set comes to the same, unless a
comparison under the lock panics. -/
theorem perform_trapping (hr : ∀ j, run.Returns j True) (trap : Script → Act Unit) {c : Command}
    (hc : c.probed? w = some s) (hs : s ∉ w.entered) (inScript : Bool) :
    (perform (run.trapping s trap) inScript c).exec w = (perform run inScript c).exec w ∨
      ∃ p v, (perform run inScript c).exec w = (.error p, v) ∧ BrokenComparison run s w p v := by
  -- what is left when the set has been looked up
  have of_agree {name : String} {f g : SetId → Act Reply} (h : w.setNames.find? name = some s)
      (ha : Agree run s True (f s) (g s)) : (withSet name g).exec w = (withSet name f).exec w ∨
        ∃ p v, (withSet name f).exec w = (.error p, v) ∧ BrokenComparison run s w p v := by
    rw [exec_withSet h, exec_withSet h]
    exact (ha.same w hs).imp_right And.right
  have hsave (name : Option String) (t : Ticket) :
      Agree run s True (do save name t; return Reply.ticket t) (do save name t; return .ticket t) := by
    refine .bind (.refl fun j n F => ?_) fun _ => .pure
    unfold save
    split
    · exact .pure fun _ h => h
    · exact .last (.change (R := Condition.locking j True n F) (fun w h => ⟨h.1, h.2⟩) (.pure fun _ h => h))
  cases c with
  | insert name owner saveAs =>
    refine of_agree hc (agree_withOwner hr trap fun e => .bind (agree_insert hr trap e) fun t? => ?_)
    cases t? with
    | none => exact .pure
    | some t => exact hsave saveAs t
  | add name owner => exact of_agree hc (agree_withOwner hr trap fun e => .map (agree_add hr trap e))
  | addAll name owners =>
    exact of_agree hc (agree_withOwners hr trap fun es => .map (agree_anyOf fun e => agree_add hr trap e))
  | contains name wanted =>
    exact of_agree hc (agree_withWanted hr trap fun q => .map (agree_contains hr trap q))
  | remove name wanted =>
    exact of_agree hc (agree_withWanted hr trap fun q => .map (agree_remove hr trap q))
  | ticketOf name wanted saveAs =>
    refine of_agree hc (agree_withWanted hr trap fun q => .bind (agree_ticketOf hr trap q) fun t? => ?_)
    cases t? with
    | none => exact .pure
    | some t => exact hsave saveAs t
  | containsAll name wanted =>
    exact of_agree hc (agree_withAllWanted hr trap fun qs => .map (agree_containsAll hr trap qs))
  | removeAll name wanted =>
    exact of_agree hc (agree_withAllWanted hr trap fun qs => .map (agree_anyOf fun q =>
      agree_remove hr trap q))
  | sameSet a b =>
    cases ha : w.setNames.find? a with
    | none =>
      refine .inl ?_
      rw [perform, perform, withSet, withSet, exec_get_bind, exec_get_bind, ha]
    | some x =>
      rw [perform, perform, exec_withSet ha, exec_withSet ha]
      refine of_agree hc (.look fun _ => .look fun _ => ?_)
      split
      · exact .map (agree_sameSets hr trap x)
      · exact .pure
  | _ => cases hc

/-- No reference that a probe took goes while the set is locked, but the one with which a comparison
panicked. When the locked part of an operation ends, at any point of any run, its set is unlocked and
all other references that its probe took are counted still (`Spills`). So whatever destructors would do
under the lock on the set that a command probes, the command comes to the same, unless it ends with the
panic of a comparison under that lock. An operation of sets that are not locked, as a destructor that
runs later finds the set, always has a result if no code of the client's lets a panic out. -/
theorem probe_references_outlive_lock (depth : Nat) {w : World} {D : Duties} (hw : w.Point D)
    {s : SetId} (hs : s ∉ w.entered) :
    let run := runner depth
    (∀ q, Spills run s q D (findSection run s q) w) ∧
    (∀ q, Spills run s q D (removeSection run s q) w) ∧
    (∀ (L : Scene) (e : ElementId), L.On w → L.Uses s → .hold e ∈ D →
      Spills run s (.element e) D (insertSection run s e) w) ∧
    (∀ (c : Command) (inScript : Bool) (trap : Script → Act Unit), c.probed? w = some s →
      (perform (run.trapping s trap) inScript c).exec w = (perform run inScript c).exec w ∨
        ∃ p v, (perform run inScript c).exec w = (.error p, v) ∧ BrokenComparison run s w p v) ∧
    ∀ client : Runner, client.Calm → ∀ (c : Command) (inScript : Bool), c.set? w = some s →
      (∀ s' ∈ c.sets w, s' ∉ w.entered) → ∃ r v, (perform client inScript c).exec w = (.ok r, v) := by
  have hsound := sound_runner depth
  have hr := returns_runner depth
  refine ⟨fun q => spills_findSection hsound hr hw hs, fun q => spills_removeSection hsound hr hw hs,
    fun L e ho hu he => spills_insertSection hsound hr hw hs ho hu he,
    fun c inScript trap hc => perform_trapping hr trap hc hs inScript,
    fun client hcalm c inScript hc hsets => ?_⟩
  obtain ⟨r, v, hx, -⟩ := answers_unlocked hcalm (by rw [hc]; rfl) hsets
  exact ⟨r, v, hx⟩

/-- The last owner of an element drops it while it is compared, and its destructor calls its set. -/
def parting (onEqual : Script) : List Command :=
  [.build "s" (.ok ⟨{ capacity := 4, concurrency := 1 }, none, .constant 7, .silent⟩),
    .new "x" (.number 1) (some [.length "s"]) (some onEqual), .add "s" "x",
    .new "q" (.number 1) none none]

/-- The probe has the last reference then, and lets go of it when the set is unlocked. -/
theorem probe_references_outlive_lock_parting :
    let w := carryOutAll 1 .empty (parting [.drop ["x"]])
    let c := Command.contains "s" (.owner "q")
    (perform ((runner 1).trapping 0 fun _ => throw .other) false c).exec w =
        (perform (runner 1) false c).exec w ∧
      (carryOutWithin 1 w c).1 = .flag true ∧
      .answered "len" (.number 0) ∈ (carryOutWithin 1 w c).2.journal.toList := by
  intro w c
  have hw : w.Point 0 := point_carryOutAll 1 (parting [.drop ["x"]])
  have hs : (0 : SetId) ∉ w.entered := by simp [hw.unlocked]
  have hc : c.probed? w = some 0 := by decide +kernel
  have hok : ((perform (runner 1) false c).exec w).1 = .ok (.flag true) := by decide +kernel
  refine ⟨?_, by decide +kernel, by decide +kernel⟩
  refine ((probe_references_outlive_lock 1 hw hs).2.2.2.1 c false _ hc).resolve_right ?_
  rintro ⟨p, v, h, -⟩
  rw [h] at hok
  cases hok

/-- If the comparison panics as well, the last reference goes under the lock, and the set refuses the
destructor. -/
example :
    let w := carryOutAll 1 .empty (parting [.drop ["x"], .panic none (.text "boom")])
    .answered "len" (.panicked reentered) ∈
      (carryOutWithin 1 w (.contains "s" (.owner "q"))).2.journal.toList := by
  decide +kernel

end Session

end WeakSet
