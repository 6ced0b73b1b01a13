import WeakSet.Proofs.Act
import WeakSet.Proofs.Points

/-!
# Acts as courses of moves

`Leads L a w D K E` says that act `a`, which runs in scene `L` at the point of a run where the world
is `w` and `D` is due, is a course of moves after which `K x` is due if its result is `x`, and `E` if
it panics. Nothing is said of worlds that no run comes to, so client code is never run in one.
One rule for each way to make acts of others. In most cases an act leaves as much due as there was
(`Balanced`).

A runner is `Sound` if every script is balanced under it. The acts that run client code are shown to
be balanced under every sound runner, and the runners themselves to be sound by induction.
-/

namespace WeakSet

open Duties

namespace Act

variable {α β : Type} {L : Scene} {w w' : World} {D D' E E' : Duties} {K : α → Duties}
  {K' : β → Duties}

/-- What is due after a result or a panic. -/
def due (K : α → Duties) (E : Duties) : Except Panic α → Duties
  | .ok x => K x
  | .error _ => E

theorem due_same (D : Duties) (r : Except Panic α) : due (fun _ => D) D r = D := by
  cases r <;> rfl

/-- An act is a course of moves. -/
def Leads (L : Scene) (a : Act α) (w : World) (D : Duties) (K : α → Duties)
    (E : Duties) : Prop :=
  w.Point D → L.On w → Course L (w, D) ((a.exec w).2, due K E (a.exec w).1)

/-- An act leaves as much due as there was. -/
abbrev Balanced (L : Scene) (a : Act α) (w : World) (D : Duties) : Prop :=
  Leads L a w D (fun _ => D) D

theorem Balanced.course {a : Act α} (h : Balanced L a w D) (hw : w.Point D) (hL : L.On w) :
    Course L (w, D) ((a.exec w).2, D) := by
  have := h hw hL
  rwa [due_same] at this

namespace Leads

/-- The world is at some point of a run, and the scene is on. -/
theorem intro {a : Act α} (h : w.Point D → L.On w → Leads L a w D K E) :
    Leads L a w D K E :=
  fun hs he => h hs he hs he

theorem ok {a : Act α} {x : α} (h : Leads L a w D K E) (hx : a.exec w = (.ok x, w'))
    (hs : w.Point D) (he : L.On w) : Course L (w, D) (w', K x) := by
  have := h hs he
  rwa [hx] at this

theorem pure {x : α} (h : D = K x) : Leads L (pure x) w D K E := by
  intro _ _; rw [h]; exact .refl

theorem throw {p : Panic} (h : D = E) : Leads L (throw p : Act α) w D K E := by
  intro _ _; rw [h]; exact .refl

/-- An act does no more if less counts as under way. -/
theorem mono {L' : Scene} {a : Act α} (hL : L ≤ L') (he : L'.On w)
    (h : Leads L' a w D K E) : Leads L a w D K E :=
  fun hs _ => (h hs he).mono hL

/-- Moves before an act. -/
theorem after {a : Act α} (hc : Course L (w, D) (w', D')) (h : Leads L a w' D' K E) (hs : w.Point D)
    (he : L.On w) : Course L (w, D) ((a.exec w').2, due K E (a.exec w').1) :=
  hc.trans (h (hc.point hs) (hc.on he))

/-- Moves that change no world. -/
theorem course {a : Act α} (hc : Course L (w, D) (w, D')) (h : Leads L a w D' K E) :
    Leads L a w D K E :=
  fun hs he => after hc h hs he

/-- A straight line of moves at the beginning of an act. -/
theorem of_exec {a b : Act α} (h : a.exec w = b.exec w') (hc : Course L (w, D) (w', D'))
    (hb : Leads L b w' D' K E) : Leads L a w D K E := by
  intro hs he
  rw [h]
  exact after hc hb hs he

/-- One act after the other. -/
theorem bind {a : Act α} {f : α → Act β} (ha : Leads L a w D K E)
    (hf : ∀ x w', a.exec w = (.ok x, w') → World.Later w w' → Leads L (f x) w' (K x) K' E) :
    Leads L (a >>= f) w D K' E := by
  intro hs he
  have hc := ha hs he
  rw [exec_bind]
  rcases h : a.exec w with ⟨p | x, w'⟩ <;> rw [h] at hc
  · exact hc
  · exact after hc (hf x w' h (hc.later hs.sane)) hs he

/-- An act whose panic is caught, and another after it. -/
theorem attempt {a : Act α} {f : Except Panic α → Act β} (ha : Leads L a w D K E)
    (hf : ∀ r w', a.exec w = (r, w') → World.Later w w' → Leads L (f r) w' (due K E r) K' E') :
    Leads L (attempt a >>= f) w D K' E' := by
  intro hs he
  have hc := ha hs he
  exact (after hc (hf _ _ rfl (hc.later hs.sane)) hs he :)

/-- An act with more under way, whose panic is caught, and another after it. -/
theorem attemptIn {L' : Scene} {a : Act α} {f : Except Panic α → Act β} (hL : L ≤ L')
    (ho : L'.On w) (ha : Leads L' a w D K E)
    (hf : ∀ r w', a.exec w = (r, w') → L'.On w' → Leads L (f r) w' (due K E r) K' E') :
    Leads L (Act.attempt a >>= f) w D K' E' :=
  .intro fun hs _ => .attempt (ha.mono hL ho) fun r w' hx _ => by
    have hc := ha hs ho
    rw [hx] at hc
    exact hf r w' hx (hc.on ho)

theorem look {γ : Type} {f : World → γ} {g : γ → Act α} (h : Leads L (g (f w)) w D K E) :
    Leads L (look f >>= g) w D K E := h

theorem get {g : World → Act α} (h : Leads L (g w) w D K E) : Leads L (get >>= g) w D K E := h

theorem change {f : World → World} {g : Unit → Act α} (hc : Course L (w, D) (f w, D'))
    (h : Leads L (g ()) (f w) D' K E) : Leads L (change f >>= g) w D K E :=
  fun hs he => (after hc h hs he :)

theorem update {γ : Type} {f : World → γ × World} {g : γ → Act α}
    (hc : Course L (w, D) ((f w).2, D')) (h : Leads L (g (f w).1) (f w).2 D' K E) :
    Leads L (update f >>= g) w D K E :=
  fun hs he => (after hc h hs he :)

theorem note {x : Entry} {g : Unit → Act α} (hx : x.isPlain)
    (h : Leads L (g ()) (w.note x) D K E) : Leads L (note x >>= g) w D K E :=
  change (.single (.note hx)) h

theorem map {a : Act α} {f : α → β} (h : Leads L a w D (K' ∘ f) E) : Leads L (f <$> a) w D K' E := by
  intro hs he
  have hc := h hs he
  rw [exec_map]
  rcases e : a.exec w with ⟨p | x, w'⟩ <;> rw [e] at hc <;> exact hc

theorem discard {a : Act α} (h : Leads L a w D (fun _ => D') E) :
    Leads L (discard a) w D (fun _ => D') E :=
  map h

/-- The result of an attempt again. -/
theorem settle {r : Except Panic α} (h : D = due K E r) : Leads L (settle r) w D K E := by
  intro _ _; rw [exec_settle, h]

/-- Take the last step of a straight line. -/
theorem last {a : Act α} (h : Leads L (a >>= Pure.pure) w D K E) : Leads L a w D K E := by
  rwa [bind_pure] at h

end Leads

end Act

/-- Every script is balanced, whatever is under way and whatever is due. -/
def Runner.Sound (run : Runner) : Prop :=
  ∀ L role script w D, Act.Balanced L (run role script) w D

namespace Act

variable {α : Type} {L : Scene} {w : World} {D E : Duties} {K : α → Duties}

/-! ## References -/

theorem yields_upgrade (e : ElementId) : Yields (upgrade e) fun o => ∀ e' ∈ o, e' = e := by
  intro w o w' h
  simp only [upgrade, exec_update, Prod.mk.injEq, Except.ok.injEq] at h
  obtain ⟨rfl, -⟩ := h
  split <;> simp

theorem leads_upgrade (e : ElementId) :
    Leads L (upgrade e) w D (fun o => holds o.toList + D) E := by
  intro _ _
  rw [upgrade, exec_update]
  split
  · rename_i h
    simpa [due] using Relation.ReflTransGen.single (.acquire h)
  · simpa [due] using Relation.ReflTransGen.refl

/-- Only a weak handle lets its element be reached. -/
theorem yields_reach (h : Handle) :
    Yields (reach h) fun o => ∀ e ∈ o, e = h.element ∧ h.kind = .weak := by
  unfold reach
  split
  · rename_i hk
    exact (yields_upgrade _).imp fun o ho e he => ⟨ho e he, hk⟩
  · exact .pure (by simp)

theorem exec_reach {h : Handle} (hk : h.kind = .weak) :
    (reach h).exec w =
      if w.isAlive h.element then (.ok (some h.element), w.acquire h.element) else (.ok none, w) := by
  simp only [reach, hk, upgrade, exec_update]
  split <;> rfl

theorem leads_reach (h : Handle) : Leads L (reach h) w D (fun o => holds o.toList + D) E := by
  unfold reach
  split
  · exact leads_upgrade _
  · exact .pure (by simp)

section Run

variable {run : Runner} (hr : run.Sound)

include hr

theorem leads_release (e : ElementId) :
    Leads L (release run e) w (.hold e ::ₘ D) (fun _ => D) E := by
  refine .update (.single .release) ?_
  split
  · exact .pure rfl
  · refine .discard (.last (.attempt (hr L _ _ _ D) fun r w' _ _ => .pure (due_same D r)))

theorem leads_releaseAll (es : List ElementId) :
    Leads L (releaseAll run es) w (holds es + D) (fun _ => D) E := by
  induction es generalizing w with
  | nil => exact .pure (by simp)
  | cons e es ih =>
    rw [holds_cons, Multiset.cons_add]
    exact .bind (leads_release hr e) fun _ _ _ _ => ih

/-- What an act holds is let go of however it ends. -/
theorem leads_holding {es : List ElementId} {a : Act α}
    (ha : Leads L a w (holds es + D) (fun x => holds es + K x) (holds es + E)) :
    Leads L (holding run es a) w (holds es + D) K E := by
  refine .attempt ha fun r w' _ _ => ?_
  have hd : due (fun x => holds es + K x) (holds es + E) r = holds es + due K E r := by
    cases r <;> rfl
  rw [hd]
  exact .bind (leads_releaseAll hr es) fun _ _ _ _ => .settle rfl

theorem balanced_holding {es : List ElementId} {a : Act α}
    (ha : Balanced L a w (holds es + D)) :
    Leads L (holding run es a) w (holds es + D) (fun _ => D) D :=
  leads_holding hr ha

end Run

theorem course_acquire {es : List ElementId} (hs : w.Sane D) (h : ∀ e ∈ es, w.isAlive e) :
    Course L (w, D) (es.foldl World.acquire w, holds es + D) := by
  induction es generalizing w D with
  | nil => simpa using Relation.ReflTransGen.refl
  | cons e es ih =>
    have hm : Move L (w, D) (w.acquire e, .hold e ::ₘ D) := .acquire (h e (by simp))
    have hc := (hm.sane hs).counted
    refine .head hm ?_
    have := ih (hm.sane hs) fun e' he' => ?_
    · rwa [holds_cons, Multiset.cons_add, ← Multiset.add_cons]
    · rw [World.isAlive_iff, World.strong_acquire
        (World.lt_size_of_strong (World.isAlive_iff.mp (h e (by simp))))]
      split
      · omega
      · exact World.isAlive_iff.mp (h e' (by simp [he']))

/-- An act that borrows the elements of owners. -/
theorem balanced_borrowing {run : Runner} (hr : run.Sound) {es : List ElementId} {a : Act α}
    (h : w.Sane D → ∀ e ∈ es, w.isAlive e)
    (ha : ∀ w', World.Later w w' → Balanced L a w' (holds es + D)) :
    Balanced L (borrowing run es a) w D := by
  refine .intro fun hs _ => ?_
  have hc : Course L (w, D) (es.foldl World.acquire w, holds es + D) := course_acquire hs.sane (h hs.sane)
  exact .change hc (balanced_holding hr (ha _ (hc.later hs.sane)))

/-! ## Locks -/

/-- An act under the lock of a set, which may be refused. -/
theorem leads_guarded {s : SetId} {a : Act α}
    (hb : s ∈ w.entered → Course L (w.note (.barred s), D) (w.note (.barred s), E))
    (ha : s ∉ L.locked → Leads L a (w.lock s) (.leave s ::ₘ D) (fun x => .leave s ::ₘ K x)
      (.leave s ::ₘ E)) :
    Leads L (guarded s a) w D K E := by
  intro hs he
  by_cases hm : s ∈ w.entered
  · rw [exec_guarded_of_mem hm]
    exact .head (.bar hm) (hb hm)
  · rw [exec_guarded_of_not_mem hm]
    have hL : s ∉ L.locked := fun h => hm (he.locked s h)
    have hc : Course L (w, D) (w.lock s, .leave s ::ₘ D) := .single (.enter hm)
    have ha := Leads.after hc (ha hL) hs he
    cases hx : (a.exec (w.lock s)).1 <;> rw [hx] at ha <;> exact ha.tail (.leave hL)

/-- An act under the lock of a set, whose refusal leaves all duties as they are. -/
theorem balanced_guarded {s : SetId} {a : Act α}
    (ha : s ∉ L.locked → Leads L a (w.lock s) (.leave s ::ₘ D) (fun x => .leave s ::ₘ K x)
      (.leave s ::ₘ D)) :
    Leads L (guarded s a) w D K D :=
  leads_guarded (fun _ => .refl) ha

/-- An act under the lock of a set after which more is due. -/
theorem leads_guarded_add {s : SetId} {a : Act α} {G : α → Duties}
    (ha : s ∉ L.locked → Leads L a (w.lock s) (.leave s ::ₘ D) (fun x => G x + (.leave s ::ₘ D))
      (.leave s ::ₘ D)) :
    Leads L (guarded s a) w D (fun x => G x + D) D :=
  balanced_guarded fun hs => by simpa only [Multiset.add_cons] using ha hs

end Act

end WeakSet
