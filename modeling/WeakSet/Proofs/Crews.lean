import WeakSet.Crew
import WeakSet.Proofs.Walking
import Mathlib.Algebra.Order.BigOperators.Group.List
import Mathlib.Algebra.Order.Group.Nat

/-!
# Several threads

* `Worker.leads_step`: a stage turns what was due for it into what is due for the stages that come of
  it, however the stages of other threads came in between;
* `Crew.done_of_complete`: a crew that is let complete is done, so nothing is due any more
  (`Crew.leads_complete`);
* `balanced_addTogether`, `balanced_mixTogether`: the commands that set threads to work.

The stages that a thread has before it are in order (`Worker.InOrder`): what it holds or has yet to
report stands before anything that could panic, except for references that only a stage further down
lets go of. So a thread that panics leaves nothing undone.
-/

namespace WeakSet

open Act Duties

/-! ## Sums -/

section Sums

variable {α β : Type} (f : α → Multiset β)

theorem foldr_add_append (xs ys : List α) :
    (xs ++ ys).foldr (fun x D => f x + D) 0 =
      xs.foldr (fun x D => f x + D) 0 + ys.foldr (fun x D => f x + D) 0 := by
  induction xs with
  | nil => simp
  | cons x xs ih => rw [List.cons_append, List.foldr_cons, List.foldr_cons, ih, Multiset.add_assoc]

/-- What one thing adds to a sum, and what the others do. -/
theorem foldr_add_set {xs : List α} {i : Nat} {x : α} (h : xs[i]? = some x) :
    ∃ R, xs.foldr (fun x D => f x + D) 0 = f x + R ∧
      ∀ y, (xs.set i y).foldr (fun x D => f x + D) 0 = f y + R := by
  induction xs generalizing i with
  | nil => cases h
  | cons z xs ih =>
    cases i with
    | zero =>
      obtain rfl := Option.some.inj h
      exact ⟨xs.foldr (fun x D => f x + D) 0, rfl, fun _ => rfl⟩
    | succ i =>
      obtain ⟨R, hR, hset⟩ := ih h
      refine ⟨f z + R, ?_, fun y => ?_⟩
      · rw [List.foldr_cons, hR, ← Multiset.add_assoc, Multiset.add_comm (f z), Multiset.add_assoc]
      · rw [List.set_cons_succ, List.foldr_cons, hset, ← Multiset.add_assoc, Multiset.add_comm (f z),
          Multiset.add_assoc]

end Sums

/-! ## What is due for a stage -/

namespace Stage

/-- What a stage has yet to do. -/
def due : Stage → Duties
  | batch s _ ts => deals s ts
  | books s _ t h ts => .report t ::ₘ .unwatch t h.element ::ₘ deals s ts
  | report s _ r ts => .report r.ticket ::ₘ (holds r.last.toList + deals s ts)
  | release e => .hold e ::ₘ 0
  | removed r => r.toOption.elim 0 removedDue
  | drain _ | insert .. | remove .. | inserted _ => 0

/-- The stages that a chore is made of. -/
def IsPlanned : Stage → Prop
  | drain _ | insert .. | remove .. | release _ => True
  | _ => False

/-- What a stage names is in use, and what it has in hand is of its set. -/
def Fits (L : Scene) : Stage → Prop
  | drain s | insert s _ | remove s _ => L.Uses s
  | books s _ t _ _ => t.owner = s
  | report s _ r _ => r.ticket.owner = s
  | _ => True

/-- What a stage has in hand is of a handle of its set, and tells of the element only if the set shows
its elements. -/
def Tells (w : World) : Stage → Prop
  | books _ _ t h _ => t.owner < w.sets.size ∧ w.Fits t h
  | report _ _ r _ => r.ticket.owner < w.sets.size ∧ w.MayTell r
  | _ => True

theorem Tells.later {w w' : World} {st : Stage} (h : st.Tells w) (hl : World.Later w w') :
    st.Tells w' := by
  cases st with
  | books s b t h' ts => exact ⟨h.1.trans_le hl.sets, h.2.later hl h.1⟩
  | report s b r ts =>
    exact ⟨h.1.trans_le hl.sets, fun hr => (congrArg _ (hl.settings h.1)).trans (h.2 hr)⟩
  | _ => trivial

theorem tells_of_isPlanned {x : Stage} (h : x.IsPlanned) (w : World) : x.Tells w := by
  cases x <;> trivial

theorem known_pos (x : Stage) : 0 < x.known := by
  cases x <;> simp [known]

theorem due_of_isPlanned {x : Stage} (h : x.IsPlanned) (hr : x.isRelease = false) : x.due = 0 := by
  cases x <;> simp_all [due, IsPlanned, isRelease]

/-- What several stages have yet to do. -/
def dues (xs : List Stage) : Duties :=
  xs.foldr (fun x D => x.due + D) 0

@[simp] theorem dues_nil : dues [] = 0 := rfl

@[simp] theorem dues_cons (x : Stage) (xs : List Stage) : dues (x :: xs) = x.due + dues xs := rfl

theorem dues_append (xs ys : List Stage) : dues (xs ++ ys) = dues xs + dues ys :=
  foldr_add_append due xs ys

theorem dues_release (es : List ElementId) : dues (es.map release) = holds es := by
  induction es with
  | nil => rfl
  | cons e es ih => rw [List.map_cons, dues_cons, ih]; simp [due]

/-- Of stages that a chore is made of, only those that let go of references have anything due. -/
theorem dues_filter {xs : List Stage} (h : ∀ x ∈ xs, x.IsPlanned) :
    dues (xs.filter isRelease) = dues xs := by
  induction xs with
  | nil => rfl
  | cons x xs ih =>
    have ih := ih fun y hy => h y (by simp [hy])
    rw [List.filter_cons]
    cases hx : x.isRelease with
    | true => simp [ih]
    | false => simp [ih, due_of_isPlanned (h x (by simp)) hx]

end Stage

/-! ## Threads in order -/

/-- After the references that are let go of first there is at most one stage that no chore is made
of. -/
def Stage.Ordered : List Stage → Prop
  | [] => True
  | .release _ :: xs => Ordered xs
  | _ :: xs => ∀ x ∈ xs, x.IsPlanned

/-- Every element that is to be inserted is held, by somebody else or until a later stage. -/
def Stage.Fed (F : Duties) : List Stage → Prop
  | [] => True
  | .insert _ e :: xs => (.hold e ∈ F ∨ .release e ∈ xs) ∧ Fed F xs
  | _ :: xs => Fed F xs

namespace Stage

variable {F : Duties} {xs : List Stage}

theorem Ordered.of_isPlanned (h : ∀ x ∈ xs, x.IsPlanned) : Ordered xs := by
  induction xs with
  | nil => trivial
  | cons x xs ih =>
    have hx := fun y hy => h y (List.mem_cons_of_mem _ hy)
    cases x with
    | release e => exact ih hx
    | _ => exact hx

theorem Ordered.tail {x : Stage} (h : Ordered (x :: xs)) : Ordered xs := by
  cases x with
  | release e => exact h
  | _ => exact .of_isPlanned h

theorem Ordered.isPlanned {x : Stage} (h : Ordered (x :: xs)) (hx : x.isRelease = false) :
    ∀ y ∈ xs, y.IsPlanned := by
  cases x with
  | release e => cases hx
  | _ => exact h

theorem Ordered.releases_append {es : List ElementId} (h : Ordered xs) :
    Ordered (es.map release ++ xs) := by
  induction es with
  | nil => exact h
  | cons e es ih => exact ih

theorem Fed.tail {x : Stage} (h : Fed F (x :: xs)) : Fed F xs := by
  cases x with
  | insert s e => exact h.2
  | _ => exact h

theorem Fed.releases_append {es : List ElementId} (h : Fed F xs) :
    Fed F (es.map release ++ xs) := by
  induction es with
  | nil => exact h
  | cons e es ih => exact ih

theorem fed_filter (F : Duties) (xs : List Stage) : Fed F (xs.filter isRelease) := by
  induction xs with
  | nil => trivial
  | cons x xs ih => cases x <;> exact ih

theorem isPlanned_filter (xs : List Stage) : ∀ x ∈ xs.filter isRelease, x.IsPlanned := by
  intro x hx
  have := (List.mem_filter.mp hx).2
  cases x <;> simp_all [IsPlanned, isRelease]

theorem hold_mem_dues {e : ElementId} (h : .release e ∈ xs) : .hold e ∈ dues xs := by
  induction xs with
  | nil => cases h
  | cons x xs ih =>
    rw [dues_cons, Multiset.mem_add]
    rcases List.mem_cons.mp h with rfl | h
    · exact .inl (by simp [due])
    · exact .inr (ih h)

end Stage

namespace Worker

/-- What a thread has yet to do. -/
def due (x : Worker) : Duties :=
  Stage.dues x.todo

/-- The stages of a thread are in order, when `F` is due anyway. -/
structure InOrder (L : Scene) (F : Duties) (x : Worker) : Prop where
  ordered : Stage.Ordered x.todo
  fed : Stage.Fed F x.todo
  fits : ∀ y ∈ x.todo, y.Fits L

variable {L : Scene} {run : Runner} (hr : run.Sound) {w : World} {D E F : Duties}

theorem due_cons (x : Worker) (st : Stage) (xs : List Stage) :
    due { x with todo := st :: xs } = st.due + Stage.dues xs := rfl

theorem due_releases (x : Worker) (es : List ElementId) (st : Stage) (xs : List Stage) :
    due { x with todo := es.map .release ++ st :: xs } = holds es + (st.due + Stage.dues xs) := by
  rw [due, Stage.dues_append, Stage.dues_release, Stage.dues_cons]

include hr

/-- A stage turns what was due for it into what is due for the stages that come of it. Where it may
panic, what is due for the stages after it stays due. -/
theorem leads_perform {x : Worker} {st : Stage}
    (hx : InOrder L F { x with todo := st :: x.todo }) (hF : ∀ d ∈ F, d ∈ D)
    (ht : ∀ s b r ts, st = .report s b r ts → w.MayTell r)
    (hE : st.isRelease = false → E = x.due + D) :
    Leads L (x.perform run st) w (st.due + (x.due + D)) (fun y => y.due + D) E := by
  have hfit := hx.fits st (by simp)
  cases st with
  | drain s =>
    obtain rfl := hE rfl
    refine .intro fun _ ho => .update (.single (.takeNotices (ho.lt_size hfit))) (.pure ?_)
    simp [due, Stage.due, Multiset.add_assoc]
  | batch s b ts =>
    obtain rfl := hE rfl
    cases ts with
    | nil =>
      rw [Stage.due, deals_nil, Multiset.zero_add]
      exact .bind (.discard (balanced_closeBatch b)) fun _ _ _ _ => .pure rfl
    | cons t ts =>
      refine .look ?_
      split
      · rename_i h
        refine .course (course_foreign h ts) (.note rfl (.pure ?_))
        rw [due_cons, Multiset.add_assoc]; rfl
      · rename_i h
        obtain rfl := owner_of_not_isForeign h
        refine .bind (leads_takeOut_swept ts) fun h? w₁ _ _ => ?_
        cases h? with
        | none => exact .pure (by simp [sweptDue, due, Stage.due, Multiset.add_assoc])
        | some h => exact .pure (by simp [sweptDue, due, Stage.due, Multiset.add_assoc])
  | books s b t h ts =>
    obtain rfl := hE rfl
    simp only [Stage.due, Multiset.cons_add]
    rw [Multiset.cons_swap]
    refine .bind (leads_closeBooks t h) fun r w₁ hb _ => .pure ?_
    obtain rfl : r.ticket = t := (yields_closeBooks t h _ _ _ hb).1
    simp [due, Stage.due, Multiset.add_assoc]
  | report s b r ts =>
    obtain rfl := hE rfl
    obtain rfl : r.ticket.owner = s := hfit
    simp only [Stage.due, Multiset.cons_add, Multiset.add_assoc]
    refine .attempt (leads_report hr (ht _ _ _ _ rfl)) fun outcome w₁ _ _ => ?_
    rw [due_same]
    have hend : deals r.ticket.owner ts + (x.due + D) =
        due { x with todo := .batch r.ticket.owner b ts :: x.todo } + D := by
      rw [due_cons, Multiset.add_assoc]; rfl
    cases outcome with
    | ok _ => exact .look (.pure hend)
    | error p => exact .note rfl (.look (.pure hend))
  | insert s e =>
    obtain rfl := hE rfl
    have he : .hold e ∈ x.due + D := by
      rcases hx.fed.1 with h | h
      · exact Multiset.mem_add.mpr (.inr (hF _ h))
      · exact Multiset.mem_add.mpr (.inl (Stage.hold_mem_dues h))
    rw [Stage.due, Multiset.zero_add]
    refine .bind (leads_insertSection hr hfit he) fun sec w₁ _ _ => .pure ?_
    rw [due_releases]
    cases h : sec.result <;> simp [Section.due, h, Stage.due, due, Multiset.add_assoc]
  | remove s q =>
    obtain rfl := hE rfl
    rw [Stage.due, Multiset.zero_add]
    refine .bind (leads_removeSection hr q) fun sec w₁ _ _ => .pure ?_
    rw [due_releases]
    cases h : sec.result <;> simp [Section.due, h, Stage.due, due, Except.toOption, Multiset.add_assoc]
  | release e =>
    simp only [Stage.due, Multiset.cons_add, Multiset.zero_add]
    exact .bind (leads_release hr e) fun _ _ _ _ => .pure rfl
  | inserted r =>
    obtain rfl := hE rfl
    rw [Stage.due, Multiset.zero_add]
    refine .bind (Leads.settle (K := fun _ => x.due + D) (by cases r <;> rfl)) fun t? w₁ _ _ => ?_
    split
    · exact .pure rfl
    · exact .note rfl (.pure rfl)
  | removed r =>
    obtain rfl := hE rfl
    refine .bind (Leads.settle (K := fun y => removedDue y + (x.due + D)) ?_) fun y w₁ _ _ => ?_
    · cases r with
      | ok y => rfl
      | error p => exact Multiset.zero_add _
    · cases y with
      | none => exact .pure (Multiset.zero_add _)
      | some y =>
        simp only [removedDue, Multiset.cons_add, Multiset.zero_add]
        exact .bind (leads_bookRemoval _ _) fun _ _ _ _ => .pure rfl

omit hr

/-- The stages that come of a stage. -/
theorem InOrder.cons {x : Worker} {st st' : Stage}
    (hx : InOrder L F { x with todo := st :: x.todo }) (hst : st.isRelease = false)
    (hst' : st'.isRelease = false) (hfed : ∀ s e, st' ≠ .insert s e) (hfit : st'.Fits L) :
    InOrder L F { x with todo := st' :: x.todo } where
  ordered := by
    have := hx.ordered.isPlanned hst
    cases st' <;> simp_all [Stage.Ordered, Stage.isRelease]
  fed := by
    have := hx.fed.tail
    cases st' <;> simp_all [Stage.Fed]
  fits y hy := by
    rcases List.mem_cons.mp hy with rfl | hy
    · exact hfit
    · exact hx.fits y (List.mem_cons_of_mem _ hy)

theorem InOrder.tail {x : Worker} {st : Stage} (hx : InOrder L F { x with todo := st :: x.todo }) :
    InOrder L F x :=
  ⟨hx.ordered.tail, hx.fed.tail, fun y hy => hx.fits y (List.mem_cons_of_mem _ hy)⟩

theorem InOrder.releases {x : Worker} {es : List ElementId} {st : Stage}
    (hx : InOrder L F { x with todo := st :: x.todo }) :
    InOrder L F { x with todo := es.map .release ++ st :: x.todo } where
  ordered := hx.ordered.releases_append
  fed := hx.fed.releases_append
  fits y hy := by
    rcases List.mem_append.mp hy with hy | hy
    · obtain ⟨e, -, rfl⟩ := List.mem_map.mp hy
      trivial
    · exact hx.fits y hy

theorem yields_perform {x : Worker} {st : Stage}
    (hx : InOrder L F { x with todo := st :: x.todo }) :
    Yields (x.perform run st) fun y => InOrder L F y := by
  have hfit := hx.fits st (by simp)
  cases st with
  | drain s => exact .seq fun ts => .pure (hx.cons rfl rfl (by simp) trivial)
  | batch s b ts =>
    cases ts with
    | nil => exact .seq fun _ => .pure hx.tail
    | cons t ts =>
      refine .bind (P := fun b => ¬ b = true → t.owner = s)
        (.look fun w h => owner_of_not_isForeign h) fun c hc => ?_
      split
      · exact .seq fun _ => .pure (hx.cons rfl rfl (by simp) trivial)
      · rename_i h
        refine .seq fun h? => ?_
        cases h? with
        | none => exact .pure (hx.cons rfl rfl (by simp) trivial)
        | some h' => exact .pure (hx.cons rfl rfl (by simp) (hc h))
  | books s b t h ts =>
    refine .bind (yields_closeBooks t h) fun r hr => .pure (hx.cons rfl rfl (by simp) ?_)
    simp only [Stage.Fits, hr.1] at hfit ⊢
    exact hfit
  | report s b r ts =>
    refine .seq fun outcome => ?_
    have hend : ∀ b, InOrder L F { x with todo := .batch s b ts :: x.todo } :=
      fun b => hx.cons rfl rfl (by simp) trivial
    cases outcome with
    | ok _ => exact .seq fun _ => .pure (hend _)
    | error p => exact .seq fun _ => .seq fun _ => .pure (hend _)
  | insert s e =>
    refine .seq fun sec => .pure (InOrder.releases ?_)
    exact hx.cons rfl rfl (by simp) trivial
  | remove s q =>
    refine .seq fun sec => .pure (InOrder.releases ?_)
    exact hx.cons rfl rfl (by simp) trivial
  | release e => exact .seq fun _ => .pure hx.tail
  | inserted r =>
    refine .seq fun t? => ?_
    split
    · exact .pure hx.tail
    · exact .seq fun _ => .pure ⟨hx.tail.ordered, hx.tail.fed, hx.tail.fits⟩
  | removed r =>
    refine .seq fun y? => ?_
    split
    · exact .pure hx.tail
    · exact .seq fun _ => .pure ⟨hx.tail.ordered, hx.tail.fed, hx.tail.fits⟩

/-- What all stages have ahead. -/
def Tells (w : World) (x : Worker) : Prop :=
  ∀ st ∈ x.todo, st.Tells w

theorem Tells.later {x : Worker} {w' : World} (h : x.Tells w) (hl : World.Later w w') : x.Tells w' :=
  fun st hst => (h st hst).later hl

/-- A stage leaves to those that come of it what they may tell. -/
theorem tells_perform {x y : Worker} {st : Stage} {w' : World} (hw : w.Point D)
    (ht : Tells w { x with todo := st :: x.todo }) (hl : World.Later w w')
    (hx : (x.perform run st).exec w = (.ok y, w')) : y.Tells w' := by
  have hst : st.Tells w := ht st List.mem_cons_self
  have hrest : x.Tells w' := fun z hz => (ht z (List.mem_cons_of_mem _ hz)).later hl
  have hcons (st' : Stage) (h : st'.Tells w') : Tells w' { x with todo := st' :: x.todo } :=
    List.forall_mem_cons.mpr ⟨h, hrest⟩
  have hreleases (es : List ElementId) (st' : Stage) (h : st'.Tells w') :
      Tells w' { x with todo := es.map .release ++ st' :: x.todo } := by
    refine List.forall_mem_append.mpr ⟨fun z hz => ?_, hcons st' h⟩
    obtain ⟨e, -, rfl⟩ := List.mem_map.mp hz
    trivial
  cases st with
  | drain s =>
    obtain ⟨ts, w₁, -, hx⟩ := exec_bind_eq_ok.mp hx
    obtain ⟨rfl, -⟩ := exec_pure_eq_ok.mp hx
    exact hcons _ trivial
  | batch s b ts =>
    cases ts with
    | nil =>
      obtain ⟨_, w₁, -, hx⟩ := exec_bind_eq_ok.mp hx
      obtain ⟨rfl, -⟩ := exec_pure_eq_ok.mp hx
      exact hrest
    | cons t ts =>
      obtain ⟨c, w₁, h₁, hx⟩ := exec_bind_eq_ok.mp hx
      obtain ⟨-, rfl⟩ := Prod.mk.injEq .. ▸ (exec_look _ w).symm.trans h₁
      split at hx
      · obtain ⟨_, w₂, -, hx⟩ := exec_bind_eq_ok.mp hx
        obtain ⟨rfl, -⟩ := exec_pure_eq_ok.mp hx
        exact hcons _ trivial
      · obtain ⟨h?, w₂, h₂, hx⟩ := exec_bind_eq_ok.mp hx
        cases h? with
        | none =>
          obtain ⟨rfl, -⟩ := exec_pure_eq_ok.mp hx
          exact hcons _ trivial
        | some h =>
          obtain ⟨rfl, -⟩ := exec_pure_eq_ok.mp hx
          obtain ⟨hs, hf⟩ := fits_of_takeOut hw h₂
          exact hcons (.books s b t h ts) ⟨hs.trans_le hl.sets, hf.later hl hs⟩
  | books s b t h ts =>
    obtain ⟨r, w₁, h₁, hx⟩ := exec_bind_eq_ok.mp hx
    obtain ⟨rfl, rfl⟩ := exec_pure_eq_ok.mp hx
    obtain ⟨hs, hf⟩ := hst
    refine hcons (.report s b r ts) ⟨?_, hf.mayTell hs hl h₁⟩
    rw [(yields_closeBooks t h _ _ _ h₁).1]
    exact hs.trans_le hl.sets
  | report s b r ts =>
    obtain ⟨outcome, w₁, -, hx⟩ := exec_bind_eq_ok.mp hx
    rcases outcome with p | u
    · obtain ⟨_, w₂, -, hx⟩ := exec_bind_eq_ok.mp hx
      obtain ⟨_, w₃, -, hx⟩ := exec_bind_eq_ok.mp hx
      obtain ⟨rfl, -⟩ := exec_pure_eq_ok.mp hx
      exact hcons _ trivial
    · obtain ⟨_, w₂, -, hx⟩ := exec_bind_eq_ok.mp hx
      obtain ⟨rfl, -⟩ := exec_pure_eq_ok.mp hx
      exact hcons _ trivial
  | insert s e =>
    obtain ⟨sec, w₁, -, hx⟩ := exec_bind_eq_ok.mp hx
    obtain ⟨rfl, -⟩ := exec_pure_eq_ok.mp hx
    exact hreleases _ _ trivial
  | remove s q =>
    obtain ⟨sec, w₁, -, hx⟩ := exec_bind_eq_ok.mp hx
    obtain ⟨rfl, -⟩ := exec_pure_eq_ok.mp hx
    exact hreleases _ _ trivial
  | release e =>
    obtain ⟨_, w₁, -, hx⟩ := exec_bind_eq_ok.mp hx
    obtain ⟨rfl, -⟩ := exec_pure_eq_ok.mp hx
    exact hrest
  | inserted r =>
    obtain ⟨t?, w₁, -, hx⟩ := exec_bind_eq_ok.mp hx
    cases t? with
    | none =>
      obtain ⟨rfl, -⟩ := exec_pure_eq_ok.mp hx
      exact hrest
    | some t =>
      obtain ⟨_, w₂, -, hx⟩ := exec_bind_eq_ok.mp hx
      obtain ⟨rfl, -⟩ := exec_pure_eq_ok.mp hx
      exact hrest
  | removed r =>
    obtain ⟨y?, w₁, -, hx⟩ := exec_bind_eq_ok.mp hx
    cases y? with
    | none =>
      obtain ⟨rfl, -⟩ := exec_pure_eq_ok.mp hx
      exact hrest
    | some y =>
      obtain ⟨_, w₂, -, hx⟩ := exec_bind_eq_ok.mp hx
      obtain ⟨rfl, -⟩ := exec_pure_eq_ok.mp hx
      exact hrest

theorem isPlanned_ofChores (cs : List Chore) : ∀ st ∈ (ofChores cs).todo, st.IsPlanned := by
  intro st hst
  obtain ⟨c, -, hst⟩ := List.mem_flatMap.mp hst
  cases c <;> simp only [Chore.stages, List.mem_cons, List.not_mem_nil, or_false] at hst <;>
    rcases hst with rfl | rfl <;> trivial

theorem Tells.fail {x : Worker} (hx : x.Tells w) (p : Panic) : (x.fail p).Tells w :=
  fun st hst => hx st (List.mem_of_mem_filter hst)

theorem tells_step {x y : Worker} {w' : World} (hw : w.Point D) (ht : x.Tells w)
    (hl : World.Later w w') (hx : (x.step run).exec w = (.ok y, w')) : y.Tells w' := by
  unfold step at hx
  split at hx
  · obtain ⟨rfl, rfl⟩ := exec_pure_eq_ok.mp hx
    exact ht
  · rename_i st todo h
    have ht' : Tells w { ({ x with todo := todo } : Worker) with todo := st :: todo } := by
      rw [← h]
      exact ht
    obtain ⟨r, w₁, h₁, hx⟩ := exec_bind_eq_ok.mp hx
    rw [exec_attempt_eq_ok] at h₁
    rcases r with p | z
    · obtain ⟨rfl, rfl⟩ := exec_pure_eq_ok.mp hx
      exact Tells.fail (fun z hz => (ht' z (List.mem_cons_of_mem _ hz)).later hl) p
    · obtain ⟨rfl, rfl⟩ := exec_pure_eq_ok.mp hx
      exact tells_perform (x := { x with todo := todo }) hw ht' hl h₁

theorem InOrder.fail {x : Worker} (hx : InOrder L F x) (p : Panic) : InOrder L F (x.fail p) where
  ordered := .of_isPlanned (Stage.isPlanned_filter _)
  fed := Stage.fed_filter F _
  fits y hy := hx.fits y (List.mem_of_mem_filter hy)

theorem yields_step {x : Worker} (hx : InOrder L F x) : Yields (x.step run) (InOrder L F) := by
  unfold step
  split
  · exact .pure hx
  · rename_i st todo h
    have hx' : InOrder L F { ({ x with todo := todo } : Worker) with todo := st :: todo } := by
      rw [← h]; exact hx
    refine .attempt (yields_perform hx') fun r hr => ?_
    cases r with
    | ok y => exact .pure (hr y rfl)
    | error p => exact .pure (hx'.tail.fail p)

include hr

/-- One stage of a thread, which a panic may end. -/
theorem leads_step {x : Worker} (hx : x.InOrder L F) (hF : ∀ d ∈ F, d ∈ D) (ht : x.Tells w) :
    Leads L (x.step run) w (x.due + D) (fun y => y.due + D) E := by
  unfold step
  split
  · exact .pure rfl
  · rename_i st todo h
    have hx' : InOrder L F { ({ x with todo := todo } : Worker) with todo := st :: todo } := by
      rw [← h]; exact hx
    have hdue : x.due = st.due + Stage.dues todo := by rw [due, h, Stage.dues_cons]
    rw [hdue, Multiset.add_assoc]
    refine .attempt (E := Stage.dues (todo.filter Stage.isRelease) + D)
      (leads_perform hr hx' hF (fun s b r ts hst => ?_) fun hst => ?_) fun r w' _ _ => ?_
    · exact (hst ▸ ht st (by simp [h]) : (Stage.report s b r ts).Tells w).2
    · rw [Stage.dues_filter (hx'.ordered.isPlanned hst)]; rfl
    · cases r with
      | ok y => exact .pure rfl
      | error p => exact .pure rfl

end Worker

/-! ## Crews -/

namespace Crew

/-- What the threads have yet to do. -/
def due (crew : Crew) : Duties :=
  crew.foldr (fun x D => x.due + D) 0

@[simp] theorem due_cons (x : Worker) (crew : Crew) : due (x :: crew) = x.due + due crew := rfl

/-- The threads of a crew are in order. -/
def InOrder (L : Scene) (F : Duties) (crew : Crew) : Prop :=
  ∀ x ∈ crew, x.InOrder L F

/-- What is due for one thread, and for the others. -/
theorem due_set {crew : Crew} {i : Nat} {x : Worker} (h : crew[i]? = some x) :
    ∃ R, due crew = x.due + R ∧ ∀ y, due (crew.set i y) = y.due + R :=
  foldr_add_set Worker.due h

/-- A crew that is done has nothing due. -/
theorem due_of_isDone {crew : Crew} (h : crew.isDone) : due crew = 0 := by
  induction crew with
  | nil => rfl
  | cons x crew ih =>
    simp only [isDone, List.all_cons, Bool.and_eq_true, List.isEmpty_iff] at h
    rw [due_cons, Worker.due, h.1, ih (by simpa [isDone] using h.2)]
    rfl

variable {L : Scene} {run : Runner} (hr : run.Sound) {w : World} {D E F : Duties}

/-- What all threads have ahead. -/
def Tells (w : World) (crew : Crew) : Prop :=
  ∀ x ∈ crew, x.Tells w

/-- Threads before they start have nothing in hand. -/
theorem tells_ofChores {α : Type} (f : α → List Chore) (xs : List α) (w : World) :
    Tells w (xs.map fun x => Worker.ofChores (f x)) := by
  intro y hy st hst
  obtain ⟨x, -, rfl⟩ := List.mem_map.mp hy
  exact Stage.tells_of_isPlanned (Worker.isPlanned_ofChores (f x) st hst) w

theorem tells_step {crew crew' : Crew} {w' : World} {i : Nat} (hw : w.Point D) (ht : crew.Tells w)
    (hl : World.Later w w') (hx : (crew.step run i).exec w = (.ok crew', w')) : crew'.Tells w' := by
  have hrest : ∀ x ∈ crew, x.Tells w' := fun x hm => (ht x hm).later hl
  unfold step at hx
  split at hx
  · obtain ⟨rfl, -⟩ := exec_pure_eq_ok.mp hx
    exact hrest
  · rename_i x h
    obtain ⟨y, w₁, h₁, hx⟩ := exec_bind_eq_ok.mp hx
    obtain ⟨rfl, rfl⟩ := exec_pure_eq_ok.mp hx
    intro z hz
    rcases List.mem_or_eq_of_mem_set hz with hz | rfl
    · exact hrest z hz
    · exact Worker.tells_step hw (ht x (List.mem_of_getElem? h)) hl h₁

theorem yields_step {crew : Crew} (hc : crew.InOrder L F) (i : Nat) :
    Yields (crew.step run i) (InOrder L F) := by
  unfold step
  split
  · exact .pure hc
  · rename_i x h
    refine .bind (Worker.yields_step (hc x (List.mem_of_getElem? h))) fun y hy => .pure ?_
    intro z hz
    rcases List.mem_or_eq_of_mem_set hz with hz | rfl
    · exact hc z hz
    · exact hy

include hr

theorem leads_step {crew : Crew} (hc : crew.InOrder L F) (hF : ∀ d ∈ F, d ∈ D)
    (ht : crew.Tells w) (i : Nat) :
    Leads L (crew.step run i) w (due crew + D) (fun c => due c + D) E := by
  unfold step
  split
  · exact .pure rfl
  · rename_i x h
    have hm := List.mem_of_getElem? h
    obtain ⟨R, hR, hset⟩ := due_set h
    rw [hR, Multiset.add_assoc]
    refine .bind (Worker.leads_step hr (hc x hm) (fun d hd =>
      Multiset.mem_add.mpr (.inr (hF d hd))) (ht x hm)) fun y w' _ _ => .pure ?_
    rw [hset, Multiset.add_assoc]

/-- Threads in any order. -/
theorem leads_follow {crew : Crew} (hc : crew.InOrder L F) (hF : ∀ d ∈ F, d ∈ D)
    (ht : crew.Tells w) (schedule : List Nat) :
    Leads L (crew.follow run schedule) w (due crew + D) (fun c => due c + D) E := by
  induction schedule generalizing crew w with
  | nil => exact .pure rfl
  | cons i schedule ih =>
    rw [follow, List.foldlM_cons]
    exact .intro fun hw _ => .bind (leads_step hr hc hF ht i) fun c w' hx hl =>
      ih (yields_step hc i _ _ _ hx) (tells_step hw ht hl hx)

omit hr in
theorem yields_follow {crew : Crew} (hc : crew.InOrder L F) (schedule : List Nat) :
    Yields (crew.follow run schedule) (InOrder L F) := by
  induction schedule generalizing crew with
  | nil => exact .pure hc
  | cons i schedule ih =>
    rw [follow, List.foldlM_cons]
    exact .bind (yields_step hc i) fun c hc' => ih hc'

/-- Threads in any order leave to the stages ahead what they may tell. -/
theorem tells_follow {crew crew' : Crew} {w' : World} (hw : w.Point (due crew + D)) (ho : L.On w)
    (hc : crew.InOrder L F) (hF : ∀ d ∈ F, d ∈ D) (ht : crew.Tells w) {schedule : List Nat}
    (hx : (crew.follow run schedule).exec w = (.ok crew', w')) : crew'.Tells w' := by
  induction schedule generalizing crew w with
  | nil =>
    obtain ⟨rfl, rfl⟩ := exec_pure_eq_ok.mp hx
    exact ht
  | cons i schedule ih =>
    rw [follow, List.foldlM_cons] at hx
    obtain ⟨c, w₁, h₁, hx⟩ := exec_bind_eq_ok.mp hx
    have c₁ := (leads_step hr hc hF ht (E := 0) i).ok h₁ hw ho
    exact ih (c₁.point hw) (c₁.on ho) (yields_step hc i _ _ _ h₁)
      (tells_step hw ht (c₁.later hw.sane) h₁) hx

theorem leads_finish {crew : Crew} (hc : crew.InOrder L F) (hF : ∀ d ∈ F, d ∈ D)
    (ht : crew.Tells w) (m : Nat) :
    Leads L (crew.finish run m) w (due crew + D) (fun c => due c + D) E := by
  induction m generalizing crew w with
  | zero => exact .pure rfl
  | succ m ih =>
    unfold finish
    split
    · exact .pure rfl
    · exact .intro fun hw ho => .bind (leads_follow hr hc hF ht _) fun c w' hx _ =>
        ih (yields_follow hc _ _ _ _ hx) (tells_follow hr hw ho hc hF ht hx)

end Crew

/-! ## Crews come to an end -/

theorem sumBy_eq {α : Type} (f : α → Nat) (xs : List α) : sumBy f xs = (xs.map f).sum := by
  rw [sumBy, List.sum_eq_foldr, List.foldr_map]

namespace Worker

/-- A thread after it was let do `k` stages: it went through an uncertain stage, or it is done, or
it is known to have so many stages less before it. -/
def After (k : Nat) (x y : Worker) : Prop :=
  y.uncertain < x.uncertain ∨ y.uncertain = x.uncertain ∧ (y.todo = [] ∨ y.known + k ≤ x.known)

variable {run : Runner} {x y z : Worker} {k : Nat}

theorem uncertain_cons (x : Worker) (st : Stage) (xs : List Stage) :
    uncertain { x with todo := st :: xs } =
      xs.countP Stage.isUncertain + if st.isUncertain then 1 else 0 :=
  List.countP_cons

theorem known_cons (x : Worker) (st : Stage) (xs : List Stage) :
    known { x with todo := st :: xs } = st.known + sumBy Stage.known xs :=
  rfl

theorem uncertain_releases (x : Worker) (es : List ElementId) (xs : List Stage) :
    uncertain { x with todo := es.map .release ++ xs } = xs.countP Stage.isUncertain := by
  rw [uncertain, List.countP_append]
  simp [List.countP_map, Function.comp_def, Stage.isUncertain]

/-- A stage is over when it was done: the stages that come of it are fewer. -/
theorem yields_perform_after (x : Worker) (st : Stage) :
    Yields (x.perform run st) (After 1 { x with todo := st :: x.todo }) := by
  have hless : ∀ st' : Stage, st'.isUncertain = st.isUncertain → st'.known < st.known →
      After 1 { x with todo := st :: x.todo } { x with todo := st' :: x.todo } := by
    intro st' hu hk
    refine .inr ⟨by rw [uncertain_cons, uncertain_cons, hu], .inr ?_⟩
    rw [known_cons, known_cons]
    omega
  have hgone : st.isUncertain = false → ∀ y : Worker, y.todo = x.todo →
      After 1 { x with todo := st :: x.todo } y := by
    intro hu y hy
    refine .inr ⟨by rw [uncertain_cons, hu, uncertain, hy]; rfl, .inr ?_⟩
    rw [known_cons, known, hy]
    have := st.known_pos
    omega
  have hsure : st.isUncertain = true → ∀ (es : List ElementId) (st' : Stage),
      st'.isUncertain = false →
      After 1 { x with todo := st :: x.todo } { x with todo := es.map .release ++ st' :: x.todo } := by
    intro hu es st' hu'
    refine .inl ?_
    rw [uncertain_releases, uncertain_cons, hu, List.countP_cons, hu']
    simp
  cases st with
  | drain s => exact .seq fun ts => .pure (hsure rfl [] (.batch s {} ts) rfl)
  | batch s b ts =>
    cases ts with
    | nil => exact .seq fun _ => .pure (hgone rfl _ rfl)
    | cons t ts =>
      refine .seq fun c => ?_
      split
      · exact .seq fun _ => .pure (hless _ rfl (by simp [Stage.known]))
      · refine .seq fun h? => ?_
        cases h? with
        | none => exact .pure (hless _ rfl (by simp [Stage.known]))
        | some h' => exact .pure (hless _ rfl (by simp only [Stage.known, List.length_cons]; omega))
  | books s b t h ts => exact .seq fun r => .pure (hless _ rfl (by simp [Stage.known]))
  | report s b r ts =>
    refine .seq fun outcome => ?_
    have hend : ∀ b', After 1 { x with todo := .report s b r ts :: x.todo }
        { x with todo := .batch s b' ts :: x.todo } :=
      fun b' => hless _ rfl (by simp [Stage.known])
    cases outcome with
    | ok _ => exact .seq fun _ => .pure (hend _)
    | error p => exact .seq fun _ => .seq fun _ => .pure (hend _)
  | insert s e => exact .seq fun sec => .pure (hsure rfl sec.held (.inserted sec.result) rfl)
  | remove s q => exact .seq fun sec => .pure (hsure rfl sec.held (.removed sec.result) rfl)
  | release e => exact .seq fun _ => .pure (hgone rfl _ rfl)
  | inserted r =>
    refine .seq fun t? => ?_
    split
    · exact .pure (hgone rfl _ rfl)
    · exact .seq fun _ => .pure (hgone rfl _ rfl)
  | removed r =>
    refine .seq fun y? => ?_
    split
    · exact .pure (hgone rfl _ rfl)
    · exact .seq fun _ => .pure (hgone rfl _ rfl)

theorem todo_of_known (h : x.known = 0) : x.todo = [] := by
  rcases e : x.todo with _ | ⟨st, xs⟩
  · rfl
  · rw [known, e, sumBy, List.foldr_cons] at h
    have := st.known_pos
    omega

theorem after_fail (x : Worker) (st : Stage) (p : Panic) :
    After 1 { x with todo := st :: x.todo } (x.fail p) := by
  have hu : (x.fail p).uncertain = 0 := by
    refine List.countP_eq_zero.mpr fun y hy => ?_
    have := (List.mem_filter.mp hy).2
    cases y <;> simp_all [Stage.isUncertain, Stage.isRelease]
  have hk : (x.fail p).known ≤ x.known := by
    rw [known, known, sumBy_eq, sumBy_eq]
    exact (List.filter_sublist.map Stage.known).sum_le_sum fun _ _ => Nat.zero_le _
  rcases Nat.eq_zero_or_pos (uncertain { x with todo := st :: x.todo }) with h | h
  · refine .inr ⟨by rw [hu, h], .inr ?_⟩
    rw [known_cons]
    have := st.known_pos
    rw [known, known] at hk
    rw [known]
    omega
  · exact .inl (by rwa [hu])

theorem After.trans (h : After k x y) (h' : After 1 y z) : After (k + 1) x z := by
  rcases h with h | ⟨hu, h⟩ <;> rcases h' with h' | ⟨hu', h'⟩
  · exact .inl (h'.trans h)
  · exact .inl (hu' ▸ h)
  · exact .inl (hu ▸ h')
  · refine .inr ⟨hu'.trans hu, h'.imp id fun h' => ?_⟩
    rcases h with h | h
    · rw [known, known, h] at h'
      cases h'
    · omega

/-- One stage more. -/
theorem yields_step_after (h : After k x y) : Yields (y.step run) (After (k + 1) x) := by
  unfold step
  split
  · rename_i hy
    exact .pure (h.imp id fun h => ⟨h.1, .inl hy⟩)
  · rename_i st todo hy
    have e : { ({ y with todo := todo } : Worker) with todo := st :: todo } = y := by rw [← hy]
    refine .attempt (yields_perform_after { y with todo := todo } st) fun r hr => ?_
    cases r with
    | ok z => exact .pure (h.trans (e ▸ hr z rfl))
    | error p => exact .pure (h.trans (e ▸ after_fail { y with todo := todo } st p))

end Worker

namespace Crew

variable {run : Runner}

/-- A crew after it was let do the stages of a schedule. -/
def After (schedule : List Nat) (crew crew' : Crew) : Prop :=
  crew'.length = crew.length ∧
    ∀ i x y, crew[i]? = some x → crew'[i]? = some y → Worker.After (schedule.count i) x y

theorem yields_step_after {crew crew' : Crew} {schedule : List Nat}
    (h : After schedule crew crew') (i : Nat) :
    Yields (crew'.step run i) (After (schedule ++ [i]) crew) := by
  unfold step
  have hcount : ∀ j, (schedule ++ [i]).count j = schedule.count j + if i = j then 1 else 0 := by
    intro j
    rw [List.count_append, List.count_singleton]
    simp
  split
  · rename_i hi
    refine .pure ⟨h.1, fun j x y hx hy => ?_⟩
    have hne : i ≠ j := by rintro rfl; rw [hi] at hy; cases hy
    rw [hcount, if_neg hne]
    exact h.2 j x y hx hy
  · rename_i x' hi
    have hlt := (List.getElem?_eq_some_iff.mp hi).1
    obtain ⟨x, hx⟩ : ∃ x, crew[i]? = some x := ⟨_, List.getElem?_eq_getElem (h.1 ▸ hlt)⟩
    refine .bind (Worker.yields_step_after (h.2 i x x' hx hi)) fun y hy => .pure ?_
    refine ⟨by rw [List.length_set, h.1], fun j x₁ y₁ hx₁ hy₁ => ?_⟩
    rw [hcount]
    by_cases hij : i = j
    · subst hij
      rw [List.getElem?_set_self hlt] at hy₁
      obtain rfl := Option.some.inj hy₁
      rw [hx] at hx₁
      obtain rfl := Option.some.inj hx₁
      simpa using hy
    · rw [List.getElem?_set_ne hij] at hy₁
      simpa [hij] using h.2 j x₁ y₁ hx₁ hy₁

theorem yields_follow_after {crew crew' : Crew} {done : List Nat} (h : After done crew crew')
    (schedule : List Nat) : Yields (crew'.follow run schedule) (After (done ++ schedule) crew) := by
  induction schedule generalizing done crew' with
  | nil => exact .pure (by rwa [List.append_nil])
  | cons i schedule ih =>
    rw [follow, List.foldlM_cons]
    refine .bind (yields_step_after h i) fun crew'' hc => ?_
    have := ih hc
    rwa [List.append_assoc] at this

theorem After.refl (crew : Crew) : After [] crew crew :=
  ⟨rfl, fun i x y hx hy => by
    rw [hx] at hy
    obtain rfl := Option.some.inj hy
    exact .inr ⟨rfl, .inr (by simp)⟩⟩

theorem count_rounds {crew : Crew} {i : Nat} (h : i < crew.length) :
    crew.rounds.count i = sumBy Worker.known crew := by
  have hi : (List.range crew.length).count i = 1 :=
    List.count_eq_one_of_mem List.nodup_range (List.mem_range.mpr h)
  rw [rounds, List.count_flatten, List.map_replicate, hi, List.sum_replicate_nat,
    Nat.mul_one]

/-- After the rounds of a crew each thread went through an uncertain stage, or is done. -/
theorem after_rounds {crew crew' : Crew} (h : After crew.rounds crew crew') :
    List.Forall₂ (fun x y : Worker => y.uncertain < x.uncertain ∨
      y.uncertain = x.uncertain ∧ y.todo = []) crew crew' := by
  refine List.forall₂_iff_get.mpr ⟨h.1.symm, fun i hi hi' => ?_⟩
  have := h.2 i _ _ (List.getElem?_eq_getElem hi) (List.getElem?_eq_getElem hi')
  rw [count_rounds hi] at this
  refine this.imp id fun ⟨hu, hk⟩ => ⟨hu, hk.elim id fun hk => Worker.todo_of_known ?_⟩
  have hle : (crew[i]).known ≤ sumBy Worker.known crew := by
    rw [sumBy_eq]
    exact List.single_le_sum (fun _ _ => Nat.zero_le _) _ (List.mem_map_of_mem (List.getElem_mem hi))
  change (crew'[i]).known = 0
  omega

/-- After the rounds of a crew it is done or has fewer uncertain stages. -/
theorem done_or_fewer {c c' : Crew}
    (h : List.Forall₂ (fun x y : Worker => y.uncertain < x.uncertain ∨
      y.uncertain = x.uncertain ∧ y.todo = []) c c') :
    sumBy Worker.uncertain c' ≤ sumBy Worker.uncertain c ∧
      (c'.isDone ∨ sumBy Worker.uncertain c' < sumBy Worker.uncertain c) := by
  induction h with
  | nil => simp [isDone]
  | cons hxy _ ih =>
    simp only [isDone, sumBy, List.foldr_cons, List.all_cons, Bool.and_eq_true,
      List.isEmpty_iff] at ih ⊢
    rcases hxy with hxy | ⟨hxy, hnil⟩ <;> rcases ih with ⟨hle, hd | hlt⟩
    · exact ⟨by omega, .inr (by omega)⟩
    · exact ⟨by omega, .inr (by omega)⟩
    · exact ⟨by omega, .inl ⟨hnil, hd⟩⟩
    · exact ⟨by omega, .inr (by omega)⟩

theorem yields_finish {c : Crew} {m : Nat}
    (h : c.isDone ∨ sumBy Worker.uncertain c < m) :
    Yields (c.finish run m) fun c' => c'.isDone := by
  induction m generalizing c with
  | zero => exact .pure (h.resolve_right (Nat.not_lt_zero _))
  | succ m ih =>
    unfold finish
    split
    · exact .pure (by assumption)
    · rename_i hd
      refine .bind (yields_follow_after (.refl c) _) fun c' hc => ?_
      have hc' := done_or_fewer (after_rounds (by simpa using hc))
      have hm := h.resolve_left hd
      exact ih (hc'.2.imp id fun hlt => by omega)

/-- A crew that is let complete is done. -/
theorem done_of_complete (c : Crew) : Yields (c.complete run) fun c' => c'.isDone :=
  yields_finish (.inr (Nat.lt_succ_self _))

variable {L : Scene} (hr : run.Sound) {w : World} {D E F : Duties}

include hr

/-- A crew that is let complete leaves nothing to do. -/
theorem leads_complete {c : Crew} (hc : c.InOrder L F) (hF : ∀ d ∈ F, d ∈ D)
    (ht : c.Tells w) :
    Leads L (c.complete run) w (due c + D) (fun _ => D) E := by
  intro hs he
  have h := leads_finish hr (E := E) hc hF ht (sumBy Worker.uncertain c + 1) hs he
  rcases hx : (c.complete run).exec w with ⟨p | c', w'⟩ <;> rw [complete] at hx <;> rw [hx] at h
  · exact h
  · have hd := due_of_isDone (done_of_complete c w c' w' hx)
    simpa [Act.due, hd] using h

omit hr in
theorem balanced_raise (c : Crew) : Balanced L (raise c) w D := by
  unfold raise
  split
  · exact .pure rfl
  · exact .throw rfl

end Crew

/-! ## The commands that set threads to work -/

section Commands

variable {L : Scene} {run : Runner} (hr : run.Sound) {w : World} {D E F : Duties} {s : SetId}

theorem leads_createPlain (v : Value) :
    Leads L (createPlain v) w D (fun e => .hold e ::ₘ D) E :=
  .last (.update (.single (.create _)) (.pure rfl))

/-- Adding from several threads at once: each holds its element until all are done. -/
theorem inOrder_adders (hu : L.Uses s) (es : List ElementId) :
    Crew.InOrder L (holds es) (es.map fun e => Worker.ofChores [.add s e]) := by
  intro x hx
  obtain ⟨e, he, rfl⟩ := List.mem_map.mp hx
  refine ⟨?_, ⟨.inl ?_, trivial⟩, ?_⟩
  · intro y hy
    obtain rfl : y = .insert s e := by simpa [Worker.ofChores, Chore.stages] using hy
    trivial
  · exact Multiset.mem_coe.mpr (List.mem_map_of_mem he)
  · intro y hy
    rcases (by simpa [Worker.ofChores, Chore.stages] using hy : y = .drain s ∨ y = .insert s e)
      with rfl | rfl <;> exact hu

theorem due_adders (es : List ElementId) :
    Crew.due (es.map fun e => Worker.ofChores [.add s e]) = 0 := by
  induction es with
  | nil => rfl
  | cons e es ih => rw [List.map_cons, Crew.due_cons, ih]; rfl

/-- What several acts hold is what each of them holds. -/
theorem leads_mapM {α β : Type} {f : α → Act β} {G : β → Duties} {K : List β → Duties}
    (hnil : K [] = 0) (hcons : ∀ y ys, K (y :: ys) = G y + K ys) (xs : List α)
    (h : ∀ x ∈ xs, ∀ w D, Leads L (f x) w D (fun y => G y + D) E) :
    Leads L (xs.mapM f) w D (fun ys => K ys + D) E := by
  induction xs generalizing w D with
  | nil =>
    rw [List.mapM_nil]
    exact .pure (by rw [hnil, Multiset.zero_add])
  | cons x xs ih =>
    rw [List.mapM_cons]
    refine .bind (h x (by simp) w D) fun y w' _ _ =>
      .bind (ih fun x' hx => h x' (by simp [hx])) fun ys _ _ _ => .pure ?_
    rw [hcons, ← Multiset.add_assoc, Multiset.add_comm (G y)]

theorem leads_createAll (vs : List Value) :
    Leads L (vs.mapM createPlain) w D (fun es => holds es + D) E :=
  leads_mapM (G := fun e => .hold e ::ₘ 0) rfl (fun e es => by simp) vs
    fun v _ w D => by simpa using leads_createPlain v

include hr

theorem balanced_addTogether (v : Value) (threads : Nat) (hu : L.Uses s) :
    Balanced L (addTogether run s v threads) w D := by
  refine .intro fun _ ho => leads_swept hr (ho.lt_size hu) fun w₁ _ =>
    .bind (leads_createAll _) fun es w₂ _ _ => balanced_holding hr ?_
  have hcrew := Crew.leads_complete hr (L := L) (w := w₂) (D := holds es + D) (E := holds es + D)
    (inOrder_adders hu es) (fun d hd => Multiset.mem_add.mpr (.inl hd)) (Crew.tells_ofChores _ es w₂)
  rw [due_adders, Multiset.zero_add] at hcrew
  refine .bind hcrew fun c w₃ _ _ => .bind (Crew.balanced_raise c) fun _ w₄ _ _ => ?_
  exact .intro fun _ ho₄ => .bind (balanced_length hr (ho₄.lt_size hu)) fun _ _ _ _ => .pure rfl

omit hr

/-- The chores of a thread, and the elements that it keeps. -/
abbrev Work := List Chore × List ElementId

namespace Work

/-- What is due for the chores of a thread and the elements that it keeps. -/
def due (x : Work) : Duties :=
  Stage.dues (x.1.flatMap Chore.stages) + holds x.2

/-- The chores of a thread are about sets in use, and what is to be inserted is kept or let
go of later. -/
structure Sound (L : Scene) (x : Work) : Prop where
  planned : ∀ st ∈ x.1.flatMap Chore.stages, st.IsPlanned ∧ st.Fits L
  fed : ∀ F xs, (∀ e ∈ x.2, .hold e ∈ F) → Stage.Fed F xs →
    Stage.Fed F (x.1.flatMap Chore.stages ++ xs)

/-- The work of a thread in one list. -/
def join (xs : List Work) : Work :=
  (xs.flatMap Prod.fst, xs.flatMap Prod.snd)

theorem join_cons (x : Work) (xs : List Work) :
    join (x :: xs) = (x.1 ++ (join xs).1, x.2 ++ (join xs).2) := rfl

theorem due_join_cons (x : Work) (xs : List Work) : due (join (x :: xs)) = due x + due (join xs) := by
  rw [join_cons, due, due, due, List.flatMap_append, Stage.dues_append, holds_append]
  rw [Multiset.add_assoc, Multiset.add_assoc, ← Multiset.add_assoc (Stage.dues _) (holds x.2),
    Multiset.add_comm (Stage.dues _) (holds x.2), Multiset.add_assoc]

theorem Sound.join {xs : List Work} (h : ∀ x ∈ xs, Sound L x) : Sound L (join xs) := by
  induction xs with
  | nil => exact ⟨by simp [Work.join], fun _ _ _ h => h⟩
  | cons x xs ih =>
    have hx := h x (by simp)
    have hxs := ih fun y hy => h y (by simp [hy])
    rw [join_cons]
    refine ⟨fun st hst => ?_, fun F ys hF hys => ?_⟩
    · rw [List.flatMap_append, List.mem_append] at hst
      exact hst.elim (hx.planned st) (hxs.planned st)
    · rw [List.flatMap_append, List.append_assoc]
      exact hx.fed F _ (fun e he => hF e (List.mem_append_left _ he))
        (hxs.fed F ys (fun e he => hF e (List.mem_append_right _ he)) hys)

end Work

theorem mod_three {i : Nat} (h₀ : ¬ i % 3 = 0) (h₁ : ¬ i % 3 = 1) : i % 3 = 2 := by
  omega

/-- The work for one value of a thread. -/
theorem sound_mixedChores (hu : L.Uses s) (i : Nat) (v : Value) (e : ElementId) :
    Work.Sound L (mixedChores s i v e, if i % 3 = 2 then [e] else []) := by
  unfold mixedChores
  split
  · refine ⟨?_, fun F xs _ h => ⟨.inr ?_, h⟩⟩
    · simp [Chore.stages, Stage.IsPlanned, Stage.Fits, hu]
    · simp [Chore.stages]
  · refine ⟨?_, fun F xs _ h => ⟨.inr ?_, h⟩⟩
    · simp [Chore.stages, Stage.IsPlanned, Stage.Fits, hu]
    · simp [Chore.stages]
  · rename_i h₀ h₁
    have h₂ := mod_three h₀ h₁
    refine ⟨?_, fun F xs hF h => ⟨.inl (hF e (by simp [h₂])), h⟩⟩
    simp [Chore.stages, Stage.IsPlanned, Stage.Fits, hu]

theorem due_mixedChores (i : Nat) (v : Value) (e : ElementId) :
    Work.due (mixedChores s i v e, if i % 3 = 2 then [e] else []) = .hold e ::ₘ 0 := by
  unfold mixedChores Work.due
  split
  · simp [Chore.stages, Stage.due, *]
  · simp [Chore.stages, Stage.due, *]
  · rename_i h₀ h₁
    have h₂ := mod_three h₀ h₁
    simp [Chore.stages, Stage.due, h₂]

theorem leads_mixedWork (thread count : Nat) :
    Leads L (mixedWork s thread count) w D (fun x => Work.due x + D) E := by
  refine .bind (leads_mapM (K := fun xs => Work.due (Work.join xs)) rfl Work.due_join_cons _
    fun x _ w D => ?_) fun xs w' _ _ => .pure rfl
  exact .bind (leads_createPlain x.2) fun e _ _ _ => .pure (by
    rw [due_mixedChores, Multiset.cons_add, Multiset.zero_add])

theorem yields_mixedWork (hu : L.Uses s) (thread count : Nat) :
    Yields (mixedWork s thread count) (Work.Sound L) := by
  refine .bind (.mapM (Q := Work.Sound L) fun x _ => ?_) fun xs hxs => .pure (Work.Sound.join hxs)
  exact .seq fun e => .pure (sound_mixedChores hu x.1 x.2 e)

theorem balanced_tally {run : Runner} (hr : run.Sound) (hs : s < w.sets.size) :
    Balanced L (tally run s) w D :=
  .bind (balanced_length hr hs) fun _ _ _ _ => .look (.pure rfl)

/-- The threads that do some work. -/
def workers (xs : List Work) : Crew :=
  xs.map fun x => Worker.ofChores x.1

theorem due_workers (xs : List Work) :
    Crew.due (workers xs) + holds (Work.join xs).2 = Work.due (Work.join xs) := by
  induction xs with
  | nil => rfl
  | cons x xs ih =>
    rw [Work.due_join_cons, ← ih, Work.join_cons, workers, List.map_cons, Crew.due_cons,
      holds_append]
    change Stage.dues _ + Crew.due (workers xs) + (holds x.2 + _) = Stage.dues _ + holds x.2 + _
    rw [Multiset.add_assoc, Multiset.add_assoc, ← Multiset.add_assoc (Crew.due _),
      Multiset.add_comm (Crew.due _), Multiset.add_assoc]
    rfl

theorem inOrder_workers {F : Duties} {xs : List Work} (h : ∀ x ∈ xs, Work.Sound L x)
    (hF : ∀ x ∈ xs, ∀ e ∈ x.2, .hold e ∈ F) : (workers xs).InOrder L F := by
  intro x hx
  obtain ⟨y, hy, rfl⟩ := List.mem_map.mp hx
  have hp := (h y hy).planned
  refine ⟨.of_isPlanned fun st hst => (hp st hst).1, ?_, fun st hst => (hp st hst).2⟩
  have := (h y hy).fed F [] (hF y hy) trivial
  rwa [List.append_nil] at this

theorem balanced_mixIn {run : Runner} (hr : run.Sound) (threads count : Nat)
    (hu : L.Uses s) : Balanced L (mixIn run s threads count) w D := by
  have htally (w : World) : Balanced L (tally run s) w D :=
    .intro fun _ ho => balanced_tally hr (ho.lt_size hu)
  refine .bind (leads_mapM (K := fun xs => Work.due (Work.join xs)) rfl Work.due_join_cons _
    fun t _ w D => leads_mixedWork t count) fun xs w₁ hx _ => ?_
  have hwork : ∀ x ∈ xs, Work.Sound L x :=
    Yields.mapM (fun t _ => yields_mixedWork hu t count) _ _ _ hx
  have hF : ∀ x ∈ xs, ∀ e ∈ x.2, .hold e ∈ holds (Work.join xs).2 := fun x hx e he =>
    Multiset.mem_coe.mpr (List.mem_map_of_mem (List.mem_flatMap.mpr ⟨x, hx, he⟩))
  rw [← due_workers, Multiset.add_comm (Crew.due _), Multiset.add_assoc]
  refine .bind (K := fun _ => D) (leads_holding hr (K := fun _ => D) ?_) fun y w₂ _ _ => ?_
  · rw [← Multiset.add_assoc, Multiset.add_comm (holds _), Multiset.add_assoc]
    refine .bind (Crew.leads_complete hr (inOrder_workers hwork hF)
      (fun d hd => Multiset.mem_add.mpr (.inl hd)) (Crew.tells_ofChores _ xs w₁)) fun c w₂ _ _ => ?_
    refine .bind (Crew.balanced_raise c) fun _ w₃ _ _ => ?_
    exact .intro fun _ ho => .bind (balanced_tally hr (ho.lt_size hu)) fun _ _ _ _ => .pure rfl
  · exact .bind (htally w₂) fun _ _ _ _ => .pure rfl

theorem balanced_mixTogether {run : Runner} (hr : run.Sound) (settings : Settings)
    (threads count : Nat) : Balanced L (mixTogether run settings threads count) w D := by
  refine .intro fun hw ho => .bind (leads_construct _ (by simp)) fun s w₁ hx _ => ?_
  obtain ⟨rfl, hs⟩ := serves_of_construct hw.formed.named hx
  refine .intro fun _ ho₁ => .attemptIn (L.le_use none _) (ho₁.use hs)
    (balanced_mixIn hr threads count (L.uses_use none _)) fun r w₂ _ ho₂ => ?_
  rw [due_same]
  have hn := (ho₂.used _ List.mem_cons_self).2.1
  exact .change (.single (.unmake hn ho.not_uses_size)) (.settle (due_same D r).symm)

theorem balanced_asCrew {α : Type} {a : Act α} (h : ∀ w', World.Later w w' → Balanced L a w' D) :
    Balanced L (asCrew a) w D := by
  refine .note rfl (.attempt (h _ (World.later_note w _)) fun r w₂ _ _ => ?_)
  rw [due_same]
  exact .note rfl (.settle (due_same D r).symm)

end Commands

end WeakSet
