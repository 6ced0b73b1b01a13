import WeakSet.Proofs.Crews
import WeakSet.Proofs.Custody
import WeakSet.Proofs.Quiet
import Mathlib.Data.Multiset.Filter

/-!
# Threads keep conditions

What every stage of a thread takes and gives of references is what was due for it
(`Condition.Upheld.perform`). So a condition that the operations of every set keep is kept by
threads in any order, and by the commands that set threads to work. None of these makes an element with a
script.
-/

namespace WeakSet

open Act Duties

/-- The references among what is due. -/
def refsOf (D : Duties) : Multiset ElementId :=
  D.filterMap fun
    | .hold e => some e
    | _ => none

@[simp] theorem refsOf_zero : refsOf 0 = 0 := rfl

theorem refsOf_add (D D' : Duties) : refsOf (D + D') = refsOf D + refsOf D' :=
  Multiset.filterMap_add _ D D'

@[simp] theorem refsOf_hold (e : ElementId) (D : Duties) :
    refsOf (.hold e ::ₘ D) = e ::ₘ refsOf D :=
  Multiset.filterMap_cons_some _ _ _ rfl

/-- What is due otherwise is no reference. -/
@[simp] theorem refsOf_report (t : Ticket) (D : Duties) : refsOf (.report t ::ₘ D) = refsOf D :=
  Multiset.filterMap_cons_none _ _ rfl

@[simp] theorem refsOf_unwatch (t : Ticket) (e : ElementId) (D : Duties) :
    refsOf (.unwatch t e ::ₘ D) = refsOf D :=
  Multiset.filterMap_cons_none _ _ rfl

@[simp] theorem refsOf_holds (es : List ElementId) : refsOf (holds es) = es := by
  induction es with
  | nil => rfl
  | cons e es ih => rw [holds_cons, refsOf_hold, ih, Multiset.cons_coe]

@[simp] theorem refsOf_deals (s : SetId) (ts : List Ticket) : refsOf (deals s ts) = 0 := by
  rw [deals]
  generalize ts.filter _ = l
  induction l with
  | nil => rfl
  | cons t l ih =>
    rw [List.map_cons, ← Multiset.cons_coe]
    exact (Multiset.filterMap_cons_none _ _ rfl).trans ih

@[simp] theorem refsOf_removed (r : Except Panic (Option (Ticket × Handle))) :
    refsOf (Stage.removed r).due = 0 := by
  rcases r with p | _ | ⟨t, h⟩
  · rfl
  · rfl
  · exact refsOf_unwatch t h.element 0

/-- An element without scripts. -/
def Element.IsPlain (x : Element) : Prop :=
  x.onDrop = none ∧ x.onEqual = none

/-! ## What is owed for a stage -/

namespace Stage

/-- What a stage has yet to tell the log. -/
def owed : Stage → Multiset Passage
  | books _ _ t _ _ => {.reclaimed t}
  | inserted r => owedAfter insertedOwed r
  | removed r => owedAfter removedOwed r
  | drain _ | batch .. | report .. | insert .. | remove .. | release _ => 0

/-- What several stages have yet to tell. -/
def owes (xs : List Stage) : Multiset Passage :=
  xs.foldr (fun x D => x.owed + D) 0

theorem owes_cons (x : Stage) (xs : List Stage) : owes (x :: xs) = x.owed + owes xs := rfl

/-- The stages that a chore is made of owe nothing. -/
theorem owes_eq_zero {xs : List Stage} (h : ∀ x ∈ xs, x.IsPlanned) : owes xs = 0 := by
  induction xs with
  | nil => rfl
  | cons x xs ih =>
    have hx : x.owed = 0 := by
      have := h x (by simp)
      cases x <;> first | rfl | cases this
    rw [owes_cons, hx, ih fun y hy => h y (by simp [hy]), Multiset.zero_add]

theorem owes_releases (es : List ElementId) (xs : List Stage) :
    owes (es.map release ++ xs) = owes xs := by
  rw [owes, foldr_add_append, ← owes, ← owes, owes_eq_zero, Multiset.zero_add]
  intro x hx
  obtain ⟨e, -, rfl⟩ := List.mem_map.mp hx
  trivial

end Stage

/-- What a thread has yet to tell. -/
def Worker.owed (x : Worker) : Multiset Passage :=
  Stage.owes x.todo

namespace Crew

/-- What the threads have yet to tell. -/
def owed (crew : Crew) : Multiset Passage :=
  crew.foldr (fun x D => x.owed + D) 0

/-- Threads that have only stages before them that chores are made of owe nothing, and so do threads that
are done. -/
theorem owed_eq_zero {crew : Crew} (h : ∀ x ∈ crew, ∀ st ∈ x.todo, st.IsPlanned) : crew.owed = 0 := by
  induction crew with
  | nil => rfl
  | cons x crew ih =>
    change Stage.owes x.todo + owed crew = 0
    rw [Stage.owes_eq_zero (h x (by simp)), ih fun y hy => h y (by simp [hy]), Multiset.zero_add]

theorem owed_of_isDone {crew : Crew} (h : crew.isDone) : crew.owed = 0 :=
  owed_eq_zero fun x hx st hst => by
    have := List.all_eq_true.mp h x hx
    rw [List.isEmpty_iff.mp this] at hst
    cases hst

/-- Threads that have not begun owe nothing. -/
theorem owed_ofChores {α : Type} (f : α → List Chore) (xs : List α) :
    Crew.owed (xs.map fun x => Worker.ofChores (f x)) = 0 := by
  refine owed_eq_zero fun x hx st hst => ?_
  obtain ⟨y, -, rfl⟩ := List.mem_map.mp hx
  obtain ⟨c, -, hc⟩ := List.mem_flatMap.mp hst
  cases c <;> simp [Chore.stages] at hc <;> rcases hc with rfl | rfl <;> trivial

end Crew

namespace Condition.Upheld

/-! ## Stages -/

variable {A : Condition} {run : Runner} {n : Standing} {F : Multiset ElementId} {L : Scene} {D : Duties}
  {E : World → Prop} {x : Worker}

/-- What is true when the references of a thread are counted, besides others, and what it has yet to tell. -/
abbrev With (A : Condition) (n : Standing) (F : Multiset ElementId) (x : Worker) : World → Prop :=
  A (n.owe x.owed) (refsOf x.due + F)

theorem with_cons (x : Worker) (st : Stage) : With A n F { x with todo := st :: x.todo } =
    A (n.owe (st.owed + x.owed)) (refsOf st.due + (refsOf x.due + F)) := by
  rw [With, Worker.due_cons, refsOf_add, Multiset.add_assoc]
  rfl

theorem with_done (hx : x.owed = 0) {w : World} (hw : A n (refsOf x.due + F) w) : With A n F x w := by
  rwa [With, hx, n.owe_zero]

theorem with_next (hx : x.owed = 0) (st : Stage) : With A n F { x with todo := st :: x.todo } =
    A (n.owe st.owed) (refsOf st.due + (refsOf x.due + F)) := by
  rw [with_cons, hx, Multiset.add_zero]

theorem with_batch (hx : x.owed = 0) (s : SetId) (b : Batch) (ts : List Ticket) :
    With A n F { x with todo := .batch s b ts :: x.todo } = A n (refsOf x.due + F) := by
  rw [with_next hx, Stage.due, refsOf_deals, Multiset.zero_add, Stage.owed, n.owe_zero]

theorem with_releases (hx : x.owed = 0) (es : List ElementId) (st : Stage) :
    With A n F { x with todo := es.map .release ++ st :: x.todo } =
      A (n.owe st.owed) (es + (refsOf st.due + (refsOf x.due + F))) := by
  rw [With, Worker.due_releases, refsOf_add, refsOf_add, refsOf_holds, Multiset.add_assoc,
    Multiset.add_assoc, Worker.owed, Stage.owes_releases, Stage.owes_cons, ← Worker.owed, hx,
    Multiset.add_zero]
  rfl

variable (hA : ∀ s, A.Upheld run s (fun _ => True) n)

include hA

/-- A thread that takes up notices owes a line from where it takes out a handle to where it closes its
books. -/
theorem performBatch (hp : A.panics) (hx : x.owed = 0) (s : SetId) (b : Batch) (ts : List Ticket) :
    Ensures (A n (refsOf x.due + F)) (x.perform run (.batch s b ts)) (With A n F)
      (A n (refsOf x.due + F)) := by
  have hnext (ts : List Ticket) (w : World) (hw : A n (refsOf x.due + F) w) :
      With A n F { x with todo := .batch s b ts :: x.todo } w := by rwa [with_batch hx]
  cases ts with
  | nil =>
    refine .bind (.discard ?_) fun _ => .pure fun _ => with_done hx
    exact .imp ((hA s).closeBatch b).forget fun w hw => ⟨hw, fun _ => .inl hp⟩
  | cons t ts =>
    refine .look fun foreign => ?_
    split
    · exact .bind ((hA s).log rfl).left fun _ => .pure (hnext ts)
    · rename_i hf
      refine .imp (.fact fun ht : t.owner = s => ?_)
        fun w hw => ⟨hw.1, owner_of_not_isForeign (hw.2 ▸ hf)⟩
      refine .bind ((hA s).takeOutOne ht fun _ => trivial).forget fun h? => ?_
      cases h? with
      | none => exact .pure fun w hw => hnext ts w (n.owe_zero ▸ hw)
      | some h =>
        refine .pure fun w hw => ?_
        rw [with_next hx, Stage.due, refsOf_report, refsOf_unwatch, refsOf_deals, Multiset.zero_add]
        exact hw

theorem performReport (hx : x.owed = 0) {s : SetId} {r : Record} (ht : r.ticket.owner = s) (b : Batch)
    (ts : List Ticket) :
    Ensures (A n (r.refs + (refsOf x.due + F))) (x.perform run (.report s b r ts)) (With A n F)
      (A n (refsOf x.due + F)) := by
  have hnext (b : Batch) (w : World) (hw : A n (refsOf x.due + F) w) :
      With A n F { x with todo := .batch s b ts :: x.todo } w := by rwa [with_batch hx]
  refine .attempt ((hA s).report ht trivial).forget fun outcome => ?_
  rw [after_same]
  cases outcome with
  | ok _ => exact .look fun _ => .left (.pure (hnext _))
  | error p => exact .bind ((hA s).log rfl) fun _ => .look fun _ => .left (.pure (hnext _))

/-- The thread tells of the handle that it stored, if it did. -/
theorem performInserted (hx : x.owed = 0) (r : Except Panic (Option Ticket)) :
    Ensures (A (n.owe (owedAfter insertedOwed r)) (refsOf x.due + F)) (x.perform run (.inserted r))
      (With A n F) (A n (refsOf x.due + F)) := by
  refine .bind (R := fun t? => A (n.owe (insertedOwed t?)) (refsOf x.due + F)) ?_ fun t? => ?_
  · cases r with
    | ok _ => exact .pure fun _ hw => hw
    | error p => exact .throw fun _ hw => n.owe_zero ▸ hw
  · cases t? with
    | none => exact .pure fun w hw => with_done hx (n.owe_zero ▸ hw)
    | some t => exact .bind ((hA t.owner).told rfl) fun _ => .pure fun _ => with_done hx

/-- The thread ceases to watch the element that it removed and tells of it, if it did. -/
theorem performRemoved (hx : x.owed = 0) (r : Except Panic (Option (Ticket × Handle))) :
    Ensures (A (n.owe (owedAfter removedOwed r)) (refsOf x.due + F)) (x.perform run (.removed r))
      (With A n F) (A n (refsOf x.due + F)) := by
  refine .bind (R := fun y => A (n.owe (removedOwed y)) (refsOf x.due + F)) ?_ fun y => ?_
  · cases r with
    | ok _ => exact .pure fun _ hw => hw
    | error p => exact .throw fun _ hw => n.owe_zero ▸ hw
  · cases y with
    | none => exact .pure fun w hw => with_done hx (n.owe_zero ▸ hw)
    | some y => exact .bind ((hA y.1.owner).bookRemoval rfl y.2) fun _ => .pure fun _ => with_done hx

/-- A stage turns the references that were due for it into those of the stages that come of it, and tells
what it owed. Where it may panic, the references of the stages after it stay, and those owe nothing. -/
theorem perform (hp : A.panics) {st : Stage} (hin : Worker.InOrder L D { x with todo := st :: x.todo })
    (hE : st.isRelease = false → E = A n (refsOf x.due + F)) :
    Ensures (With A n F { x with todo := st :: x.todo }) (x.perform run st) (With A n F) E := by
  have hfit := hin.fits st (by simp)
  -- only references that are let go of may come before what another stage owes
  by_cases hst : st.isRelease
  · cases st with
    | release e =>
      rw [with_cons]
      simp only [Stage.due, refsOf_hold, refsOf_zero, Multiset.cons_add, Multiset.zero_add, Stage.owed]
      exact .bind ((hA 0).toLends.releaseOne e) fun _ => .pure fun _ hw => hw
    | _ => cases hst
  have hx : x.owed = 0 := Stage.owes_eq_zero (hin.ordered.isPlanned (by simpa using hst))
  obtain rfl := hE (by simpa using hst)
  cases st with
  | drain s =>
    rw [with_next hx, Stage.due, refsOf_zero, Multiset.zero_add, Stage.owed, n.owe_zero]
    exact .update (R := fun _ => A n _) (fun w hw => ((hA s).takeNotices hw).1) fun ts =>
      .pure fun w hw => by rwa [with_batch hx]
  | batch s b ts =>
    rw [with_batch hx]
    exact performBatch hA hp hx s b ts
  | books s b t h ts =>
    rw [with_next hx]
    simp only [Stage.due, refsOf_report, refsOf_unwatch, refsOf_deals, Multiset.zero_add]
    refine .bind ((hA s).closeBooks hfit h) fun r => .left (.pure fun w hw => ?_)
    rw [with_next hx, Stage.owed, n.owe_zero]
    simpa [Stage.due, Record.refs, refsOf_add] using hw
  | report s b r ts =>
    rw [with_next hx]
    simp only [Stage.due, refsOf_report, refsOf_add, refsOf_holds, refsOf_deals, Multiset.add_zero,
      Stage.owed, n.owe_zero]
    exact performReport hA hx hfit b ts
  | insert s e =>
    rw [with_next hx, Stage.due, refsOf_zero, Multiset.zero_add, Stage.owed, n.owe_zero]
    refine .bind ((hA s).insertSection e).forget fun sec => .pure fun w hw => ?_
    rw [with_releases hx]
    simpa [Stage.due, Stage.owed] using hw.holds
  | remove s q =>
    rw [with_next hx, Stage.due, refsOf_zero, Multiset.zero_add, Stage.owed, n.owe_zero]
    refine .bind ((hA s).removeSection q).forget fun sec => .pure fun w hw => ?_
    rw [with_releases hx, refsOf_removed, Multiset.zero_add]
    exact hw.holds
  | release e => exact absurd rfl hst
  | inserted r =>
    rw [with_next hx, Stage.due, refsOf_zero, Multiset.zero_add]
    exact performInserted hA hx r
  | removed r =>
    rw [with_next hx, refsOf_removed, Multiset.zero_add]
    exact performRemoved hA hx r

/-- One stage of a thread, which a panic may end. -/
theorem step (hp : A.panics) (hx : x.InOrder L D) :
    Ensures (With A n F x) (x.step run) (With A n F) E := by
  unfold Worker.step
  split
  · exact .pure fun _ hw => hw
  · rename_i st todo h
    have hx' : Worker.InOrder L D { ({ x with todo := todo } : Worker) with todo := st :: todo } := by
      rw [← h]; exact hx
    have hwith : With A n F x = With A n F { ({ x with todo := todo } : Worker) with todo := st :: todo } := by
      rw [With, Worker.due, Worker.owed, h]
      rfl
    rw [hwith]
    refine .attempt (E := A n (refsOf (Stage.dues (todo.filter Stage.isRelease)) + F))
      (perform hA hp (x := { x with todo := todo }) hx' fun hst => ?_) fun r => ?_
    · rw [Stage.dues_filter (hx'.ordered.isPlanned hst)]
      rfl
    · cases r with
      | ok y => exact .pure fun _ hw => hw
      | error p =>
        refine .pure fun _ hw => ?_
        have h0 : Stage.owes (todo.filter Stage.isRelease) = 0 :=
          Stage.owes_eq_zero (Stage.isPlanned_filter todo)
        rw [With, Worker.owed, Worker.fail, h0, n.owe_zero]
        exact hw

end Condition.Upheld

/-- A condition that says nothing of particular sets: where code stands as `n` says, the operations of all
sets keep it, also while other code has yet to tell the log of handles, and so does whatever makes elements and
sets. Those have scripts only if `scripted`, and sets are set up without fault. -/
structure Condition.Unconfined (A : Condition) (run : Runner) (scripted : Prop) (n : Standing) : Prop
    extends A.Lends run where
  panics : A.panics
  indebted : ∀ s G, A.Upheld run s (fun _ => True) (n.owe G)
  remark : ∀ {F w x}, Entry.isRemark x → A n F w → A n F (w.note x)
  create : ∀ {F w x}, x.IsPlain ∨ scripted → A n F w → A n (w.cells.size ::ₘ F) (w.create x).2
  newSet : ∀ {F w b channel}, b.settings.fault? = none → b.listener.IsPlain ∨ scripted → A n F w →
    A n F (w.newSet b channel).2
  unmake : ∀ {F w s}, A n F w → A n F (w.unmake s)

namespace Condition.Unconfined

variable {A : Condition} {run : Runner} {scripted : Prop} {n : Standing}
  (hA : A.Unconfined run scripted n) {F : Multiset ElementId} {L : Scene} {D : Duties}
  {E : World → Prop} {s : SetId}

include hA

theorem upheld (s : SetId) : A.Upheld run s (fun _ => True) n :=
  n.owe_zero ▸ hA.indebted s 0

/-! ## Crews -/

/-- What is true when the references of all threads are counted, besides others, and what they have yet to
tell. -/
abbrev Manned (A : Condition) (n : Standing) (F : Multiset ElementId) (c : Crew) : World → Prop :=
  A (n.owe c.owed) (refsOf c.due + F)

theorem crewStep {c : Crew} (hc : c.InOrder L D) (i : Nat) :
    Ensures (Manned A n F c) (c.step run i) (Manned A n F) E := by
  unfold Crew.step
  split
  · exact .pure fun _ hw => hw
  · rename_i x h
    obtain ⟨R, hR, hset⟩ := Crew.due_set h
    obtain ⟨G, hG, howed⟩ := foldr_add_set Worker.owed h
    have hmanned (c' : Crew) (y : Worker) (hd : c'.due = y.due + R) (ho : c'.owed = y.owed + G) :
        Manned A n F c' = Upheld.With A (n.owe G) (refsOf R + F) y := by
      rw [Manned, Upheld.With, hd, ho, refsOf_add, Multiset.add_assoc, n.owe_owe]
    rw [hmanned c x hR hG]
    refine .bind (Upheld.step (hA.indebted · G) hA.panics (hc x (List.mem_of_getElem? h))) fun y =>
      .pure fun w hw => ?_
    rw [hmanned (c.set i y) y (hset y) (howed y)]
    exact hw

/-- Threads in any order. -/
theorem follow {c : Crew} (hc : c.InOrder L D) (schedule : List Nat) :
    Ensures (Manned A n F c) (c.follow run schedule) (Manned A n F) E := by
  induction schedule generalizing c with
  | nil => exact .pure fun _ hw => hw
  | cons i schedule ih =>
    rw [Crew.follow, List.foldlM_cons]
    exact .bind ((hA.crewStep hc i).yields (Crew.yields_step hc i)) fun c' => .fact fun hc' => ih hc'

theorem finish {c : Crew} (hc : c.InOrder L D) (m : Nat) :
    Ensures (Manned A n F c) (c.finish run m) (Manned A n F) E := by
  induction m generalizing c with
  | zero => exact .pure fun _ hw => hw
  | succ m ih =>
    unfold Crew.finish
    split
    · exact .pure fun _ hw => hw
    · exact .bind ((hA.follow hc _).yields (Crew.yields_follow hc _)) fun c' => .fact fun hc' =>
        ih hc'

/-- A crew that is let complete holds nothing more. -/
theorem complete {c : Crew} (hc : c.InOrder L D) :
    Ensures (Manned A n F c) (c.complete run) (fun _ => A n F) E := by
  refine ((hA.finish hc _).yields (Crew.done_of_complete c)).post (fun c' w hw => ?_) fun _ hw => hw
  have h := hw.1
  rwa [Manned, Crew.due_of_isDone hw.2, refsOf_zero, Multiset.zero_add, Crew.owed_of_isDone hw.2,
    n.owe_zero] at h

omit hA in
theorem raise (c : Crew) : Preserves (A n F) c.raise := by
  unfold Crew.raise
  split
  · exact .pure fun _ hw => hw
  · exact .throw fun _ hw => hw

theorem asCrew {α : Type} {a : Act α} (ha : Preserves (A n F) a) : Preserves (A n F) (asCrew a) := by
  refine .note (R := A n F) (fun _ hw => hA.remark rfl hw) (.attempt ha fun r => ?_)
  rw [after_same]
  refine .note (R := A n F) (fun _ hw => hA.remark rfl hw) ?_
  cases r with
  | ok _ => exact .pure fun _ hw => hw
  | error p => exact .throw fun _ hw => hw

theorem createPlain (v : Value) :
    Ensures (A n F) (createPlain v) (fun e => A n (e ::ₘ F)) E :=
  .last (.update (R := fun e => A n (e ::ₘ F)) (fun _ hw => hA.create (.inl ⟨rfl, rfl⟩) hw)
    fun _ => .pure fun _ hw => hw)

omit hA in
/-- What several acts hold is what each of them holds. -/
theorem mapM {α β : Type} {f : α → Act β} {G : β → Multiset ElementId}
    {K : List β → Multiset ElementId} (hnil : K [] = 0) (hcons : ∀ y ys, K (y :: ys) = G y + K ys)
    (xs : List α) (h : ∀ x F, Ensures (A n F) (f x) (fun y => A n (G y + F)) E) :
    Ensures (A n F) (xs.mapM f) (fun ys => A n (K ys + F)) E := by
  induction xs generalizing F with
  | nil =>
    rw [List.mapM_nil]
    exact .pure fun w hw => by rwa [hnil, Multiset.zero_add]
  | cons x xs ih =>
    rw [List.mapM_cons]
    refine .bind (h x F) fun y => .bind ih fun ys => .pure fun w hw => ?_
    rwa [hcons, ← Multiset.add_assoc, Multiset.add_comm (G y), Multiset.add_assoc] at *

/-! ## The commands that set threads to work -/

theorem addTogether (v : Value) (threads : Nat) :
    Preserves (A n F) (addTogether run s v threads) := by
  refine ((hA.upheld s).swept (.bind (mapM (K := fun es => (es : Multiset ElementId))
    (G := fun e => {e}) rfl (fun _ _ => rfl) _ fun v F => hA.createPlain v) fun es => ?_)).forget
  refine hA.balanced_holding (.bind ?_ fun c => .bind (.allow (.inl hA.panics) (raise c)) fun _ =>
    .bind (hA.upheld s).length fun _ => .pure fun _ hw => hw)
  refine .imp (hA.complete (inOrder_adders (L := Scene.idle.use none s) (Scene.uses_use _ _ s) es))
    fun w hw => ?_
  rwa [Manned, due_adders, refsOf_zero, Multiset.zero_add, Crew.owed_ofChores, n.owe_zero]

theorem mixedWork (thread count : Nat) :
    Ensures (A n F) (mixedWork s thread count) (fun x => A n (refsOf (Work.due x) + F)) E := by
  refine .bind (mapM (K := fun xs => refsOf (Work.due (Work.join xs)))
    (G := fun x => refsOf (Work.due x)) rfl (fun x xs => ?_) _ fun x F => ?_) fun xs =>
      .pure fun _ hw => hw
  · rw [Work.due_join_cons, refsOf_add]
  · refine .bind (hA.createPlain x.2) fun e => .pure fun w hw => ?_
    rw [due_mixedChores, refsOf_hold, refsOf_zero, Multiset.cons_add, Multiset.zero_add]
    exact hw

theorem tally : Preserves (A n F) (tally run s) :=
  .bind (hA.upheld s).length.forget fun _ => .look fun _ => .pure fun _ hw => hw.1

theorem mixIn (threads count : Nat) : Preserves (A n F) (mixIn run s threads count) := by
  have hu : (Scene.idle.use none s).Uses s := Scene.uses_use _ _ s
  refine .bind ((mapM (K := fun xs => refsOf (Work.due (Work.join xs)))
    (G := fun x => refsOf (Work.due x)) rfl (fun x xs => ?_) _ fun t F => hA.mixedWork t count).yields
      (.mapM fun t _ => yields_mixedWork hu t count)) fun xs => .fact fun hwork => ?_
  · rw [Work.due_join_cons, refsOf_add]
  have hin : (workers xs).InOrder (Scene.idle.use none s) (holds (Work.join xs).2) :=
    inOrder_workers hwork fun x hx e he =>
      Multiset.mem_coe.mpr (List.mem_map_of_mem (List.mem_flatMap.mpr ⟨x, hx, he⟩))
  have hdue : refsOf (Work.due (Work.join xs)) + F =
      ((Work.join xs).2 : Multiset ElementId) + (refsOf (workers xs).due + F) := by
    rw [← due_workers, refsOf_add, refsOf_holds, Multiset.add_comm (refsOf _), Multiset.add_assoc]
  rw [hdue]
  refine .bind (R := fun _ => A n F) (hA.holding (K := fun _ => F) (.allow trivial ?_)).forget fun y =>
    .bind hA.tally fun _ => .pure fun _ hw => hw
  rw [← Multiset.add_assoc, Multiset.add_comm ((Work.join xs).2 : Multiset ElementId),
    Multiset.add_assoc]
  have hstart (w : World) (hw : A n (refsOf (workers xs).due + ((Work.join xs).2 + F)) w) :
      Manned A n ((Work.join xs).2 + F) (workers xs) w := by
    rwa [Manned, workers, Crew.owed_ofChores, n.owe_zero]
  exact .bind (.imp (hA.complete hin) hstart) fun c => .bind (raise c) fun _ => .bind hA.tally fun _ =>
    .pure fun _ hw => hw

theorem construct {b : Blueprint} (hf : b.settings.fault? = none) (hb : b.listener.IsPlain ∨ scripted)
    (channel : Option ChannelId) : Preserves (A n F) (construct b channel) :=
  .note (fun _ hw => hA.remark rfl hw) (.last (.update (R := fun _ => A n F)
    (fun _ hw => hA.newSet hf hb hw) fun _ => .pure fun _ hw => hw))

theorem destroy : Preserves (A n F) (destroy s) :=
  .last (.change (fun _ hw => hA.unmake hw) (.pure fun _ hw => hw))

theorem mixTogether {settings : Settings} (hf : settings.fault? = none) (threads count : Nat) :
    Preserves (A n F) (mixTogether run settings threads count) := by
  refine .bind (hA.construct hf (.inl fun _ => rfl) none) fun s => .attempt (hA.mixIn threads count) fun r => ?_
  rw [after_same]
  refine .bind hA.destroy fun _ => ?_
  cases r with
  | ok _ => exact .pure fun _ hw => hw
  | error p => exact .throw fun _ hw => hw

/-- A set is made of some elements, or is unmade again. -/
theorem constructOf {b : Blueprint} (hf : b.settings.fault? = none) (hb : b.listener.IsPlain ∨ scripted)
    (es : List ElementId) : Preserves (A n F) (constructOf run b es) := by
  refine .bind (hA.construct hf hb none) fun s => .attempt ((hA.upheld s).addAll es).forget fun r => ?_
  rw [after_same]
  cases r with
  | ok _ => exact .pure fun _ hw => hw
  | error p => exact .bind hA.destroy fun _ => .throw fun _ hw => hw

end Condition.Unconfined

end WeakSet
