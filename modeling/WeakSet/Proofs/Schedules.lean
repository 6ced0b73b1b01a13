import WeakSet.Proofs.Histories
import Mathlib.Algebra.BigOperators.Fin

/-!
# Threads in any order

What threads were told, one stage after the other, is known from what each of them set out to ask
(`Crew.Along`), whatever the schedule: no thread is ended by a panic, every thread is answered its
chores in order, and the world has the history that their answers make.
-/

namespace WeakSet

open Act Duties World

/-! ## What a schedule decides -/

namespace Answer

/-- Whether an insertion succeeded. -/
def isAddition (a : Answer) : Bool :=
  a.chore.isAdd && a.ticket?.isSome

/-- Whether a removal succeeded. -/
def isRemoval (a : Answer) : Bool :=
  a.chore.isRemove && a.ticket?.isSome

end Answer

namespace Crew

/-- What the next stage of a thread decides. -/
def answer? (run : Runner) (crew : Crew) (i : Nat) (w : World) : Option Answer :=
  ((crew[i]?).bind fun x => x.todo.head?).bind fun st =>
    st.chore?.map fun c => ⟨i, c, st.ticket? run w⟩

/-- What the stages of a schedule decide, in order. -/
def answers (run : Runner) : List Nat → Crew → World → List Answer
  | [], _, _ => []
  | i :: schedule, crew, w =>
    (crew.answer? run i w).toList ++
      match (crew.step run i).exec w with
      | (.ok crew', w') => answers run schedule crew' w'
      | (.error _, _) => []

/-- What each stage keeps holds after all stages of a schedule. -/
theorem exists_follow {run : Runner} {I : List Answer → Crew → World → Prop}
    (hI : ∀ l crew w i, I l crew w → ∃ crew' w', (crew.step run i).exec w = (.ok crew', w') ∧
      I (l ++ (crew.answer? run i w).toList) crew' w')
    {l : List Answer} {crew : Crew} {w : World} (h : I l crew w) (schedule : List Nat) :
    ∃ crew' w', (crew.follow run schedule).exec w = (.ok crew', w') ∧
      I (l ++ answers run schedule crew w) crew' w' := by
  induction schedule generalizing l crew w with
  | nil => exact ⟨crew, w, rfl, by rwa [answers, List.append_nil]⟩
  | cons i schedule ih =>
    obtain ⟨crew₁, w₁, h₁, hI₁⟩ := hI l crew w i h
    obtain ⟨crew₂, w₂, h₂, hI₂⟩ := ih hI₁
    refine ⟨crew₂, w₂, ?_, ?_⟩
    · rw [follow, List.foldlM_cons, exec_bind_ok h₁]
      exact h₂
    · rw [answers, h₁, ← List.append_assoc]
      exact hI₂

end Crew

/-! ## One thread -/

namespace Worker

/-- What a thread has yet to ask. -/
def chores (x : Worker) : List Chore :=
  x.todo.filterMap Stage.chore?

/-- A thread that set out as `x₀` and has been given answers. -/
structure Answered (x₀ : Worker) (l : List Answer) (x : Worker) : Prop where
  chores : l.map Answer.chore ++ x.chores = x₀.chores
  additions : x.additions = x₀.additions + l.countP Answer.isAddition
  removals : x.removals = x₀.removals + l.countP Answer.isRemoval
  /-- What comes after a chore has been ahead from the start. -/
  ahead : ∀ z zs, z.chore?.isSome → z :: zs <:+ x.todo → z :: zs <:+ x₀.todo
  failure : x.failure = x₀.failure

variable {run : Runner} {s : SetId} {D : Duties} {x₀ x y : Worker} {st : Stage} {w w' : World}
  {l : List Answer}

theorem Answered.refl (x : Worker) : x.Answered [] x :=
  ⟨rfl, rfl, rfl, fun _ _ _ h => h, rfl⟩

/-- A stage that decides nothing cannot come before one that does. -/
theorem suffix_of_append {z : Stage} {zs new xs : List Stage} (hz : z.chore?.isSome)
    (hnew : ∀ st ∈ new, st.chore? = none) (h : z :: zs <:+ new ++ xs) : z :: zs <:+ xs := by
  induction new with
  | nil => exact h
  | cons st new ih =>
    rcases List.suffix_cons_iff.mp h with he | h
    · obtain ⟨rfl, -⟩ := List.cons.inj he
      rw [hnew z List.mem_cons_self] at hz
      cases hz
    · exact ih (fun st hst => hnew st (List.mem_cons_of_mem _ hst)) h

/-- A stage adds its answer. -/
theorem Answered.does (h : x₀.Answered l { x with todo := st :: x.todo })
    (hd : Worker.Does run s D x st w y w') (i : Nat) :
    x₀.Answered (l ++ (st.chore?.map fun c => (⟨i, c, st.ticket? run w⟩ : Answer)).toList) y := by
  obtain ⟨new, hy, hnew⟩ := hd.todo
  have hnone : new.filterMap Stage.chore? = [] :=
    List.filterMap_eq_nil_iff.mpr fun z hz => (hnew z hz).1
  refine ⟨?_, ?_, ?_, fun z zs hz hs => ?_, hd.failure.trans h.failure⟩
  · rw [← h.chores, Worker.chores, Worker.chores, hy, List.filterMap_append, hnone,
      List.nil_append, List.filterMap_cons, List.map_append, List.append_assoc]
    cases st.chore? <;> rfl
  · rw [hd.additions, h.additions, List.countP_append, Nat.add_assoc]
    cases st.chore? <;> simp [Answer.isAddition, List.countP_singleton]
  · rw [hd.removals, h.removals, List.countP_append, Nat.add_assoc]
    cases st.chore? <;> simp [Answer.isRemoval, List.countP_singleton]
  · rw [hy] at hs
    have hs := suffix_of_append hz (fun st hst => (hnew st hst).1) hs
    exact h.ahead z zs hz (hs.trans (List.suffix_cons st x.todo))

end Worker

/-! ## All threads -/

namespace Crew

/-- The threads of `crew₀` were set to work in world `w₀`, where they hold references that `F` and
`D` tell of, and were given answers. -/
structure Along (L : Scene) (F D : Duties) (s : SetId) (crew₀ : Crew) (w₀ : World)
    (l : List Answer) (crew : Crew) (w : World) : Prop where
  busy : w.Busy (due crew + D)
  on : L.On w
  order : crew.InOrder L F
  tells : crew.Tells w
  sober : ∀ x ∈ crew, ∀ st ∈ x.todo, st.Sober w
  later : Later w₀ w
  owners : w.owners = w₀.owners
  history : History s w₀ l w
  length : crew.length = crew₀.length
  answered : ∀ (i : Nat) (x₀ x : Worker), crew₀[i]? = some x₀ → crew[i]? = some x →
    x₀.Answered (answersTo i l) x
  threads : ∀ a ∈ l, a.thread < crew₀.length

variable {L : Scene} {run : Runner} (hr : run.Sound) {w₀ w w' : World} {D F : Duties} {s : SetId}
  {crew₀ crew : Crew} {l : List Answer} {i : Nat}

/-- A thread does its next stage, or there is none. -/
inductive Steps (run : Runner) (D : Duties) (s : SetId) (crew : Crew) (w : World) (i : Nat) :
    Crew → World → Option Answer → Prop
  | idle (h : ∀ x, crew[i]? = some x → x.todo = []) : Steps run D s crew w i crew w none
  | does {x y : Worker} {st : Stage} {R : Duties} {w' : World}
      (hx : crew[i]? = some { x with todo := st :: x.todo })
      (hdue : due crew = st.due + (x.due + R)) (hset : due (crew.set i y) = y.due + R)
      (hd : Worker.Does run s (R + D) x st w y w') :
      Steps run D s crew w i (crew.set i y) w'
        (st.chore?.map fun c => ⟨i, c, st.ticket? run w⟩)

include hr

/-- A step of a crew in a busy world. -/
theorem Along.exists_steps (h : Along L F D s crew₀ w₀ l crew w) (hL : ∀ s', L.Uses s' → s' = s)
    (hF : ∀ d ∈ F, d ∈ D) (i : Nat) :
    ∃ crew' w', (crew.step run i).exec w = (.ok crew', w') ∧
      Steps run D s crew w i crew' w' (crew.answer? run i w) := by
  rcases hx : crew[i]? with _ | x
  · refine ⟨crew, w, by rw [step, hx]; rfl, ?_⟩
    rw [answer?, hx]
    exact .idle (by simp [hx])
  · rcases ht : x.todo with _ | ⟨st, todo⟩
    · refine ⟨crew, w, ?_, ?_⟩
      · have hs : crew.set i x = crew := by
          obtain ⟨hi, rfl⟩ := List.getElem?_eq_some_iff.mp hx
          exact List.set_getElem_self hi
        have hw : (x.step run).exec w = (.ok x, w) := by rw [Worker.step, ht]; rfl
        rw [step, hx]
        simp only
        rw [exec_bind_ok hw, hs]
        rfl
      · rw [answer?, hx, Option.bind_some, ht]
        exact .idle (by simp [hx, ht])
    · obtain ⟨x, rfl⟩ : ∃ z : Worker, x = { z with todo := st :: z.todo } :=
        ⟨{ x with todo := todo }, by rw [← ht]⟩
      obtain ⟨R, hR, hset⟩ := due_set hx
      have hmem := List.mem_of_getElem? hx
      have hready : Worker.Ready L F (R + D) s w x st := by
        refine ⟨?_, h.on, hL, h.order _ hmem, fun d hd => Multiset.mem_add.mpr (.inr (hF d hd)),
          h.sober _ hmem st List.mem_cons_self⟩
        have := h.busy
        rwa [hR, Worker.due_cons, Multiset.add_assoc, Multiset.add_assoc] at this
      obtain ⟨y, w', hd⟩ := Worker.exists_does hr hready
      refine ⟨crew.set i y, w', ?_, ?_⟩
      · have hw : (Worker.step run { x with todo := st :: x.todo }).exec w = (.ok y, w') := by
          rw [Worker.step]
          simp only
          rw [exec_bind_ok (exec_attempt _ _), hd.exec]
          rfl
        rw [step, hx]
        simp only
        rw [exec_bind_ok hw]
        rfl
      · rw [answer?, hx]
        refine .does hx ?_ (hset y) hd
        rw [hR, Worker.due_cons, Multiset.add_assoc]
        rfl

/-- A step keeps what there is to say of a crew. -/
theorem Along.steps (h : Along L F D s crew₀ w₀ l crew w) (hF : ∀ d ∈ F, d ∈ D)
    {crew' : Crew} {a? : Option Answer} (hx : (crew.step run i).exec w = (.ok crew', w'))
    (hs : Steps run D s crew w i crew' w' a?) : Along L F D s crew₀ w₀ (l ++ a?.toList) crew' w' := by
  have hc : Course L (w, due crew + D) (w', due crew' + D) :=
    (leads_step hr h.order hF h.tells (E := 0) i).ok hx h.busy.point h.on
  have hon : L.On w' := hc.on h.on
  have horder : crew'.InOrder L F := yields_step h.order i _ _ _ hx
  have htells : crew'.Tells w' := tells_step h.busy.point h.tells (hc.later h.busy.sane) hx
  cases hs with
  | idle =>
    rw [Option.toList_none, List.append_nil]
    exact h
  | @does x y st R _ hi hdue hset hd =>
    have hlt := (List.getElem?_eq_some_iff.mp hi).1
    have hmem := List.mem_of_getElem? hi
    have hbusy : w'.Busy (due (crew.set i y) + D) := by
      rw [hset, Multiset.add_assoc]
      exact hd.busy
    have hl := hd.later
    refine ⟨hbusy, hon, horder, htells, fun z hz st' hst => ?_, h.later.trans hl,
      hd.owners.trans h.owners,
      h.history.turn h.busy.sane hbusy.sane h.busy.quiet hbusy.quiet hd.element hl i hd.turn,
      by rw [List.length_set, h.length], fun j x₀ z h₀ hz => ?_, fun a ha => ?_⟩
    · rcases List.mem_or_eq_of_mem_set hz with hz | rfl
      · exact (h.sober z hz st' hst).later hl
      · obtain ⟨new, hy, hnew⟩ := hd.todo
        rw [hy] at hst
        rcases List.mem_append.mp hst with hst | hst
        · exact (hnew st' hst).2
        · exact (h.sober _ hmem st' (List.mem_cons_of_mem _ hst)).later hl
    · by_cases hij : i = j
      · subst hij
        rw [List.getElem?_set_self hlt] at hz
        obtain rfl := Option.some.inj hz
        have := (h.answered i x₀ _ h₀ hi).does hd i
        rcases hc : st.chore? with _ | c <;> rw [hc] at this
        · simpa using this
        · simpa [answersTo_snoc] using this
      · rw [List.getElem?_set_ne hij] at hz
        have := h.answered j x₀ z h₀ hz
        rcases hc : st.chore? with _ | c
        · simpa using this
        · simpa [answersTo_snoc, hij] using this
    · rcases List.mem_append.mp ha with ha | ha
      · exact h.threads a ha
      · rcases hc : st.chore? with _ | c <;> rw [hc] at ha
        · cases ha
        · obtain rfl : a = ⟨i, c, st.ticket? run w⟩ := by simpa using ha
          exact h.length ▸ hlt

/-- Threads in any order: no stage panics, and what there is to say of a crew stays true, with
whatever else each step keeps. -/
theorem Along.follow (hL : ∀ s', L.Uses s' → s' = s) (hF : ∀ d ∈ F, d ∈ D)
    {I : List Answer → Prop}
    (hI : ∀ l crew w i crew' w' a?, Along L F D s crew₀ w₀ l crew w →
      Steps run D s crew w i crew' w' a? → Along L F D s crew₀ w₀ (l ++ a?.toList) crew' w' →
      I l → I (l ++ a?.toList))
    (h : Along L F D s crew₀ w₀ l crew w) (hl : I l) (schedule : List Nat) :
    ∃ crew' w', (crew.follow run schedule).exec w = (.ok crew', w') ∧
      Along L F D s crew₀ w₀ (l ++ answers run schedule crew w) crew' w' ∧
      I (l ++ answers run schedule crew w) :=
  exists_follow (I := fun l crew w => Along L F D s crew₀ w₀ l crew w ∧ I l)
    (fun l crew w i h => by
      obtain ⟨crew', w', hx, hs⟩ := h.1.exists_steps hr hL hF i
      have h' := h.1.steps hr hF hx hs
      exact ⟨crew', w', hx, h', hI l crew w i crew' w' _ h.1 hs h' h.2⟩) ⟨h, hl⟩ schedule

end Crew

end WeakSet
