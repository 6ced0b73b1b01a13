import WeakSet.Proofs.Crews
import WeakSet.Proofs.Endings

/-!
# The stages of threads in a quiet world

While threads are at work, a sweep of one of them may have tickets in hand when another thread goes
on. A world is `Busy` if it is quiet apart from that, and every such ticket is *spent*: its handle is
gone or its element ended. Then no stage panics, and what a stage does to a set is known by what the
dictionary of the set was (`World.Turn`): a stage that inserts or removes does so at once, and all
others only let entries go whose elements ended.

`Worker.exists_does` says all that a stage can do.
-/

namespace WeakSet

open Act Duties World

/-! ## Busy worlds -/

namespace World

/-- A quiet world in order, in which what sweeps have yet to deal with is spent. -/
structure Busy (w : World) (D : Duties) : Prop where
  quiet : w.Quiet
  point : w.Point D
  covered : w.Covered D
  dealt : ∀ t, .deal t ∈ D → w.Spent t

variable {L : Scene} {w w' : World} {D D' : Duties} {s s' : SetId} {es : List ElementId}

theorem Steady.busy (h : w.Steady D) : w.Busy D :=
  ⟨h.quiet, h.point, h.covered, fun t ht => absurd ht (h.dealt t)⟩

namespace Busy

theorem sane (h : w.Busy D) : w.Sane D :=
  h.point.sane

theorem steady (h : w.Busy D) (hd : ∀ t, .deal t ∉ D) : w.Steady D :=
  ⟨h.quiet, h.point, h.covered, hd⟩

/-- What is tame keeps a world busy, if no ticket is taken in hand that is not spent. -/
theorem course (h : w.Busy D) (hc : Course L (w, D) (w', D')) (ht : w.Tame w')
    (hd : ∀ t, .deal t ∈ D' → .deal t ∈ D ∨ w.Spent t) : w'.Busy D' where
  quiet := h.quiet.tame h.sane hc ht
  point := hc.point h.point
  covered := hc.covered h.sane h.covered
  dealt t hm := hc.spent h.sane ((hd t hm).elim (h.dealt t) id)

end Busy

/-- The entries of a dictionary are of living elements. -/
theorem Quiet.dict_alive (h : w.Quiet) (s : SetId) :
    ((w.dict s).filter fun _ e => w.isAlive e) = w.dict s := by
  rw [Dict.ext_iff]
  intro v e t
  rw [Dict.filter_eq_some]
  exact ⟨And.left, fun hd => ⟨hd, (h.dict_eq_some.mp hd).alive⟩⟩

/-- No dictionary changes if no handle of a living element goes. -/
theorem Trims.dict_all (ht : Trims s (fun _ => True) w w') (hf : Framed s es w w') (hq : w.Quiet)
    (hq' : w'.Quiet) (s' : SetId) : w'.dict s' = w.dict s' := by
  by_cases hs : s' = s
  · subst hs
    exact ht.dict_same hf hq hq'
  · exact hf.dict hq hq' hs

/-! ## Turns -/

/-- What a stage makes of the dictionary of a set. An insertion or a removal is decided at once.
Otherwise only entries go whose elements ended. -/
inductive Turn (s : SetId) (w w' : World) : Option Chore → Option Ticket → Prop
  | add {e : ElementId} {t? : Option Ticket} (ha : ∀ e', w'.isAlive e' = w.isAlive e')
      (hi : (w.dict s).Inserts (w.value e) e t? (w'.dict s)) (hn : ∀ t ∈ t?, ¬ w.Issued t) :
      Turn s w w' (some (.add s e)) t?
  | remove {q : Query} (ha : ∀ e', w'.isAlive e' = w.isAlive e')
      (hd : w'.dict s = (w.dict s).filter fun v _ => v ≠ q.target w) :
      Turn s w w' (some (.remove s q)) ((w.dict s (q.target w)).map Prod.snd)
  | other (ha : ∀ e', w'.isAlive e' → w.isAlive e')
      (hd : w'.dict s = (w.dict s).filter fun _ e => w'.isAlive e) : Turn s w w' none none

theorem Turn.of_same (hq : w.Quiet) (ha : ∀ e, w'.isAlive e = w.isAlive e)
    (hd : w'.dict s = w.dict s) : w.Turn s w' none none := by
  refine .other (fun e he => ha e ▸ he) ?_
  rw [hd]
  exact (hq.dict_alive s).symm.trans (Dict.filter_congr fun v e t _ => by rw [ha])

end World

/-! ## What a stage decides -/

namespace Stage

/-- The chore that a stage decides. -/
def chore? : Stage → Option Chore
  | insert s e => some (.add s e)
  | remove s q => some (.remove s q)
  | _ => none

/-- The ticket that comes in or goes out by a stage. -/
def ticket? (run : Runner) (w : World) : Stage → Option Ticket
  | insert s e =>
    match ((insertSection run s e).exec w).1 with
    | .ok ⟨_, .ok t?⟩ => t?
    | _ => none
  | remove s q =>
    match ((removeSection run s q).exec w).1 with
    | .ok ⟨_, .ok x?⟩ => x?.map Prod.fst
    | _ => none
  | _ => none

/-- Whether a stage ends an insertion that succeeded. -/
def isAddition : Stage → Bool
  | inserted (.ok t?) => t?.isSome
  | _ => false

/-- Whether a stage ends a removal that succeeded. -/
def isRemoval : Stage → Bool
  | removed (.ok x?) => x?.isSome
  | _ => false

/-- A stage has no panic in hand, and what a sweep took out is of an element that ended. -/
def Sober (w : World) : Stage → Prop
  | batch _ b _ => b.failure = none
  | books _ b _ h _ =>
    b.failure = none ∧ h.kind = .weak ∧ h.element < w.cells.size ∧ ¬ w.isAlive h.element
  | report _ b r _ => b.failure = none ∧ r.last = none
  | inserted r => ∃ t?, r = .ok t?
  | removed r => ∃ x?, r = .ok x?
  | _ => True

theorem Sober.later {w w' : World} {st : Stage} (h : st.Sober w) (hl : Later w w') :
    st.Sober w' := by
  cases st with
  | books s b t x ts =>
    obtain ⟨hb, hk, hx, hd⟩ := h
    exact ⟨hb, hk, hx.trans_le hl.cells, hl.dead_of_not_isAlive hx hd⟩
  | _ => exact h

end Stage

namespace Chore

def isAdd : Chore → Bool
  | add .. => true
  | _ => false

def isRemove : Chore → Bool
  | remove .. => true
  | _ => false

end Chore

namespace Worker

/-- How many insertions of a thread succeeded, those included whose end is still ahead. -/
def additions (x : Worker) : Nat :=
  x.added + x.todo.countP Stage.isAddition

/-- How many removals of a thread succeeded, those included whose end is still ahead. -/
def removals (x : Worker) : Nat :=
  x.removed + x.todo.countP Stage.isRemoval

/-- A thread with stage `st` ahead of those of `x` does it in world `w` and is `y` then, in world
`w'`: nothing panics, stages come of it that decide nothing, and what it decides is booked. -/
structure Does (run : Runner) (s : SetId) (D : Duties) (x : Worker) (st : Stage) (w : World)
    (y : Worker) (w' : World) : Prop where
  exec : (x.perform run st).exec w = (.ok y, w')
  busy : w'.Busy (y.due + D)
  later : Later w w'
  element : ∀ e, w'.element? e = w.element? e
  owners : w'.owners = w.owners
  turn : w.Turn s w' st.chore? (st.ticket? run w)
  todo : ∃ new, y.todo = new ++ x.todo ∧ ∀ z ∈ new, z.chore? = none ∧ z.Sober w'
  failure : y.failure = x.failure
  additions : y.additions = additions { x with todo := st :: x.todo } +
    if st.chore?.any Chore.isAdd && (st.ticket? run w).isSome then 1 else 0
  removals : y.removals = removals { x with todo := st :: x.todo } +
    if st.chore?.any Chore.isRemove && (st.ticket? run w).isSome then 1 else 0

end Worker

/-! ## What each stage does -/

namespace Stage

/-- Whether a stage is part of a sweep. -/
def isSweep : Stage → Bool
  | drain _ | batch .. | books .. | report .. => true
  | _ => false

variable {st : Stage}

theorem chore?_of_isSweep (h : st.isSweep) : st.chore? = none := by
  cases st <;> first | rfl | cases h

theorem ticket?_of_isSweep (h : st.isSweep) (run : Runner) (w : World) :
    st.ticket? run w = none := by
  cases st <;> first | rfl | cases h

theorem isAddition_of_isSweep (h : st.isSweep) : st.isAddition = false := by
  cases st <;> first | rfl | cases h

theorem isRemoval_of_isSweep (h : st.isSweep) : st.isRemoval = false := by
  cases st <;> first | rfl | cases h

theorem countP_releases {p : Stage → Bool} (hp : ∀ e, p (.release e) = false)
    (es : List ElementId) : (es.map release).countP p = 0 := by
  refine List.countP_eq_zero.mpr fun z hz => ?_
  obtain ⟨e, -, rfl⟩ := List.mem_map.mp hz
  simp [hp e]

end Stage

namespace Worker

/-- A thread with stage `st` ahead of those of `x` may do it: what it inserts is due to it or to
others, `F`, and all that is due to others is `D`. -/
structure Ready (L : Scene) (F D : Duties) (s : SetId) (w : World) (x : Worker) (st : Stage) :
    Prop where
  busy : w.Busy (st.due + (x.due + D))
  on : L.On w
  only : ∀ s', L.Uses s' → s' = s
  order : InOrder L F { x with todo := st :: x.todo }
  others : ∀ d ∈ F, d ∈ D
  sober : st.Sober w

section

variable {L : Scene} {run : Runner} (hr : run.Sound) {w w' : World} {D F : Duties} {s : SetId}
  {x y : Worker} {st : Stage}

/-- A record of an element that ended tells of nothing. -/
theorem Ready.mayTell {s' : SetId} {b : Batch} {r : Record} {ts : List Ticket}
    (h : Ready L F D s w x st) (hst : st = .report s' b r ts) : w.MayTell r := by
  subst hst
  intro hr
  rw [h.sober.2] at hr
  cases hr

include hr

/-- What a stage leads to is busy, if it is tame and takes no ticket in hand that is not spent. -/
theorem Ready.busy_of_exec (h : Ready L F D s w x st)
    (he : (x.perform run st).exec w = (.ok y, w')) (ht : w.Tame w')
    (hd : ∀ t, .deal t ∈ y.due → .deal t ∈ st.due + x.due ∨ w.Spent t) :
    w'.Busy (y.due + D) ∧ Later w w' := by
  have hc : Course L (w, st.due + (x.due + D)) (w', y.due + D) :=
    (leads_perform hr h.order h.others (E := x.due + D) (fun s' b r ts hst => h.mayTell hst)
      fun _ => rfl).ok he h.busy.point h.on
  refine ⟨h.busy.course hc ht fun t hm => ?_, hc.later h.busy.sane⟩
  rw [← Multiset.add_assoc]
  simp only [Multiset.mem_add] at hm ⊢
  rcases hm with hm | hm
  · exact (hd t hm).imp (fun hm => .inl (Multiset.mem_add.mp hm)) id
  · exact .inl (.inr hm)

/-- A stage of a sweep that takes out no handle of a living element. -/
theorem Ready.does_of_framed {s' : SetId} (new : List Stage) (h : Ready L F D s w x st)
    (he : (x.perform run st).exec w = (.ok { x with todo := new ++ x.todo }, w'))
    (hf : Framed s' [] w w') (ht : Trims s' (fun _ => True) w w') (hs : st.isSweep)
    (hnew : ∀ z ∈ new, z.isSweep ∧ z.Sober w')
    (hd : ∀ t, .deal t ∈ Stage.dues new → .deal t ∈ st.due ∨ w.Spent t) :
    Worker.Does run s D x st w { x with todo := new ++ x.todo } w' := by
  have hb := h.busy_of_exec hr he hf.tame fun t hm => by
    rw [due, Stage.dues_append, Multiset.mem_add] at hm
    rw [Multiset.mem_add]
    rcases hm with hm | hm
    · exact (hd t hm).imp .inl id
    · exact .inl (.inr hm)
  have hc := Stage.chore?_of_isSweep hs
  refine ⟨he, hb.1, hb.2, hf.element, by rw [hf.rest], ?_,
    ⟨new, rfl, fun z hz => ⟨Stage.chore?_of_isSweep (hnew z hz).1, (hnew z hz).2⟩⟩, rfl, ?_, ?_⟩
  · rw [hc, Stage.ticket?_of_isSweep hs]
    exact .of_same h.busy.quiet hf.isAlive (ht.dict_all hf h.busy.quiet hb.1.quiet s)
  · have h₀ : new.countP Stage.isAddition = 0 := List.countP_eq_zero.mpr fun z hz => by
      simp [Stage.isAddition_of_isSweep (hnew z hz).1]
    simp [additions, hc, List.countP_append, h₀, Stage.isAddition_of_isSweep hs]
  · have h₀ : new.countP Stage.isRemoval = 0 := List.countP_eq_zero.mpr fun z hz => by
      simp [Stage.isRemoval_of_isSweep (hnew z hz).1]
    simp [removals, hc, List.countP_append, h₀, Stage.isRemoval_of_isSweep hs]

theorem exists_does_drain {s' : SetId} (h : Ready L F D s w x (.drain s')) :
    ∃ y w', Worker.Does run s D x (.drain s') w y w' := by
  have hs := h.on.lt_size (h.order.fits _ List.mem_cons_self)
  have hp := (World.drain_queue (h.busy.quiet.queue s' hs)).1
  have hh : ∀ t, (w.takeNotices s').2.handle? t = w.handle? t :=
    handle?_congr (sets_takeNotices w s')
  refine ⟨_, _, h.does_of_framed hr [.batch s' {} (w.takeNotices s').1] rfl
    (.takeNotices s' s' w) (.of_handles hh) rfl ?_ fun t ht => ?_⟩
  · rintro z hz
    obtain rfl := List.mem_singleton.mp hz
    exact ⟨rfl, rfl⟩
  · rw [Stage.dues_cons, Stage.dues_nil, Multiset.add_zero, Stage.due, mem_deals] at ht
    obtain ⟨hi, hd⟩ := h.busy.quiet.notices s' hs t (hp ▸ ht.1) ht.2
    exact .inr ⟨hi, hd⟩

omit hr in
/-- What is left to deal with in a batch was before. -/
theorem deal_of_rest {s' : SetId} {b : Batch} {t t' : Ticket} {ts : List Ticket}
    (ht : .deal t' ∈ Stage.dues [Stage.batch s' b ts]) :
    .deal t' ∈ (Stage.batch s' b (t :: ts)).due := by
  rw [Stage.dues_cons, Stage.dues_nil, Multiset.add_zero, Stage.due, mem_deals] at ht
  exact mem_deals.mpr ⟨List.mem_cons_of_mem _ ht.1, ht.2⟩

/-- A stage that passes a ticket of a batch over. -/
theorem Ready.does_of_passed {s' : SetId} {b : Batch} {t : Ticket} {ts : List Ticket}
    (h : Ready L F D s w x (.batch s' b (t :: ts)))
    (he : (x.perform run (.batch s' b (t :: ts))).exec w =
      (.ok { x with todo := [.batch s' b ts] ++ x.todo }, w'))
    (hf : Framed s' [] w w') (hh : ∀ t, w'.handle? t = w.handle? t) :
    ∃ y w', Worker.Does run s D x (.batch s' b (t :: ts)) w y w' := by
  refine ⟨_, w', h.does_of_framed hr [.batch s' b ts] he hf (.of_handles hh) rfl (fun z hz => ?_)
    fun t' ht => .inl (deal_of_rest ht)⟩
  obtain rfl := List.mem_singleton.mp hz
  exact ⟨rfl, h.sober⟩

/-- The handle of a ticket of a batch is taken out. -/
theorem Ready.does_of_taken {b : Batch} {t : Ticket} {ts : List Ticket} {y : Handle}
    (h : Ready L F D s w x (.batch t.owner b (t :: ts))) (hf : ¬ w.isForeign t.owner t)
    (hy : w.handle? t = some y) : ∃ z w', Worker.Does run s D x (.batch t.owner b (t :: ts)) w z w' := by
  have hdead : ¬ w.isAlive y.element := (h.busy.dealt t
    (Multiset.mem_add.mpr (.inl (mem_deals.mpr ⟨List.mem_cons_self, rfl⟩)))).ended y hy
  have htake := exec_takeOut (w := w) (t := t) (by simp [h.busy.quiet.unlocked]) .swept
  rw [World.takeOut_fst, hy] at htake
  have hfr := Framed.takeOut w t .swept
  have hh := World.handle?_takeOut hy .swept
  have htrims : Trims t.owner (fun _ => True) w (w.takeOut t .swept).2 := by
    refine ⟨fun t' z hz => ?_, fun t' z _ ha hz => iff_of_true ?_ trivial⟩
    · rw [hh] at hz
      split at hz
      · cases hz
      · exact hz
    · rw [hh, if_neg, hz]
      rintro rfl
      obtain rfl := Option.some.inj (hy.symm.trans hz)
      exact hdead ha
  refine ⟨_, _, h.does_of_framed hr [.books t.owner b t y ts] ?_ hfr htrims rfl (fun z hz => ?_)
    fun t' ht => ?_⟩
  · rw [perform, exec_bind_ok (exec_look _ w), if_neg hf, exec_bind_ok htake]
    rfl
  · obtain rfl := List.mem_singleton.mp hz
    refine ⟨rfl, h.sober, h.busy.quiet.weak t y hy, ?_, ?_⟩
    · rw [hfr.cells]
      exact (h.busy.sane.formed.fits t y hy).element
    · rwa [hfr.isAlive]
  · simp only [Stage.dues_cons, Stage.dues_nil, Stage.due, Multiset.add_zero,
      Multiset.mem_cons, reduceCtorEq, false_or, mem_deals] at ht
    exact .inl (mem_deals.mpr ⟨List.mem_cons_of_mem _ ht.1, ht.2⟩)

theorem exists_does_batch {s' : SetId} {b : Batch} {ts : List Ticket}
    (h : Ready L F D s w x (.batch s' b ts)) :
    ∃ y w', Worker.Does run s D x (.batch s' b ts) w y w' := by
  cases ts with
  | nil =>
    obtain ⟨w', he, -, hf, ht⟩ := exec_closeBatch_calm (w := w) (h.sober : b.failure = none) s'
    refine ⟨_, w', h.does_of_framed hr [] ?_ hf (.of_handles ht) rfl (by simp) (by simp)⟩
    rw [perform, exec_bind, exec_discard, he]
    rfl
  | cons t ts =>
    by_cases hf : w.isForeign s' t
    · have hx : (x.perform run (.batch s' b (t :: ts))).exec w =
          (.ok { x with todo := [.batch s' b ts] ++ x.todo }, w.note (.line (.foreign t))) := by
        rw [perform, exec_bind_ok (exec_look _ w), if_pos hf]
        rfl
      exact h.does_of_passed hr hx (.note rfl s' w) fun _ => rfl
    · obtain rfl := owner_of_not_isForeign hf
      rcases World.takeOut_cases w t .swept with ⟨-, e⟩ | ⟨y, hy, -⟩
      · have htake := exec_takeOut (w := w) (t := t) (by simp [h.busy.quiet.unlocked]) .swept
        rw [e] at htake
        have hx : (x.perform run (.batch t.owner b (t :: ts))).exec w =
            (.ok { x with todo := [.batch t.owner b ts] ++ x.todo }, w) := by
          rw [perform, exec_bind_ok (exec_look _ w), if_neg hf, exec_bind_ok htake]
          rfl
        exact h.does_of_passed hr hx (.refl t.owner w) fun _ => rfl
      · exact h.does_of_taken hr hf hy

theorem exists_does_books {s' : SetId} {b : Batch} {t : Ticket} {z : Handle} {ts : List Ticket}
    (h : Ready L F D s w x (.books s' b t z ts)) :
    ∃ y w', Worker.Does run s D x (.books s' b t z ts) w y w' := by
  obtain ⟨hb, -, -, hd⟩ : b.failure = none ∧ z.kind = .weak ∧ _ ∧ ¬ w.isAlive z.element := h.sober
  refine ⟨_, _, h.does_of_framed hr [.report s' b ⟨t, z.hash, none⟩ ts] ?_
    (.note (x := .line (.reclaimed t true)) rfl s' w) (.of_handles fun _ => rfl) rfl ?_ ?_⟩
  · rw [perform, exec_bind_ok (exec_closeBooks hd)]
    rfl
  · rintro st hst
    obtain rfl := List.mem_singleton.mp hst
    exact ⟨rfl, hb, rfl⟩
  · intro t' ht
    simp only [Stage.dues_cons, Stage.dues_nil, Stage.due, Multiset.add_zero, Multiset.mem_cons,
      reduceCtorEq, false_or, Option.toList_none, holds_nil, Multiset.zero_add] at ht ⊢
    exact .inl ht

theorem exists_does_report {s' : SetId} {b : Batch} {r : Record} {ts : List Ticket}
    (h : Ready L F D s w x (.report s' b r ts)) :
    ∃ y w', Worker.Does run s D x (.report s' b r ts) w y w' := by
  obtain ⟨hb, hlast⟩ : b.failure = none ∧ r.last = none := h.sober
  obtain rfl : r.ticket.owner = s' := h.order.fits _ List.mem_cons_self
  obtain ⟨t, hash, last⟩ := r
  obtain rfl : last = none := hlast
  have hrep := exec_report_plain run t hash (w := w) h.busy.quiet.deaf
  refine ⟨_, _, h.does_of_framed hr [.batch t.owner (b.reportEnded
    (({ w.call ⟨t, hash, none⟩ with hands := w.hands } : World).collection t.owner).settings.policy
    (.ok ())) ts] ?_ (.call t.owner w ⟨t, hash, none⟩) (.of_handles (handle?_call w _)) rfl ?_ ?_⟩
  · rw [perform, exec_bind_ok (exec_attempt _ w), hrep]
    rfl
  · rintro st hst
    obtain rfl := List.mem_singleton.mp hst
    exact ⟨rfl, hb⟩
  · intro t' ht
    simp only [Stage.dues_cons, Stage.dues_nil, Stage.due, Multiset.add_zero, Multiset.mem_cons,
      reduceCtorEq, false_or, Option.toList_none, holds_nil, Multiset.zero_add] at ht ⊢
    exact .inl ht

/-- A stage under a lock: what it held is let go of next, and then comes its end. -/
theorem Ready.does_of_section {s' : SetId} (es : List ElementId) (z : Stage)
    (h : Ready L F D s w x st)
    (he : (x.perform run st).exec w =
      (.ok { x with todo := es.map .release ++ z :: x.todo }, w'))
    (hf : Framed s' es w w') (hd : ∀ t, .deal t ∉ z.due) (hz : z.chore? = none ∧ z.Sober w')
    (ht : w'.Quiet → w.Turn s w' st.chore? (st.ticket? run w))
    (hst : st.isAddition = false ∧ st.isRemoval = false)
    (ha : z.isAddition = (st.chore?.any Chore.isAdd && (st.ticket? run w).isSome))
    (hr' : z.isRemoval = (st.chore?.any Chore.isRemove && (st.ticket? run w).isSome)) :
    Worker.Does run s D x st w { x with todo := es.map .release ++ z :: x.todo } w' := by
  have hb := h.busy_of_exec hr he hf.tame fun t hm => by
    rw [due, Stage.dues_append, Stage.dues_release, Stage.dues_cons, Multiset.mem_add,
      Multiset.mem_add] at hm
    rcases hm with hm | hm | hm
    · exact absurd hm (deal_not_mem_holds t es)
    · exact absurd hm (hd t)
    · exact .inl (Multiset.mem_add.mpr (.inr hm))
  refine ⟨he, hb.1, hb.2, hf.element, by rw [hf.rest], ht hb.1.quiet,
    ⟨es.map .release ++ [z], by simp, ?_⟩, rfl, ?_, ?_⟩
  · intro y hy
    rcases List.mem_append.mp hy with hy | hy
    · obtain ⟨e, -, rfl⟩ := List.mem_map.mp hy
      exact ⟨rfl, trivial⟩
    · obtain rfl := List.mem_singleton.mp hy
      exact hz
  · rw [additions, additions, List.countP_append, List.countP_cons, List.countP_cons,
      Stage.countP_releases (fun _ => rfl), hst.1, ha]
    simp only [Bool.false_eq_true, if_false]
    omega
  · rw [removals, removals, List.countP_append, List.countP_cons, List.countP_cons,
      Stage.countP_releases (fun _ => rfl), hst.2, hr']
    simp only [Bool.false_eq_true, if_false]
    omega

theorem exists_does_insert {s' : SetId} {e : ElementId} (h : Ready L F D s w x (.insert s' e)) :
    ∃ y w', Worker.Does run s D x (.insert s' e) w y w' := by
  have hfit : L.Uses s' := h.order.fits _ List.mem_cons_self
  obtain rfl := h.only s' hfit
  have hq := h.busy.quiet
  have hal : w.isAlive e := by
    refine h.busy.sane.counted.isAlive_of_hold ?_
    rw [Stage.due, Multiset.zero_add, Multiset.mem_add]
    exact h.order.fed.1.elim (fun hm => .inr (h.others _ hm)) fun hm => .inl (Stage.hold_mem_dues hm)
  obtain ⟨es, t?, w', he, hf, hd⟩ := exec_insertSection run e h.busy.sane.formed hq
    (h.on.lt_size hfit)
  have ht : (Stage.insert s' e).ticket? run w = t? := by rw [Stage.ticket?, he]
  refine ⟨_, w', h.does_of_section hr es (.inserted (.ok t?)) ?_ hf (by simp [Stage.due])
    ⟨rfl, t?, rfl⟩ (fun hq' => ?_) ⟨rfl, rfl⟩ (by rw [ht]; rfl) rfl⟩
  · rw [perform, exec_bind_ok he]
    rfl
  rw [ht]
  refine .add hf.isAlive ?_ ?_
  · unfold Dict.Inserts
    rcases hm : w.dict s' (w.value e) with _ | y <;> simp only [hm] at hd
    · obtain ⟨t, y, rfl, hown, rfl, hi, hh⟩ := hd
      have hn : w.handle? t = none :=
        Option.eq_none_iff_forall_ne_some.mpr fun z hz => hi (issued_of_handle? hz)
      exact ⟨t, rfl, hf.dict_insert hq hq' hh hown hal hn hm⟩
    · have htr : Trims s' (fun _ => True) w w' := .of_handles hd.2
      exact ⟨hd.1, htr.dict_same hf hq hq'⟩
  · intro t hm
    rcases hv : w.dict s' (w.value e) with _ | y <;> simp only [hv] at hd
    · obtain ⟨t', y, rfl, -, -, hi, -⟩ := hd
      obtain rfl := Option.some.inj hm
      exact hi
    · rw [hd.1] at hm
      cases hm

theorem exists_does_remove {s' : SetId} {q : Query} (h : Ready L F D s w x (.remove s' q)) :
    ∃ y w', Worker.Does run s D x (.remove s' q) w y w' := by
  have hfit : L.Uses s' := h.order.fits _ List.mem_cons_self
  obtain rfl := h.only s' hfit
  have hq := h.busy.quiet
  obtain ⟨es, r, w', he, hf, hd⟩ := exec_removeSection (s := s') run q h.busy.sane.formed hq
  have ht : (Stage.remove s' q).ticket? run w = r.map Prod.fst := by rw [Stage.ticket?, he]
  refine ⟨_, w', h.does_of_section hr es (.removed (.ok r)) ?_ hf ?_
    ⟨rfl, r, rfl⟩ (fun hq' => ?_) ⟨rfl, rfl⟩ rfl (by rw [ht, Option.isSome_map]; rfl)⟩
  · rw [perform, exec_bind_ok he]
    rfl
  · intro t
    cases r <;> simp [Stage.due, Except.toOption, removedDue]
  have hr : r.map Prod.fst = (w.dict s' (q.target w)).map Prod.snd := by
    rcases hm : w.dict s' (q.target w) with _ | y <;> simp only [hm] at hd
    · rw [hd.1]
      rfl
    · obtain ⟨z, rfl, -⟩ := hd
      rfl
  rw [ht, hr]
  refine .remove hf.isAlive ?_
  rcases hm : w.dict s' (q.target w) with _ | ⟨e, t⟩ <;> simp only [hm] at hd
  · have htr : Trims s' (fun _ => True) w w' := .of_handles hd.2
    rw [htr.dict_same hf hq hq']
    refine (Classical.not_not.mp fun hne => ?_ : _ = _).symm
    rw [← Ne, Dict.filter_value_ne_iff, hm] at hne
    cases hne
  · obtain ⟨z, -, hh⟩ := hd
    have hhas := hq.dict_eq_some.mp hm
    obtain ⟨y, hy, rfl⟩ := hhas.handle
    rw [hf.dict_takeOut hq hq' hy hhas.owner hh]
    refine Dict.filter_congr fun v e' t' he' => not_congr ⟨?_, ?_⟩
    · rintro rfl
      exact (hq.dict_eq_some.mp he').value.symm.trans hhas.value
    · rintro rfl
      obtain ⟨rfl, -⟩ := Prod.mk.injEq .. ▸ Option.some.inj (he'.symm.trans hm)
      rfl

theorem exists_does_release {e : ElementId} (h : Ready L F D s w x (.release e)) :
    ∃ y w', Worker.Does run s D x (.release e) w y w' := by
  have hw : w.Sane (.hold e ::ₘ (x.due + D)) := by
    have := h.busy.sane
    rwa [Stage.due, Multiset.cons_add, Multiset.zero_add] at this
  have he : 0 < w.strong e :=
    isAlive_iff.mp (hw.counted.isAlive_of_hold (Multiset.mem_cons_self _ _))
  have hx : (x.perform run (.release e)).exec w = (.ok x, (w.release e).2) := by
    rw [perform, exec_bind_ok (exec_release run h.busy.quiet.scriptless e)]
    rfl
  have hb := h.busy_of_exec hr hx (.release hw) fun t ht => .inl (Multiset.mem_add.mpr (.inr ht))
  exact ⟨x, (w.release e).2, hx, hb.1, hb.2, element?_release he, by rw [release_eq],
    .other (fun _ ha => isAlive_release he ha) (h.busy.quiet.dict_release hw s),
    ⟨[], rfl, by simp⟩, rfl, rfl, rfl⟩

/-- The end of an insertion or a removal: the books are closed, and no set changes. -/
theorem Ready.does_of_end {a r : Nat} (h : Ready L F D s w x st)
    (he : (x.perform run st).exec w =
      (.ok { x with added := x.added + a, removed := x.removed + r }, w'))
    (hf : Framed s [] w w') (ht : Trims s (fun _ => True) w w')
    (hc : st.chore? = none ∧ st.ticket? run w = none)
    (ha : a = if st.isAddition then 1 else 0) (hr' : r = if st.isRemoval then 1 else 0) :
    Worker.Does run s D x st w { x with added := x.added + a, removed := x.removed + r } w' := by
  have hb := h.busy_of_exec hr he hf.tame fun t hm => .inl (Multiset.mem_add.mpr (.inr hm))
  refine ⟨he, hb.1, hb.2, hf.element, by rw [hf.rest], ?_, ⟨[], rfl, by simp⟩, rfl, ?_, ?_⟩
  · rw [hc.1, hc.2]
    exact .of_same h.busy.quiet hf.isAlive (ht.dict_all hf h.busy.quiet hb.1.quiet s)
  · rw [additions, additions, List.countP_cons, ha, hc.1]
    simp only [Option.any_none, Bool.false_and, Bool.false_eq_true, if_false]
    omega
  · rw [removals, removals, List.countP_cons, hr', hc.1]
    simp only [Option.any_none, Bool.false_and, Bool.false_eq_true, if_false]
    omega

theorem exists_does_inserted {r : Except Panic (Option Ticket)}
    (h : Ready L F D s w x (.inserted r)) :
    ∃ y w', Worker.Does run s D x (.inserted r) w y w' := by
  obtain ⟨t?, rfl⟩ : ∃ t?, r = .ok t? := h.sober
  cases t? with
  | none =>
    exact ⟨_, w, h.does_of_end hr (a := 0) (r := 0) rfl (.refl s w) (.of_handles fun _ => rfl)
      ⟨rfl, rfl⟩ rfl rfl⟩
  | some t =>
    exact ⟨_, w.note (.line (.inserted t)), h.does_of_end hr (a := 1) (r := 0) rfl (.note rfl s w)
      (.of_handles fun _ => rfl) ⟨rfl, rfl⟩ rfl rfl⟩

theorem exists_does_removed {r : Except Panic (Option (Ticket × Handle))}
    (h : Ready L F D s w x (.removed r)) :
    ∃ y w', Worker.Does run s D x (.removed r) w y w' := by
  obtain ⟨x?, rfl⟩ : ∃ x?, r = .ok x? := h.sober
  cases x? with
  | none =>
    exact ⟨_, w, h.does_of_end hr (a := 0) (r := 0) rfl (.refl s w) (.of_handles fun _ => rfl)
      ⟨rfl, rfl⟩ rfl rfl⟩
  | some y =>
    exact ⟨_, _, h.does_of_end hr (a := 0) (r := 1) rfl (.bookRemoval s w y.2.element y.1)
      (.of_handles (handle?_bookRemoval w y.2.element y.1)) ⟨rfl, rfl⟩ rfl rfl⟩

/-- A stage of a thread in a busy world comes to its end. -/
theorem exists_does (h : Ready L F D s w x st) : ∃ y w', Worker.Does run s D x st w y w' := by
  cases st with
  | drain s' => exact exists_does_drain hr h
  | batch s' b ts => exact exists_does_batch hr h
  | books s' b t z ts => exact exists_does_books hr h
  | report s' b r ts => exact exists_does_report hr h
  | insert s' e => exact exists_does_insert hr h
  | remove s' q => exact exists_does_remove hr h
  | release e => exact exists_does_release hr h
  | inserted r => exact exists_does_inserted hr h
  | removed r => exact exists_does_removed hr h

end

end Worker

end WeakSet
