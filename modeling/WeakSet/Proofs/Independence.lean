import WeakSet.Proofs.Schedules
import WeakSet.Proofs.Listing
import WeakSet.Proofs.Lifecycle

/-!
# What threads come to does not depend on their order
-/

namespace WeakSet

open Act Duties World

/-! ## Sums over threads -/

namespace Crew

variable {L : Scene} {w₀ w : World} {D F : Duties} {s : SetId} {crew₀ crew : Crew} {l : List Answer}

/-- Every answer is some thread's. -/
theorem sum_answersTo {n : Nat} (h : ∀ a ∈ l, a.thread < n) (q : Answer → Bool) :
    ∑ i : Fin n, (answersTo i.val l).countP q = l.countP q := by
  induction l with
  | nil => simp [answersTo]
  | cons a l ih =>
    have ha := h a List.mem_cons_self
    have hcons : ∀ i : Fin n, (answersTo i.val (a :: l)).countP q =
        (answersTo i.val l).countP q +
          if ⟨a.thread, ha⟩ = i then (if q a then 1 else 0) else 0 := by
      intro i
      rw [answersTo, List.filter_cons]
      by_cases hi : a.thread = i.val
      · simp [hi, List.countP_cons, answersTo]
      · simp [hi, Fin.ext_iff, answersTo]
    simp only [hcons, Finset.sum_add_distrib, Finset.sum_ite_eq, Finset.mem_univ, if_true]
    rw [ih fun b hb => h b (List.mem_cons_of_mem _ hb), List.countP_cons]

theorem sum_get {α : Type} {n : Nat} (xs : List α) (hn : xs.length = n) (f : α → Nat) :
    ∑ i : Fin n, f (xs.get ⟨i.val, hn ▸ i.isLt⟩) = (xs.map f).sum := by
  subst hn
  exact Fin.sum_univ_fun_getElem xs f

/-- What is true of each thread and its answers is true of all threads and all answers. -/
theorem sum_threads {xs ys : Crew} (hlen : xs.length = ys.length)
    (hl : ∀ a ∈ l, a.thread < xs.length) {f g : Worker → Nat} {q : Answer → Bool}
    (hfg : ∀ (i : Nat) (x y : Worker), xs[i]? = some x → ys[i]? = some y →
      f x = g y + (answersTo i l).countP q) :
    (xs.map f).sum = (ys.map g).sum + l.countP q := by
  rw [← sum_get xs hlen f, ← sum_get ys rfl g,
    ← sum_answersTo (n := ys.length) (fun a ha => hlen ▸ hl a ha) q,
    ← Finset.sum_add_distrib]
  refine Finset.sum_congr rfl fun i _ => hfg i.val _ _ ?_ ?_
  · exact List.getElem?_eq_getElem (i.isLt.trans_eq hlen.symm)
  · exact List.getElem?_eq_getElem i.isLt

/-- What threads set out to ask was answered or is still ahead. -/
theorem Along.countP_chores (h : Along L F D s crew₀ w₀ l crew w) (p : Chore → Bool) :
    (crew₀.flatMap Worker.chores).countP p =
      (crew.flatMap Worker.chores).countP p + l.countP fun a => p a.chore := by
  rw [List.countP_flatMap, List.countP_flatMap]
  refine sum_threads h.length.symm h.threads fun i x₀ x h₀ hx => ?_
  have hc := (h.answered i x₀ x h₀ hx).chores
  rw [Function.comp_apply, ← hc, List.countP_append, List.countP_map, Nat.add_comm]
  rfl

theorem Along.additions (h : Along L F D s crew₀ w₀ l crew w) :
    (crew.map Worker.additions).sum =
      (crew₀.map Worker.additions).sum + l.countP Answer.isAddition :=
  sum_threads h.length (h.length ▸ h.threads) fun i x x₀ hx h₀ =>
    (h.answered i x₀ x h₀ hx).additions

theorem Along.removals (h : Along L F D s crew₀ w₀ l crew w) :
    (crew.map Worker.removals).sum =
      (crew₀.map Worker.removals).sum + l.countP Answer.isRemoval :=
  sum_threads h.length (h.length ▸ h.threads) fun i x x₀ hx h₀ =>
    (h.answered i x₀ x h₀ hx).removals

/-- Every answer is to a chore that a thread set out with. -/
theorem Along.mem_chores (h : Along L F D s crew₀ w₀ l crew w) {a : Answer} (ha : a ∈ l) :
    ∃ x₀ ∈ crew₀, a.chore ∈ x₀.chores := by
  have hi := h.threads a ha
  have h₀ := List.getElem?_eq_getElem hi
  have hx := List.getElem?_eq_getElem (h.length ▸ hi)
  refine ⟨_, List.getElem_mem hi, ?_⟩
  rw [← (h.answered a.thread _ _ h₀ hx).chores]
  exact List.mem_append_left _ (List.mem_map_of_mem (List.mem_filter.mpr ⟨ha, by simp⟩))

/-! ## Threads at the start -/

end Crew

namespace Chore

/-- Whether a chore asks something of a set. -/
def asks : Chore → Bool
  | release _ => false
  | _ => true

/-- A chore asks something of no set but `s`. -/
def IsOf (s : SetId) : Chore → Prop
  | add s' _ | remove s' _ => s' = s
  | release _ => True

theorem filterMap_stages (c : Chore) :
    c.stages.filterMap Stage.chore? = if c.asks then [c] else [] := by
  cases c <;> rfl

end Chore

namespace Crew

/-- Threads before they start. -/
def start (threads : List (List Chore)) : Crew :=
  threads.map Worker.ofChores

/-- Threads may be set to work on set `s` of a quiet world. Each holds what it will let go of, what
it adds is kept or let go of after that, and whatever is `kept` is held for the threads. -/
structure Begins (s : SetId) (w : World) (kept : List ElementId) (threads : List (List Chore)) :
    Prop where
  steady : w.Steady (due (start threads) + holds kept)
  served : ∃ name, w.Serves (name, s)
  own : ∀ cs ∈ threads, ∀ c ∈ cs, c.IsOf s
  fed : ∀ cs ∈ threads, ∀ e cs', .add s e :: cs' <:+ cs → e ∈ kept ∨ .release e ∈ cs'

end Crew

namespace Worker

variable {s : SetId} {cs : List Chore}

theorem chores_ofChores (cs : List Chore) : (ofChores cs).chores = cs.filter Chore.asks := by
  rw [chores, ofChores, List.filterMap_flatMap]
  simp only [Chore.filterMap_stages]
  induction cs with
  | nil => rfl
  | cons c cs ih =>
    rw [List.flatMap_cons, ih, List.filter_cons]
    cases c.asks <;> rfl

theorem additions_ofChores (cs : List Chore) : (ofChores cs).additions = 0 := by
  have h : (ofChores cs).todo.countP Stage.isAddition = 0 := by
    refine List.countP_eq_zero.mpr fun st hst => ?_
    have := isPlanned_ofChores cs st hst
    cases st <;> first | exact Bool.false_ne_true | cases this
  rw [additions, h]
  rfl

theorem removals_ofChores (cs : List Chore) : (ofChores cs).removals = 0 := by
  have h : (ofChores cs).todo.countP Stage.isRemoval = 0 := by
    refine List.countP_eq_zero.mpr fun st hst => ?_
    have := isPlanned_ofChores cs st hst
    cases st <;> first | exact Bool.false_ne_true | cases this
  rw [removals, h]
  rfl

/-- What a thread inserts is held by others, or the thread lets go of it later. -/
theorem fed_ofChores {F : Duties} (h : ∀ c ∈ cs, c.IsOf s)
    (hf : ∀ e cs', .add s e :: cs' <:+ cs → .hold e ∈ F ∨ .release e ∈ cs') :
    Stage.Fed F (ofChores cs).todo := by
  induction cs with
  | nil => trivial
  | cons c cs ih =>
    have hcs := ih (fun c hc => h c (List.mem_cons_of_mem _ hc)) fun e cs' hs =>
      hf e cs' (hs.trans (List.suffix_cons c cs))
    cases c with
    | add s' e =>
      obtain rfl : s' = s := h _ List.mem_cons_self
      refine ⟨(hf e cs List.suffix_rfl).imp id fun hm => ?_, hcs⟩
      exact List.mem_flatMap.mpr ⟨_, hm, List.mem_singleton.mpr rfl⟩
    | remove s' q => exact hcs
    | release e => exact hcs

theorem inOrder_ofChores {F : Duties} {name : Option String} (h : ∀ c ∈ cs, c.IsOf s)
    (hf : ∀ e cs', .add s e :: cs' <:+ cs → .hold e ∈ F ∨ .release e ∈ cs') :
    InOrder (Scene.idle.use name s) F (ofChores cs) where
  ordered := .of_isPlanned (isPlanned_ofChores cs)
  fed := fed_ofChores h hf
  fits st hst := by
    obtain ⟨c, hc, hst⟩ := List.mem_flatMap.mp hst
    have := h c hc
    cases c <;> simp only [Chore.stages, List.mem_cons, List.not_mem_nil, or_false] at hst
    · obtain rfl := this
      rcases hst with rfl | rfl <;> exact Scene.uses_use _ _ _
    · obtain rfl := this
      rcases hst with rfl | rfl <;> exact Scene.uses_use _ _ _
    · subst hst
      trivial

end Worker

namespace Crew

variable {s : SetId} {w : World} {kept : List ElementId} {threads : List (List Chore)}

/-- Threads that start, in the scene where the set is in use. -/
theorem Begins.along (h : Begins s w kept threads) :
    ∃ L : Scene, L.Uses s ∧ (∀ s', L.Uses s' → s' = s) ∧
      Along L (holds kept) (holds kept) s (start threads) w [] (start threads) w := by
  obtain ⟨name, hs⟩ := h.served
  have huses : ∀ s', (Scene.idle.use name s).Uses s' → s' = s := by
    rintro s' ⟨x, hx, rfl⟩
    obtain rfl := List.mem_singleton.mp hx
    rfl
  have horder : InOrder (Scene.idle.use name s) (holds kept) (start threads) := fun x hx => by
    obtain ⟨cs, hcs, rfl⟩ := List.mem_map.mp hx
    refine Worker.inOrder_ofChores (h.own cs hcs) fun e cs' hs => (h.fed cs hcs e cs' hs).imp ?_ id
    exact fun he => Multiset.mem_coe.mpr (List.mem_map_of_mem he)
  have hsober : ∀ x ∈ start threads, ∀ st ∈ x.todo, st.Sober w := fun x hx st hst => by
    obtain ⟨cs, -, rfl⟩ := List.mem_map.mp hx
    have := Worker.isPlanned_ofChores cs st hst
    cases st <;> trivial
  refine ⟨Scene.idle.use name s, Scene.uses_use _ _ _, huses, h.steady.busy,
    (Scene.On.idle w).use hs, horder, tells_ofChores _ threads w, hsober, .refl w, rfl,
    .refl h.steady.quiet, rfl, fun i x₀ x h₀ hx => ?_, by simp⟩
  rw [h₀] at hx
  obtain rfl := Option.some.inj hx
  exact .refl x₀

theorem mem_start {x₀ : Worker} (hx : x₀ ∈ start threads) :
    ∃ cs ∈ threads, Worker.ofChores cs = x₀ :=
  List.mem_map.mp hx

theorem getElem?_start (threads : List (List Chore)) (i : Nat) :
    (start threads)[i]? = (threads[i]?).map Worker.ofChores :=
  List.getElem?_map

/-- What is due to threads that start are the references that they will let go of. -/
theorem count_due_start (threads : List (List Chore)) (e : ElementId) :
    (due (start threads)).count (.hold e) = threads.flatten.count (.release e) := by
  have hone : ∀ cs : List Chore, (Worker.ofChores cs).due.count (.hold e) = cs.count (.release e) := by
    intro cs
    induction cs with
    | nil => rfl
    | cons c cs ih =>
      have hd : (Worker.ofChores (c :: cs)).due = Stage.dues c.stages + (Worker.ofChores cs).due :=
        Stage.dues_append _ _
      rw [hd, Multiset.count_add, ih, List.count_cons]
      cases c with
      | release e' =>
        have hs : (Stage.dues (Chore.stages (.release e'))) = .hold e' ::ₘ 0 := rfl
        rw [hs, Multiset.count_cons, Multiset.count_zero]
        by_cases he : e = e'
        · simp [he, Nat.add_comm]
        · simp [he, Ne.symm he]
      | _ => simp [Chore.stages, Stage.due]
  induction threads with
  | nil => rfl
  | cons cs threads ih =>
    rw [List.flatten_cons, List.count_append, ← hone, ← ih, start, List.map_cons, due_cons,
      Multiset.count_add]
    rfl

/-! ## Threads at the end -/

/-- What threads come to that were set to work on set `s` in world `w`, and were given answers. -/
structure Ends (s : SetId) (w : World) (kept : List ElementId) (threads : List (List Chore))
    (l : List Answer) (crew : Crew) (w' : World) : Prop where
  /-- Every thread was answered all that it asked, in order, and counted what succeeded. -/
  answered : ∀ (i : Nat) (cs : List Chore) (x : Worker), threads[i]? = some cs → crew[i]? = some x →
    (answersTo i l).map Answer.chore = cs.filter Chore.asks ∧
      x.added = (answersTo i l).countP Answer.isAddition ∧
      x.removed = (answersTo i l).countP Answer.isRemoval
  /-- Of the elements of a value of which there was none, if they stay and none is removed, one
  comes in. -/
  once : ∀ v, w.dict s v = none → (∀ q, .remove s q ∈ threads.flatten → q.target w ≠ v) →
    (∃ e, .add s e ∈ threads.flatten ∧ w.value e = v) →
    (∀ e, .add s e ∈ threads.flatten → w.value e = v → w'.isAlive e) →
    l.countP (Answer.adds w v) = 1
  /-- If there was one that stays and is not removed, none comes in. -/
  never : ∀ v e t, w.dict s v = some (e, t) →
    (∀ q, .remove s q ∈ threads.flatten → q.target w ≠ v) → w'.isAlive e →
    l.countP (Answer.adds w v) = 0
  /-- Of the elements of a value that stay, as many are there as came in and were not removed. -/
  balance : ∀ v, (∀ e t, Came w l s v e t → w'.isAlive e) →
    l.countP (Answer.adds w v) + (w.dict s v).toList.length =
      l.countP (Answer.takes w v) + (w'.dict s v).toList.length
  /-- What sweeps took out was reported. -/
  reported : ∀ t, w'.books.reported.count t = w'.books.swept.count t
  /-- The references that threads were to let go of are gone, and no others. -/
  owned : ∀ e, w'.strong e + threads.flatten.count (.release e) = w.strong e
  /-- After a last sweep there are the handles of elements that are alive and were not removed. -/
  left : ∀ run : Runner, run.Sound → ∃ n w'', (sweep run s).exec w' = (.ok n, w'') ∧
    ∀ t e, t.owner = s → ((w''.handle? t).map Handle.element = some e ↔
      ((w.handle? t).map Handle.element = some e ∨ Added l s e t) ∧ ¬ Removed l s t ∧ w'.isAlive e)

section Ends

variable {L : Scene} {w' : World} {l : List Answer} {crew : Crew}

theorem chores_start (threads : List (List Chore)) :
    (start threads).flatMap Worker.chores = threads.flatten.filter Chore.asks := by
  rw [start, List.flatMap_map, List.filter_flatten]
  simp only [Worker.chores_ofChores]
  rfl

/-- Every answer is to a chore of some thread. -/
theorem Along.mem_flatten {F D : Duties} (h : Along L F D s (start threads) w l crew w')
    {a : Answer} (ha : a ∈ l) : a.chore ∈ threads.flatten := by
  obtain ⟨x₀, hx₀, hc⟩ := h.mem_chores ha
  obtain ⟨cs, hcs, rfl⟩ := mem_start hx₀
  rw [Worker.chores_ofChores] at hc
  exact List.mem_flatten.mpr ⟨cs, hcs, (List.mem_filter.mp hc).1⟩

/-- Every answer is to a chore that asks something. -/
theorem Along.asks {F D : Duties} (h : Along L F D s (start threads) w l crew w') {a : Answer}
    (ha : a ∈ l) : a.chore.asks := by
  obtain ⟨x₀, hx₀, hc⟩ := h.mem_chores ha
  obtain ⟨cs, -, rfl⟩ := mem_start hx₀
  rw [Worker.chores_ofChores] at hc
  exact (List.mem_filter.mp hc).2

theorem todo_of_isDone (hd : crew.isDone) {x : Worker} (hx : x ∈ crew) : x.todo = [] :=
  List.isEmpty_iff.mp (List.all_eq_true.mp hd x hx)

theorem Along.steady (h : Along L (holds kept) (holds kept) s (start threads) w l crew w')
    (hd : crew.isDone) : w'.Steady (holds kept) := by
  have := h.busy
  rw [due_of_isDone hd, Multiset.zero_add] at this
  exact this.steady (by simp)

/-- The threads that are done were answered what they set out to ask. -/
theorem Along.answered_all {F D : Duties} (h : Along L F D s (start threads) w l crew w')
    (hd : crew.isDone) {i : Nat} {cs : List Chore} {x : Worker} (hcs : threads[i]? = some cs)
    (hx : crew[i]? = some x) :
    (answersTo i l).map Answer.chore = cs.filter Chore.asks ∧
      x.added = (answersTo i l).countP Answer.isAddition ∧
      x.removed = (answersTo i l).countP Answer.isRemoval := by
  have h₀ : (start threads)[i]? = some (Worker.ofChores cs) := by rw [getElem?_start, hcs]; rfl
  have ha := h.answered i _ x h₀ hx
  have ht := todo_of_isDone hd (List.mem_of_getElem? hx)
  have hc := ha.chores
  have hadd := ha.additions
  have hrem := ha.removals
  rw [Worker.chores, ht, List.filterMap_nil, List.append_nil, Worker.chores_ofChores] at hc
  rw [Worker.additions, ht, List.countP_nil, Worker.additions_ofChores, Nat.zero_add] at hadd
  rw [Worker.removals, ht, List.countP_nil, Worker.removals_ofChores, Nat.zero_add] at hrem
  exact ⟨hc, hadd, hrem⟩

/-- When all threads are done, every chore that asks something was answered. -/
theorem Along.exists_answer {F D : Duties} (h : Along L F D s (start threads) w l crew w')
    (hd : crew.isDone) {c : Chore} (hc : c ∈ threads.flatten) (hasks : c.asks) :
    ∃ a ∈ l, a.chore = c := by
  obtain ⟨cs, hcs, hc⟩ := List.mem_flatten.mp hc
  obtain ⟨i, hi⟩ := List.mem_iff_getElem?.mp hcs
  have hlt : i < crew.length := by
    rw [h.length, start, List.length_map]
    exact (List.getElem?_eq_some_iff.mp hi).1
  have hall := (h.answered_all hd hi (List.getElem?_eq_getElem hlt)).1
  have hm : c ∈ (answersTo i l).map Answer.chore := by
    rw [hall]
    exact List.mem_filter.mpr ⟨hc, hasks⟩
  obtain ⟨a, ha, rfl⟩ := List.mem_map.mp hm
  exact ⟨a, (List.mem_filter.mp ha).1, rfl⟩

/-- Nothing of a value went out if no thread asked for that. -/
theorem Along.not_removed {F D D₀ : Duties} (h : Along L F D s (start threads) w l crew w') {v : Value}
    (hv : ∀ q, .remove s q ∈ threads.flatten → q.target w ≠ v) {e : ElementId} {t : Ticket}
    (hc : Came w l s v e t) (hq : w.Quiet) (hw : w.Sane D₀) : ¬ Removed l s t := by
  rintro ⟨i, q, hm⟩
  obtain ⟨e', hval, hst⟩ := h.history.removed i q t hm
  have hst' : .stored t e ∈ w'.journal.toList ∧ w.value e = v := by
    rcases hc with hc | ⟨hc, ha⟩
    · have hhas := hq.dict_eq_some.mp hc
      obtain ⟨y, hy, rfl⟩ := hhas.handle
      exact ⟨h.later.mem_journal (hw.recorded.stored _ _ hy), hhas.value⟩
    · exact ⟨h.history.added e t ha, hc⟩
  obtain rfl := h.busy.sane.recorded.unique _ _ _ hst'.1 hst
  exact hv q (h.mem_flatten hm) (hval.symm.trans hst'.2)

theorem Along.countP_takes {F D : Duties} (h : Along L F D s (start threads) w l crew w') {v : Value}
    (hv : ∀ q, .remove s q ∈ threads.flatten → q.target w ≠ v)
    (ho : ∀ cs ∈ threads, ∀ c ∈ cs, c.IsOf s) : l.countP (Answer.takes w v) = 0 := by
  refine List.countP_eq_zero.mpr fun a ha => ?_
  have hm := h.mem_flatten ha
  obtain ⟨cs, hcs, hc⟩ := List.mem_flatten.mp hm
  have hown := ho cs hcs _ hc
  rw [Answer.takes]
  split
  · rename_i s' q heq
    rw [heq] at hown hm
    obtain rfl : s' = s := hown
    simp [hv q hm]
  · exact Bool.false_ne_true

theorem Along.once {F D : Duties} (h : Along L F D s (start threads) w l crew w')
    (hd : crew.isDone) (ho : ∀ cs ∈ threads, ∀ c ∈ cs, c.IsOf s) {v : Value}
    (hn : w.dict s v = none) (hv : ∀ q, .remove s q ∈ threads.flatten → q.target w ≠ v)
    (he : ∃ e, .add s e ∈ threads.flatten ∧ w.value e = v)
    (ha : ∀ e, .add s e ∈ threads.flatten → w.value e = v → w'.isAlive e) :
    l.countP (Answer.adds w v) = 1 := by
  have hcame : ∀ {e t}, Came w l s v e t → ∃ i, ⟨i, .add s e, some t⟩ ∈ l ∧ w.value e = v := by
    rintro e t (hc | ⟨hc, i, hi⟩)
    · rw [hn] at hc
      cases hc
    · exact ⟨i, hi, hc⟩
  have hb := h.history.balance v fun e t hc => by
    obtain ⟨i, hi, hval⟩ := hcame hc
    exact ha e (h.mem_flatten hi) hval
  rw [h.countP_takes hv ho, hn] at hb
  have hle : (w'.dict s v).toList.length ≤ 1 := by
    cases w'.dict s v <;> simp
  have hpos : 0 < l.countP (Answer.adds w v) := by
    rw [List.countP_pos_iff]
    obtain ⟨e, hm, hval⟩ := he
    obtain ⟨⟨i, c, t?⟩, hal, rfl⟩ := h.exists_answer hd hm rfl
    rcases t? with _ | t
    · obtain ⟨e', t, hc⟩ := h.history.refused i e hal
      rw [hval] at hc
      obtain ⟨j, hj, hval'⟩ := hcame hc
      exact ⟨_, hj, by simp [Answer.adds, hval']⟩
    · exact ⟨_, hal, by simp [Answer.adds, hval]⟩
  simp only [Option.toList_none, List.length_nil, Nat.add_zero, Nat.zero_add] at hb
  omega

/-- The books tally at every point of a run. -/
theorem Along.booked {F D : Duties} (h : Along L F D s (start threads) w l crew w') :
    w'.Kept (due crew + D) :=
  h.busy.point.kept

theorem Along.owned (h : Along L (holds kept) (holds kept) s (start threads) w l crew w')
    (hb : Begins s w kept threads) (hd : crew.isDone) (e : ElementId) :
    w'.strong e + threads.flatten.count (.release e) = w.strong e := by
  have hc := hb.steady.sane.counted.strong e
  have hc' := (h.steady hd).sane.counted.strong e
  have hands : w.handsOn e = 0 ∧ w'.handsOn e = 0 := by
    rw [handsOn, handsOn, hb.steady.quiet.idle, h.busy.quiet.idle]
    exact ⟨rfl, rfl⟩
  rw [hands.1, Multiset.count_add, count_due_start] at hc
  rw [hands.2, ownersOf, h.owners] at hc'
  rw [ownersOf] at hc
  omega

/-- After a last sweep there are the handles of elements that are alive and were not removed. -/
theorem Along.left (h : Along L (holds kept) (holds kept) s (start threads) w l crew w')
    (hq : w.Quiet) (hL : L.Uses s) (hd : crew.isDone) {run : Runner} (hr : run.Sound) :
    ∃ n w'', (sweep run s).exec w' = (.ok n, w'') ∧
      ∀ t e, t.owner = s → ((w''.handle? t).map Handle.element = some e ↔
        ((w.handle? t).map Handle.element = some e ∨ Added l s e t) ∧ ¬ Removed l s t ∧
          w'.isAlive e) := by
  have hlive : w'.isLive s := h.on.isLive hL
  obtain ⟨n, w'', hdo, hm, hfresh⟩ := does_sweep hr (h.steady hd) (lt_size_of_isLive hlive)
  refine ⟨n, w'', hdo.exec, fun t e ho => ?_⟩
  have hval : w''.value e = w.value e := (hdo.framed.value e).trans (h.history.value e)
  have hhas : w''.Has s (w.value e) e t ↔ (w''.handle? t).map Handle.element = some e := by
    rw [Option.map_eq_some_iff]
    refine ⟨fun hx => hx.handle, fun ⟨y, hy, hye⟩ => ⟨ho, ⟨y, hy, hye⟩, ?_, hval⟩⟩
    rw [← hye]
    exact hfresh hlive t y ho hy
  rw [← hhas, ← hdo.steady.quiet.dict_eq_some, hm, h.history.entries, Came]
  refine and_congr_left fun hx => or_congr ?_ (and_iff_right rfl)
  rw [hq.dict_eq_some, Option.map_eq_some_iff]
  exact ⟨fun hy => hy.handle, fun hy => ⟨ho, hy, h.history.ends e hx.2, rfl⟩⟩

/-- What threads come to when all are done. -/
theorem Along.ends (h : Along L (holds kept) (holds kept) s (start threads) w l crew w')
    (hb : Begins s w kept threads) (hL : L.Uses s) (hd : crew.isDone) :
    Ends s w kept threads l crew w' where
  answered i cs x hcs hx := h.answered_all hd hcs hx
  once v hn hv he ha := h.once hd hb.own hn hv he ha
  never v e t hm hv ha := h.history.constant v e t hm
    (h.not_removed hv (.inl hm) hb.steady.quiet hb.steady.sane) ha
  balance := h.history.balance
  reported t := by
    have := h.booked.swept t
    rw [due_of_isDone hd, Multiset.zero_add] at this
    rw [this, Multiset.count_eq_zero.mpr (not_mem_holds (by simp) kept), Nat.add_zero]
  owned := h.owned hb hd
  left run hr := h.left hb.steady.quiet hL hd hr

end Ends

end Crew

end WeakSet
