import WeakSet.Proofs.Independence

/-!
# Threads that do not get in each other's way

If a value concerns one thread alone, which adds one element of it and then removes it at most once
while it still holds the element, then all of that succeeds (`Crew.Along.granted`), whatever the
other threads do in between. So what threads come to that add and remove elements of values of their
own does not depend on the schedule, nor does what threads come to that all add elements of one value.
-/

namespace WeakSet

open Act Duties World

namespace Chore

/-- Whether a chore adds an element of value `v`. -/
def isAddOf (w : World) (v : Value) : Chore → Bool
  | add _ e => w.value e = v
  | _ => false

/-- Whether a chore removes what has value `v`. -/
def isRemoveOf (w : World) (v : Value) : Chore → Bool
  | remove _ q => q.target w = v
  | _ => false

/-- A stage decides the chore that it is of. -/
theorem eq_of_mem_stages {c c' : Chore} {st : Stage} (hst : st ∈ c.stages)
    (hc : st.chore? = some c') : c = c' := by
  have hm : c' ∈ c.stages.filterMap Stage.chore? := List.mem_filterMap.mpr ⟨st, hst, hc⟩
  rw [filterMap_stages] at hm
  split at hm
  · exact (List.mem_singleton.mp hm).symm
  · cases hm

end Chore

/-- Whatever was asked about a value succeeded. -/
def Granted (w : World) (l : List Answer) (v : Value) : Prop :=
  ∀ a ∈ l, a.chore.isAddOf w v ∨ a.chore.isRemoveOf w v → a.ticket?.isSome

namespace Crew

/-- No element of value `v` is in set `s`, at most one comes, and it is removed at most once, by the
thread that added it, before that lets go of it. -/
structure Alone (s : SetId) (w₀ : World) (crew₀ : Crew) (v : Value) : Prop where
  absent : w₀.dict s v = none
  adds : (crew₀.flatMap Worker.chores).countP (Chore.isAddOf w₀ v) ≤ 1
  removes : (crew₀.flatMap Worker.chores).countP (Chore.isRemoveOf w₀ v) ≤ 1
  between : ∀ x₀ ∈ crew₀, ∀ s' q zs, .remove s' q :: zs <:+ x₀.todo → q.target w₀ = v →
    ∃ e, w₀.value e = v ∧ .add s e ∈ x₀.chores ∧ .add s e ∉ zs.filterMap Stage.chore? ∧
      .release e ∈ zs

variable {L : Scene} {run : Runner} {w₀ w w' : World} {D F : Duties} {s : SetId}
  {crew₀ crew crew' : Crew} {l : List Answer} {i : Nat} {v : Value}

/-- What there is at most one of was not asked for before. -/
theorem Along.first {p : Chore → Bool} {a b : Answer}
    (h' : Along L F D s crew₀ w₀ (l ++ [a]) crew' w')
    (hp : (crew₀.flatMap Worker.chores).countP p ≤ 1) (ha : p a.chore) (hb : b ∈ l) :
    ¬ p b.chore := by
  intro hpb
  have htotal := h'.countP_chores p
  have hpos : 0 < l.countP fun a => p a.chore := List.countP_pos_iff.mpr ⟨b, hb, hpb⟩
  rw [List.countP_append, List.countP_singleton, if_pos ha] at htotal
  omega

theorem mem_due {x : Worker} {e : ElementId} (hx : x ∈ crew) (he : .release e ∈ x.todo) :
    .hold e ∈ due crew := by
  induction crew with
  | nil => cases hx
  | cons y crew ih =>
    rw [due_cons, Multiset.mem_add]
    rcases List.mem_cons.mp hx with rfl | hx
    · exact .inl (Stage.hold_mem_dues he)
    · exact .inr (ih hx)

/-- The insertion of the only element of a value comes to something. -/
theorem Along.granted_add {e : ElementId} {t? : Option Ticket} (h : Along L F D s crew₀ w₀ l crew w)
    (h' : Along L F D s crew₀ w₀ (l ++ [⟨i, .add s e, t?⟩]) crew' w') (hv : Alone s w₀ crew₀ v)
    (hi : (w.dict s).Inserts (w.value e) e t? (w'.dict s)) (hval : w₀.value e = v) : t?.isSome := by
  unfold Dict.Inserts at hi
  rcases hm : w.dict s (w.value e) with _ | ⟨e', t'⟩ <;> simp only [hm] at hi
  · obtain ⟨t, rfl, -⟩ := hi
    rfl
  · rw [h.history.value, hval] at hm
    rcases ((h.history.entries v e' t').mp hm).1 with hc | ⟨hv', j, hj⟩
    · rw [hv.absent] at hc
      cases hc
    · exact absurd (by simp [Chore.isAddOf, hv'])
        (h'.first hv.adds (by simp [Chore.isAddOf, hval]) hj)

section Removal

variable {x : Worker} {q : Query} (h : Along L F D s crew₀ w₀ l crew w) (hv : Alone s w₀ crew₀ v)
  (hg : Granted w₀ l v) (hi : crew[i]? = some { x with todo := .remove s q :: x.todo })
  (hval : q.target w₀ = v)

include h hv hg hi hval

/-- Before a thread removes the only element of a value it added that, and it still holds it. -/
theorem Along.exists_added : ∃ e t, w₀.value e = v ∧ Added l s e t ∧ w.isAlive e := by
  have hi₀ : i < crew₀.length := h.length ▸ (List.getElem?_eq_some_iff.mp hi).1
  have hans := h.answered i _ _ (List.getElem?_eq_getElem hi₀) hi
  obtain ⟨e, hve, hadd, hnot, hrel⟩ := hv.between _ (List.getElem_mem hi₀) s q x.todo
    (hans.ahead _ _ rfl List.suffix_rfl) hval
  -- the addition is not ahead any more, so the thread has its answer
  have hmem : .add s e ∈ (answersTo i l).map Answer.chore := by
    rw [← hans.chores] at hadd
    refine (List.mem_append.mp hadd).resolve_right fun hm => ?_
    rw [Worker.chores, List.filterMap_cons] at hm
    exact hnot (by simpa [Stage.chore?] using hm)
  obtain ⟨⟨j, c, t?⟩, hb, rfl⟩ := List.mem_map.mp hmem
  have hb := (List.mem_filter.mp hb).1
  obtain ⟨t, rfl⟩ := Option.isSome_iff_exists.mp (hg _ hb (.inl (by simp [Chore.isAddOf, hve])))
  refine ⟨e, t, hve, ⟨j, hb⟩, h.busy.sane.counted.isAlive_of_hold (Multiset.mem_add.mpr (.inl ?_))⟩
  exact mem_due (List.mem_of_getElem? hi) (List.mem_cons_of_mem _ hrel)

/-- The removal of the only element of a value, by the thread that added it, comes to something. -/
theorem Along.granted_remove {t? : Option Ticket}
    (h' : Along L F D s crew₀ w₀ (l ++ [⟨i, .remove s q, t?⟩]) crew' w') :
    (w.dict s (q.target w)).isSome := by
  obtain ⟨e, t, hve, hadd, halive⟩ := h.exists_added hv hg hi hval
  have hnr : ¬ Removed l s t := by
    rintro ⟨k, q', hk⟩
    obtain ⟨e', hv', hst'⟩ := h.history.removed k q' t hk
    obtain rfl := h.busy.sane.recorded.unique _ _ _ (h.history.added e t hadd) hst'
    exact absurd (by simp [Chore.isRemoveOf, ← hv', hve])
      (h'.first hv.removes (by simp [Chore.isRemoveOf, hval]) hk)
  have hentry := (h.history.entries v e t).mpr ⟨.inr ⟨hve, hadd⟩, hnr, halive⟩
  rw [h.history.target, hval, hentry]
  rfl

end Removal

/-- A step grants what concerns one thread alone. -/
theorem Along.granted (h : Along L F D s crew₀ w₀ l crew w) {a? : Option Answer}
    (hs : Steps run D s crew w i crew' w' a?)
    (h' : Along L F D s crew₀ w₀ (l ++ a?.toList) crew' w') (hv : Alone s w₀ crew₀ v)
    (hg : Granted w₀ l v) : Granted w₀ (l ++ a?.toList) v := by
  cases hs with
  | idle => rwa [Option.toList_none, List.append_nil]
  | @does x y st R w' hi hdue hset hd =>
    rcases hc : st.chore? with _ | c <;> rw [hc] at h'
    · rwa [Option.map_none, Option.toList_none, List.append_nil]
    rw [Option.map_some, Option.toList_some] at h' ⊢
    intro a ha hask
    rcases List.mem_append.mp ha with ha | ha
    · exact hg a ha hask
    obtain rfl := List.mem_singleton.mp ha
    have hturn := hd.turn
    rw [hc] at hturn
    generalize st.ticket? run w = t? at hturn h' ha
    cases hturn with
    | add _ hins =>
      exact h.granted_add h' hv hins (by simpa [Chore.isAddOf, Chore.isRemoveOf] using hask)
    | @remove q =>
      obtain rfl : st = .remove s q := by
        cases st <;> simp only [Stage.chore?, Option.some.injEq, reduceCtorEq, Chore.remove.injEq] at hc
        obtain ⟨rfl, rfl⟩ := hc
        rfl
      rw [Option.isSome_map]
      exact h.granted_remove hv hg hi (by simpa [Chore.isAddOf, Chore.isRemoveOf] using hask) h'

/-! ## How much threads come to -/

variable {threads : List (List Chore)} {kept : List ElementId} {es : List ElementId} {e : ElementId}
  {t : Ticket}

/-- What a count of done threads comes to that starts at nothing and grows with their answers. -/
theorem sum_of_isDone {f g : Worker → Nat} {n : Nat} (hd : crew.isDone)
    (hsum : (crew.map f).sum = ((start threads).map f).sum + n)
    (hf : ∀ cs, f (Worker.ofChores cs) = 0) (hfg : ∀ x : Worker, x.todo = [] → f x = g x) :
    (crew.map g).sum = n := by
  have hstart : ((start threads).map f).sum = 0 := by
    rw [start, List.map_map, List.sum_eq_zero_iff]
    intro n hn
    obtain ⟨cs, -, rfl⟩ := List.mem_map.mp hn
    exact hf cs
  rw [hstart, Nat.zero_add] at hsum
  rw [← hsum]
  exact congrArg List.sum (List.map_congr_left fun x hx => (hfg x (todo_of_isDone hd hx)).symm)

theorem Along.added_eq (h : Along L F D s (start threads) w₀ l crew w) (hd : crew.isDone) :
    crew.added = l.countP Answer.isAddition :=
  (sumBy_eq _ _).trans <| sum_of_isDone hd h.additions Worker.additions_ofChores fun x hx => by
    rw [Worker.additions, hx]
    rfl

theorem Along.removed_eq (h : Along L F D s (start threads) w₀ l crew w) (hd : crew.isDone) :
    crew.removed = l.countP Answer.isRemoval :=
  (sumBy_eq _ _).trans <| sum_of_isDone hd h.removals Worker.removals_ofChores fun x hx => by
    rw [Worker.removals, hx]
    rfl

/-- When all threads are done, there are as many answers to chores of a kind as there were chores. -/
theorem Along.countP_answers (h : Along L F D s (start threads) w₀ l crew w) (hd : crew.isDone)
    {p : Chore → Bool} (hp : ∀ c, p c → c.asks) :
    (l.countP fun a => p a.chore) = threads.flatten.countP p := by
  have hnone : crew.flatMap Worker.chores = [] := by
    refine List.flatMap_eq_nil_iff.mpr fun x hx => ?_
    rw [Worker.chores, todo_of_isDone hd hx]
    rfl
  have htotal := h.countP_chores p
  rw [hnone, List.countP_nil, Nat.zero_add, chores_start, List.countP_filter] at htotal
  rw [← htotal]
  refine List.countP_congr fun c _ => ?_
  simpa using hp c

/-- What was there and stays alive is there if nobody removes it. -/
theorem Along.stays (h : Along L (holds kept) (holds kept) s (start threads) w l crew w')
    (hb : Begins s w kept threads) (hd : crew.isDone) (hm : w.dict s v = some (e, t))
    (hv : ∀ q, .remove s q ∈ threads.flatten → q.target w ≠ v)
    (he : .release e ∉ threads.flatten) : w'.dict s v = some (e, t) := by
  refine (h.history.entries v e t).mpr
    ⟨.inl hm, h.not_removed hv (.inl hm) hb.steady.quiet hb.steady.sane, ?_⟩
  have ho := h.owned hb hd e
  rw [List.count_eq_zero.mpr he, Nat.add_zero] at ho
  exact isAlive_iff.mpr (ho ▸ isAlive_iff.mp (hb.steady.quiet.dict_eq_some.mp hm).alive)

/-- What threads come to: how many insertions and removals succeeded, and how many handles are left
after a sweep. -/
def Totals (run : Runner) (s : SetId) (crew : Crew) (w : World) (added removed size : Nat) : Prop :=
  crew.added = added ∧ crew.removed = removed ∧ ∃ w', (length run s).exec w = (.ok size, w')

end Crew

/-- New values are listed after the old. -/
theorem Dict.Lists.append {m m' : Dict} {vs news : List Value} (h : m.Lists vs)
    (hn : news.Nodup) (hnew : ∀ v ∈ news, m v = none)
    (hm : ∀ v, (m' v).isSome ↔ (m v).isSome ∨ v ∈ news) : m'.Lists (vs ++ news) := by
  refine ⟨List.Nodup.append h.1 hn fun v hv hv' => ?_, fun v => ?_⟩
  · have hs := (h.2 v).mp hv
    rw [hnew v hv'] at hs
    cases hs
  · rw [List.mem_append, hm, h.2]

theorem Dict.Lists.length_eq {m : Dict} {vs vs' : List Value} (h : m.Lists vs) (h' : m.Lists vs') :
    vs.length = vs'.length :=
  ((List.perm_ext_iff_of_nodup h.1 h'.1).mpr fun v => (h.2 v).trans (h'.2 v).symm).length_eq

namespace Crew

variable {L : Scene} {run : Runner} {w w' : World} {s : SetId} {threads : List (List Chore)}
  {kept es : List ElementId} {crew : Crew} {l : List Answer} {v : Value} {e : ElementId}

/-- If what was there stays, then after a sweep there are as many handles as there were entries, and
one more for each new value. -/
theorem Along.totals (h : Along L (holds kept) (holds kept) s (start threads) w l crew w')
    (hb : Begins s w kept threads) (hL : L.Uses s) (hd : crew.isDone) (hr : run.Sound)
    (news : List Value) (hn : news.Nodup) (hnew : ∀ v ∈ news, w.dict s v = none)
    (hm : ∀ v, (w'.dict s v).isSome ↔ (w.dict s v).isSome ∨ v ∈ news) :
    ∃ vs, (w.dict s).Lists vs ∧ Totals run s crew w' (l.countP Answer.isAddition)
      (l.countP Answer.isRemoval) (vs.length + news.length) := by
  have hlive : w'.isLive s := h.on.isLive hL
  obtain ⟨name, hserved⟩ := hb.served
  obtain ⟨-, -, -, -, vs, hvs, -⟩ :=
    does_length hr hb.steady (lt_size_of_isLive hserved.isLive) hserved.isLive
  obtain ⟨n, w'', hdo, -, vs', hvs', rfl⟩ :=
    does_length hr (h.steady hd) (lt_size_of_isLive hlive) hlive
  refine ⟨vs, hvs, h.added_eq hd, h.removed_eq hd, w'', ?_⟩
  rw [hdo.exec, hvs'.length_eq (hvs.append hn hnew hm), List.length_append]

/-! ## Threads that all add the same value -/

/-- The chores of threads that each add one of some elements. -/
def addingThreads (s : SetId) (es : List ElementId) : List (List Chore) :=
  es.map fun e => [.add s e]

theorem flatten_addingThreads (s : SetId) (es : List ElementId) :
    (addingThreads s es).flatten = es.map (.add s) := by
  rw [addingThreads, ← List.flatMap_def, List.map_eq_flatMap]

section Adding

theorem exists_of_mem_adding {c : Chore} (hc : c ∈ (addingThreads s es).flatten) :
    ∃ e ∈ es, .add s e = c := by
  rw [flatten_addingThreads] at hc
  exact List.mem_map.mp hc

theorem not_remove_of_adding (v : Value) (q : Query)
    (hq : .remove s q ∈ (addingThreads s es).flatten) : q.target w ≠ v := by
  obtain ⟨e, -, he⟩ := exists_of_mem_adding hq
  cases he

variable (h : Along L (holds es) (holds es) s (start (addingThreads s es)) w l crew w')
  (hb : Begins s w es (addingThreads s es)) (hd : crew.isDone)

include h hb hd

/-- Whatever comes to threads that only add is there when they are done. -/
theorem Along.dict_of_came {e : ElementId} {t : Ticket} (hc : Came w l s v e t) :
    w'.dict s v = some (e, t) := by
  rcases hc with hm | ⟨hval, i, hi⟩
  · refine h.stays hb hd hm (not_remove_of_adding v) fun he => ?_
    obtain ⟨e', -, he⟩ := exists_of_mem_adding he
    cases he
  · have hr := h.not_removed (not_remove_of_adding v) (.inr ⟨hval, i, hi⟩) hb.steady.quiet
      hb.steady.sane
    refine (h.history.entries v e t).mpr ⟨.inr ⟨hval, i, hi⟩, hr, ?_⟩
    obtain ⟨e', he', heq⟩ := exists_of_mem_adding (h.mem_flatten hi)
    cases heq
    exact (h.steady hd).sane.counted.isAlive_of_hold
      (Multiset.mem_coe.mpr (List.mem_map_of_mem he'))

/-- When threads added elements of value `v`, there is one, and otherwise what there was. -/
theorem Along.dict_adding (hes : es ≠ []) (hv : ∀ e ∈ es, w.value e = v) (v' : Value) :
    (w'.dict s v').isSome ↔ (w.dict s v').isSome ∨ v' = v := by
  constructor
  · intro hs
    obtain ⟨⟨e, t⟩, hm⟩ := Option.isSome_iff_exists.mp hs
    rcases ((h.history.entries v' e t).mp hm).1 with hm | ⟨rfl, i, hi⟩
    · exact .inl (Option.isSome_of_eq_some hm)
    · obtain ⟨e', he', heq⟩ := exists_of_mem_adding (h.mem_flatten hi)
      cases heq
      exact .inr (hv e he')
  · rintro (hs | rfl)
    · obtain ⟨⟨e, t⟩, hm⟩ := Option.isSome_iff_exists.mp hs
      exact Option.isSome_of_eq_some (h.dict_of_came hb hd (.inl hm))
    · obtain ⟨e, he⟩ := List.exists_mem_of_ne_nil es hes
      have hadd : .add s e ∈ (addingThreads s es).flatten := by
        rw [flatten_addingThreads]
        exact List.mem_map_of_mem he
      obtain ⟨⟨i, c, t?⟩, hi, rfl⟩ := h.exists_answer hd hadd rfl
      rcases t? with _ | t
      · obtain ⟨e', t, hc⟩ := h.history.refused i e hi
        rw [hv e he] at hc
        exact Option.isSome_of_eq_some (h.dict_of_came hb hd hc)
      · exact Option.isSome_of_eq_some (h.dict_of_came hb hd (.inr ⟨hv e he, i, hi⟩))

omit hb hd in
/-- How many insertions succeed among those of threads that all add elements of one value. -/
theorem Along.additions_adding (hv : ∀ e ∈ es, w.value e = v) :
    l.countP Answer.isAddition = l.countP (Answer.adds w v) ∧ l.countP Answer.isRemoval = 0 := by
  constructor
  · refine List.countP_congr fun a ha => ?_
    obtain ⟨e, he, hc⟩ := exists_of_mem_adding (h.mem_flatten ha)
    simp [Answer.isAddition, Answer.adds, ← hc, Chore.isAdd, hv e he]
  · refine List.countP_eq_zero.mpr fun a ha => ?_
    obtain ⟨e, -, hc⟩ := exists_of_mem_adding (h.mem_flatten ha)
    simp [Answer.isRemoval, ← hc, Chore.isRemove]

/-- One of several threads that add elements of a value succeeds, and none if there is one. -/
theorem Along.adding (hL : L.Uses s) (hr : run.Sound) (hes : es ≠ [])
    (hv : ∀ e ∈ es, w.value e = v) :
    ∃ vs, (w.dict s).Lists vs ∧
      Totals run s crew w' (if (w.dict s v).isSome then 0 else 1) 0
        (vs.length + if (w.dict s v).isSome then 0 else 1) := by
  have hdict := h.dict_adding hb hd hes hv
  obtain ⟨hadd, hremove⟩ := h.additions_adding hv
  have hbalance := (h.ends hb hL hd).balance v fun e t hc =>
    (h.steady hd).quiet.dict_eq_some.mp (h.dict_of_came hb hd hc) |>.alive
  rw [h.countP_takes (not_remove_of_adding v) hb.own, Nat.zero_add] at hbalance
  obtain ⟨x, hx⟩ := Option.isSome_iff_exists.mp ((hdict v).mpr (.inr rfl))
  rcases hm : w.dict s v with _ | ⟨e, t⟩
  · have htotals := h.totals hb hL hd hr [v] (List.nodup_singleton v) (by simp [hm])
      fun v' => by rw [List.mem_singleton, hdict]
    rw [hm, hx] at hbalance
    rwa [hadd, hremove, show l.countP (Answer.adds w v) = 1 from hbalance] at htotals
  · have htotals := h.totals hb hL hd hr [] List.nodup_nil (by simp) fun v' =>
      (hdict v').trans ⟨fun hs => .inl (hs.elim id fun hv' => by rw [hv', hm]; rfl),
        fun hs => .inl (hs.resolve_right List.not_mem_nil)⟩
    rw [hm, hx] at hbalance
    rwa [hadd, hremove, show l.countP (Answer.adds w v) = 0 from by simpa using hbalance]
      at htotals

end Adding

/-! ## Threads with values of their own -/

/-- The elements of threads, each with its number in its thread. -/
def numbered (elems : List (List ElementId)) : List (ElementId × Nat) :=
  elems.flatMap List.zipIdx

/-- What a thread does with its `i`th element. -/
def mixing (s : SetId) (w : World) (x : ElementId × Nat) : List Chore :=
  mixedChores s x.2 (w.value x.1) x.1

/-- The chores of threads that add their elements, remove some and let go of some. -/
def mixingThreads (s : SetId) (w : World) (elems : List (List ElementId)) : List (List Chore) :=
  elems.map fun es => es.zipIdx.flatMap (mixing s w)

/-- The elements that threads do not let go of. -/
def mixedKept (elems : List (List ElementId)) : List ElementId :=
  ((numbered elems).filter fun x => x.2 % 3 = 2).map Prod.fst

/-- Elements are of different values of which set `s` has none, and each has one owner. -/
structure Separate (s : SetId) (w : World) (elems : List (List ElementId)) : Prop where
  distinct : (elems.flatten.map w.value).Nodup
  absent : ∀ e ∈ elems.flatten, w.dict s (w.value e) = none
  single : ∀ e ∈ elems.flatten, w.strong e = 1

section Mixing

variable {elems : List (List ElementId)} {x : ElementId × Nat} {c : Chore}

theorem flatten_mixingThreads (s : SetId) (w : World) (elems : List (List ElementId)) :
    (mixingThreads s w elems).flatten = (numbered elems).flatMap (mixing s w) := by
  rw [mixingThreads, numbered, ← List.flatMap_def, List.flatMap_assoc]

theorem map_numbered (elems : List (List ElementId)) :
    (numbered elems).map Prod.fst = elems.flatten := by
  rw [numbered, List.map_flatMap, List.flatten_eq_flatMap]
  refine List.flatMap_congr fun es _ => ?_
  exact List.zipIdx_map_fst 0 es

/-- The cases of what is done with an element. -/
theorem mixing_cases (s : SetId) (w : World) (x : ElementId × Nat) :
    x.2 % 3 = 0 ∧ mixing s w x = [.add s x.1, .release x.1] ∨
    x.2 % 3 = 1 ∧ mixing s w x = [.add s x.1, .remove s (.value (w.value x.1)), .release x.1] ∨
    x.2 % 3 = 2 ∧ mixing s w x = [.add s x.1] := by
  rw [mixing, mixedChores]
  have hlt := Nat.mod_lt x.2 (show 0 < 3 by decide)
  generalize x.2 % 3 = n at hlt
  match n, hlt with
  | 0, _ => exact .inl ⟨rfl, rfl⟩
  | 1, _ => exact .inr (.inl ⟨rfl, rfl⟩)
  | 2, _ => exact .inr (.inr ⟨rfl, rfl⟩)

theorem add_mem_mixing : .add s e ∈ mixing s w x ↔ x.1 = e := by
  rcases mixing_cases s w x with ⟨-, h⟩ | ⟨-, h⟩ | ⟨-, h⟩ <;> simp [h, eq_comm]

theorem remove_mem_mixing {q : Query} :
    .remove s q ∈ mixing s w x ↔ q = .value (w.value x.1) ∧ x.2 % 3 = 1 := by
  rcases mixing_cases s w x with ⟨hn, h⟩ | ⟨hn, h⟩ | ⟨hn, h⟩ <;> simp [h, hn, eq_comm]

theorem release_mem_mixing : .release e ∈ mixing s w x ↔ x.1 = e ∧ x.2 % 3 ≠ 2 := by
  rcases mixing_cases s w x with ⟨hn, h⟩ | ⟨hn, h⟩ | ⟨hn, h⟩ <;> simp [h, hn, eq_comm]

theorem isOf_of_mem_mixing (hc : c ∈ mixing s w x) (ha : c.asks) :
    c.isAddOf w (w.value x.1) ∨ c.isRemoveOf w (w.value x.1) := by
  rcases mixing_cases s w x with ⟨-, h⟩ | ⟨-, h⟩ | ⟨-, h⟩ <;> rw [h] at hc <;>
    simp only [List.mem_cons, List.not_mem_nil, or_false] at hc
  · rcases hc with rfl | rfl
    · simp [Chore.isAddOf]
    · cases ha
  · rcases hc with rfl | rfl | rfl
    · simp [Chore.isAddOf]
    · simp [Chore.isRemoveOf, Query.target]
    · cases ha
  · subst hc
    simp [Chore.isAddOf]

theorem mem_mixingThreads : c ∈ (mixingThreads s w elems).flatten ↔
    ∃ x ∈ numbered elems, c ∈ mixing s w x := by
  rw [flatten_mixingThreads, List.mem_flatMap]

/-- A kind of chore that each element has at most once is there as often as such elements are. -/
theorem countP_mixingThreads {p : Chore → Bool} {q : ElementId × Nat → Bool}
    (hp : ∀ x, (mixing s w x).countP p = if q x then 1 else 0) :
    (mixingThreads s w elems).flatten.countP p = (numbered elems).countP q := by
  rw [flatten_mixingThreads]
  induction numbered elems with
  | nil => rfl
  | cons x xs ih => rw [List.flatMap_cons, List.countP_append, ih, hp, List.countP_cons, Nat.add_comm]

/-- A stage that comes of a list comes of one of its members. -/
theorem exists_of_suffix_flatMap {α β : Type} {f : α → List β} {z : β} {zs : List β} {xs : List α}
    (h : z :: zs <:+ xs.flatMap f) :
    ∃ pre x post zs', xs = pre ++ x :: post ∧ z :: zs' <:+ f x ∧ zs = zs' ++ post.flatMap f := by
  induction xs with
  | nil => cases List.suffix_nil.mp h
  | cons x xs ih =>
    have hrest : z :: zs <:+ xs.flatMap f → ∃ pre y post zs',
        x :: xs = pre ++ y :: post ∧ z :: zs' <:+ f y ∧ zs = zs' ++ post.flatMap f := by
      intro h
      obtain ⟨pre, y, post, zs', rfl, hs, rfl⟩ := ih h
      exact ⟨x :: pre, y, post, zs', rfl, hs, rfl⟩
    obtain ⟨pre, hpre⟩ := h
    rw [List.flatMap_cons] at hpre
    rcases List.append_eq_append_iff.mp hpre with ⟨new, hnew, hzs⟩ | ⟨new, -, hnew⟩
    · cases new with
      | nil => exact hrest ⟨[], hzs⟩
      | cons z' new =>
        obtain ⟨rfl, rfl⟩ := List.cons.inj hzs
        exact ⟨[], x, xs, new, rfl, ⟨pre, hnew.symm⟩, rfl⟩
    · exact hrest ⟨new, hnew.symm⟩

theorem mem_flatten_of_numbered (hx : x ∈ numbered elems) : x.1 ∈ elems.flatten :=
  map_numbered elems ▸ List.mem_map_of_mem hx

theorem mem_mixedKept (hx : x ∈ numbered elems) (hk : x.2 % 3 = 2) : x.1 ∈ mixedKept elems :=
  List.mem_map_of_mem (List.mem_filter.mpr ⟨hx, by simpa using hk⟩)

/-- Such threads may be set to work in a steady world. -/
theorem Begins.mixing
    (hw : w.Steady (due (start (mixingThreads s w elems)) + holds (mixedKept elems)))
    (hs : ∃ name, w.Serves (name, s)) :
    Begins s w (mixedKept elems) (mixingThreads s w elems) where
  steady := hw
  served := hs
  own cs hcs c hc := by
    obtain ⟨x, -, hc⟩ := mem_mixingThreads.mp (List.mem_flatten.mpr ⟨cs, hcs, hc⟩)
    rcases mixing_cases s w x with ⟨-, h⟩ | ⟨-, h⟩ | ⟨-, h⟩ <;> rw [h] at hc <;>
      simp only [List.mem_cons, List.not_mem_nil, or_false] at hc
    · rcases hc with rfl | rfl <;> trivial
    · rcases hc with rfl | rfl | rfl <;> trivial
    · subst hc
      rfl
  fed cs hcs e cs' hsuf := by
    obtain ⟨es, hes, rfl⟩ := List.mem_map.mp hcs
    obtain ⟨pre, x, post, zs, hsplit, hsuf', rfl⟩ := exists_of_suffix_flatMap hsuf
    have hx : x ∈ numbered elems :=
      List.mem_flatMap.mpr ⟨es, hes, hsplit ▸ List.mem_append_right _ List.mem_cons_self⟩
    rcases mixing_cases s w x with ⟨-, h⟩ | ⟨-, h⟩ | ⟨hk, h⟩ <;> rw [h] at hsuf' <;>
      simp [List.suffix_cons_iff] at hsuf'
    · obtain ⟨rfl, rfl⟩ := hsuf'
      exact .inr (List.mem_append_left _ (by simp))
    · obtain ⟨rfl, rfl⟩ := hsuf'
      exact .inr (List.mem_append_left _ (by simp))
    · obtain ⟨rfl, rfl⟩ := hsuf'
      exact .inl (mem_mixedKept hx hk)

variable (hsep : Separate s w elems)

include hsep

theorem Separate.nodup_numbered : ((numbered elems).map fun x => w.value x.1).Nodup := by
  have hn := hsep.distinct
  rwa [← map_numbered, List.map_map] at hn

/-- Numbered elements of one value are the same. -/
theorem Separate.eq_of_value {x y : ElementId × Nat} (hx : x ∈ numbered elems)
    (hy : y ∈ numbered elems) (hv : w.value x.1 = w.value y.1) : x = y :=
  List.inj_on_of_nodup_map hsep.nodup_numbered hx hy hv

theorem Separate.countP_value_le (v : Value) :
    ((numbered elems).countP fun x => w.value x.1 = v) ≤ 1 := by
  have h := List.nodup_iff_count_le_one.mp hsep.nodup_numbered v
  rw [List.count, List.countP_map] at h
  refine le_of_eq_of_le (List.countP_congr fun x _ => ?_) h
  simp

/-- A value that is not there concerns one thread alone. -/
theorem Separate.alone (v : Value) (hv : w.dict s v = none) :
    Alone s w (start (mixingThreads s w elems)) v where
  absent := hv
  adds := by
    rw [chores_start, List.countP_filter]
    refine le_trans (List.countP_mono_left fun c _ hc => (Bool.and_eq_true _ _ ▸ hc).1) ?_
    rw [countP_mixingThreads (q := fun x => w.value x.1 = v) fun x => ?_]
    · exact hsep.countP_value_le v
    · rcases mixing_cases s w x with ⟨-, h⟩ | ⟨-, h⟩ | ⟨-, h⟩ <;>
        simp [h, Chore.isAddOf, List.countP_cons]
  removes := by
    rw [chores_start, List.countP_filter]
    refine le_trans (List.countP_mono_left fun c _ hc => (Bool.and_eq_true _ _ ▸ hc).1) ?_
    rw [countP_mixingThreads (q := fun x => w.value x.1 = v ∧ x.2 % 3 = 1) fun x => ?_]
    · refine le_trans (List.countP_mono_left fun x _ hx => ?_) (hsep.countP_value_le v)
      exact decide_eq_true (of_decide_eq_true hx).1
    · by_cases hx : w.value x.1 = v <;>
        rcases mixing_cases s w x with ⟨hm, h⟩ | ⟨hm, h⟩ | ⟨hm, h⟩ <;>
        simp [h, hm, hx, Chore.isRemoveOf, Query.target]
  between x₀ hx₀ s' q zs hs ht := by
    obtain ⟨cs, hcs, rfl⟩ := mem_start hx₀
    obtain ⟨es, hes, rfl⟩ := List.mem_map.mp hcs
    rw [Worker.ofChores, List.flatMap_assoc] at hs
    obtain ⟨pre, x, post, zs', hsplit, hsuf, rfl⟩ := exists_of_suffix_flatMap hs
    obtain ⟨hval, rfl⟩ : q = .value (w.value x.1) ∧ zs' = [.release x.1] := by
      rcases mixing_cases s w x with ⟨-, h⟩ | ⟨-, h⟩ | ⟨-, h⟩ <;> rw [h] at hsuf <;>
        simp [List.suffix_cons_iff, Chore.stages] at hsuf
      exact ⟨hsuf.1.2, hsuf.2⟩
    have hnodup : (es.zipIdx.map Prod.fst).Nodup := by
      rw [List.zipIdx_map_fst]
      exact (List.nodup_flatten.mp (List.Nodup.of_map _ hsep.distinct)).1 es hes
    rw [hsplit, List.map_append, List.map_cons] at hnodup
    have hx : x.1 ∉ post.map Prod.fst := (List.nodup_cons.mp (List.nodup_append.mp hnodup).2.1).1
    refine ⟨x.1, by rw [← ht, hval]; rfl, ?_, fun hm => hx ?_, by simp⟩
    · rw [Worker.chores_ofChores, hsplit]
      exact List.mem_filter.mpr
        ⟨List.mem_flatMap.mpr ⟨x, by simp, add_mem_mixing.mpr rfl⟩, rfl⟩
    · obtain ⟨st, hst, hc⟩ := List.mem_filterMap.mp hm
      rcases List.mem_append.mp hst with hst | hst
      · cases List.mem_singleton.mp hst
        cases hc
      · obtain ⟨y, hy, hst⟩ := List.mem_flatMap.mp hst
        obtain ⟨c, hcy, hst⟩ := List.mem_flatMap.mp hst
        obtain rfl := Chore.eq_of_mem_stages hst hc
        exact List.mem_map.mpr ⟨y, hy, add_mem_mixing.mp hcy⟩

variable (h : Along L (holds (mixedKept elems)) (holds (mixedKept elems)) s
  (start (mixingThreads s w elems)) w l crew w')

include h

/-- All that threads with values of their own ask is granted. -/
theorem Along.granted_mixing (hg : ∀ v, w.dict s v = none → Granted w l v) {a : Answer}
    (ha : a ∈ l) : a.ticket?.isSome := by
  obtain ⟨x, hx, hc⟩ := mem_mixingThreads.mp (h.mem_flatten ha)
  exact hg _ (hsep.absent x.1 (mem_flatten_of_numbered hx)) a ha
    (isOf_of_mem_mixing hc (h.asks ha))

variable (hd : crew.isDone)

include hd

/-- Threads with values of their own succeed in all that they ask. -/
theorem Along.answers_mixing (hg : ∀ v, w.dict s v = none → Granted w l v) :
    l.countP Answer.isAddition = elems.flatten.length ∧
      l.countP Answer.isRemoval = (numbered elems).countP fun x => x.2 % 3 = 1 := by
  have hall := fun a ha => h.granted_mixing hsep hg (a := a) ha
  constructor
  · have hcount := h.countP_answers hd (p := Chore.isAdd) fun c hc => by
      cases c <;> first | rfl | cases hc
    rw [countP_mixingThreads (q := fun _ => true) fun x => ?_] at hcount
    · rw [← map_numbered, List.length_map, ← List.countP_true, ← hcount]
      exact List.countP_congr fun a ha => by simp [Answer.isAddition, hall a ha]
    · rcases mixing_cases s w x with ⟨-, hm⟩ | ⟨-, hm⟩ | ⟨-, hm⟩ <;> rw [hm] <;> rfl
  · have hcount := h.countP_answers hd (p := Chore.isRemove) fun c hc => by
      cases c <;> first | rfl | cases hc
    rw [countP_mixingThreads (q := fun x => x.2 % 3 = 1) fun x => ?_] at hcount
    · rw [← hcount]
      exact List.countP_congr fun a ha => by simp [Answer.isRemoval, hall a ha]
    · rcases mixing_cases s w x with ⟨hx, hm⟩ | ⟨hx, hm⟩ | ⟨hx, hm⟩ <;> rw [hm, hx] <;> rfl

variable (hb : Begins s w (mixedKept elems) (mixingThreads s w elems))

include hb

/-- What was there at the start is not removed, and its element is not let go of. -/
theorem Along.dict_mixing_old {e : ElementId} {t : Ticket} (hm : w.dict s v = some (e, t)) :
    w'.dict s v = some (e, t) := by
  have hold : ∀ x ∈ numbered elems, w.value x.1 ≠ v := by
    rintro x hx rfl
    have hnone := hsep.absent x.1 (mem_flatten_of_numbered hx)
    rw [hm] at hnone
    cases hnone
  refine h.stays hb hd hm (fun q hq => ?_) fun he => ?_
  · obtain ⟨x, hx, hc⟩ := mem_mixingThreads.mp hq
    rw [(remove_mem_mixing.mp hc).1]
    exact hold x hx
  · obtain ⟨x, hx, hc⟩ := mem_mixingThreads.mp he
    rw [← (release_mem_mixing.mp hc).1] at hm
    exact hold x hx (hb.steady.quiet.dict_eq_some.mp hm).value

/-- What is kept is there in the end. -/
theorem Along.dict_mixing_new (hg : ∀ v, w.dict s v = none → Granted w l v)
    (hx : x ∈ numbered elems) (hk : x.2 % 3 = 2) : (w'.dict s (w.value x.1)).isSome := by
  obtain ⟨⟨i, c, t?⟩, hi, rfl⟩ := h.exists_answer hd
    (mem_mixingThreads.mpr ⟨x, hx, add_mem_mixing.mpr rfl⟩) rfl
  obtain ⟨t, rfl⟩ := Option.isSome_iff_exists.mp (h.granted_mixing hsep hg hi)
  have hcame : Came w l s (w.value x.1) x.1 t := .inr ⟨rfl, i, hi⟩
  have halive : w'.isAlive x.1 := (h.steady hd).sane.counted.isAlive_of_hold
    (Multiset.mem_coe.mpr (List.mem_map_of_mem (mem_mixedKept hx hk)))
  refine Option.isSome_of_eq_some ((h.history.entries _ _ t).mpr ⟨hcame, ?_, halive⟩)
  refine h.not_removed (fun q hq hv => ?_) hcame hb.steady.quiet hb.steady.sane
  obtain ⟨y, hy, hc⟩ := mem_mixingThreads.mp hq
  obtain ⟨rfl, hy₁⟩ := remove_mem_mixing.mp hc
  obtain rfl := hsep.eq_of_value hy hx hv
  omega

/-- What is let go of is not there in the end. -/
theorem Along.mem_mixedKept_of_isAlive {e : ElementId}
    (hadd : .add s e ∈ (mixingThreads s w elems).flatten) (ha : w'.isAlive e) :
    e ∈ mixedKept elems := by
  obtain ⟨x, hx, hc⟩ := mem_mixingThreads.mp hadd
  obtain rfl := add_mem_mixing.mp hc
  by_cases hk : x.2 % 3 = 2
  · exact mem_mixedKept hx hk
  · have hgone : .release x.1 ∈ (mixingThreads s w elems).flatten :=
      mem_mixingThreads.mpr ⟨x, hx, release_mem_mixing.mpr ⟨rfl, hk⟩⟩
    have ho := h.owned hb hd x.1
    have hpos := List.count_pos_iff.mpr hgone
    have halive := isAlive_iff.mp ha
    rw [hsep.single x.1 (mem_flatten_of_numbered hx)] at ho
    omega

/-- What there is in the end is what there was and what is kept. -/
theorem Along.dict_mixing (hg : ∀ v, w.dict s v = none → Granted w l v) (v : Value) :
    (w'.dict s v).isSome ↔ (w.dict s v).isSome ∨ v ∈ (mixedKept elems).map w.value := by
  constructor
  · intro hs
    obtain ⟨⟨e, t⟩, hm⟩ := Option.isSome_iff_exists.mp hs
    obtain ⟨hm | ⟨rfl, i, hi⟩, -, ha⟩ := (h.history.entries v e t).mp hm
    · exact .inl (Option.isSome_of_eq_some hm)
    · exact .inr (List.mem_map_of_mem
        (h.mem_mixedKept_of_isAlive hsep hd hb (h.mem_flatten hi) ha))
  · rintro (hs | hv)
    · obtain ⟨⟨e, t⟩, hm⟩ := Option.isSome_iff_exists.mp hs
      exact Option.isSome_of_eq_some (h.dict_mixing_old hsep hd hb hm)
    · obtain ⟨e, he, rfl⟩ := List.mem_map.mp hv
      obtain ⟨x, hx, rfl⟩ := List.mem_map.mp he
      obtain ⟨hx, hk⟩ := List.mem_filter.mp hx
      exact h.dict_mixing_new hsep hd hb hg hx (by simpa using hk)

/-- Threads that add their elements, remove some and let go of some succeed in all, and what they
keep is left. -/
theorem Along.mixing (hg : ∀ v, w.dict s v = none → Granted w l v) (hL : L.Uses s)
    (hr : run.Sound) :
    ∃ vs, (w.dict s).Lists vs ∧
      Totals run s crew w' elems.flatten.length ((numbered elems).countP fun x => x.2 % 3 = 1)
        (vs.length + (mixedKept elems).length) := by
  have hsub : ((mixedKept elems).map w.value).Sublist (elems.flatten.map w.value) := by
    rw [← map_numbered]
    exact (List.filter_sublist.map _).map _
  have htotals := h.totals hb hL hd hr _ (hsep.distinct.sublist hsub) (fun v hv => ?_)
    (h.dict_mixing hsep hd hb hg)
  · obtain ⟨hadd, hremove⟩ := h.answers_mixing hsep hd hg
    rwa [hadd, hremove, List.length_map] at htotals
  · obtain ⟨e, he, rfl⟩ := List.mem_map.mp (hsub.subset hv)
    exact hsep.absent e he

end Mixing

/-! ## Any order -/

/-- To let a crew complete is to let its threads do stages in some order. -/
theorem exists_schedule (run : Runner) (crew : Crew) (w : World) :
    ∃ schedule, (crew.complete run).exec w = (crew.follow run schedule).exec w := by
  rw [complete]
  generalize sumBy Worker.uncertain crew + 1 = n
  induction n generalizing crew w with
  | zero => exact ⟨[], rfl⟩
  | succ n ih =>
    rw [finish]
    split
    · exact ⟨[], rfl⟩
    · rcases h : (crew.follow run crew.rounds).exec w with ⟨p | crew', w'⟩
      · exact ⟨crew.rounds, (exec_bind_error h _).trans h.symm⟩
      · obtain ⟨schedule, hs⟩ := ih crew' w'
        refine ⟨crew.rounds ++ schedule, ?_⟩
        rw [exec_bind_ok h, hs, follow, follow, List.foldlM_append]
        exact (exec_bind_ok h fun crew => crew.follow run schedule).symm

/-- No thread was ended by a panic. -/
theorem Along.failure {L : Scene} {F D : Duties} (h : Along L F D s (start threads) w l crew w') :
    ∀ x ∈ crew, x.failure = none := by
  intro x hx
  obtain ⟨i, hi⟩ := List.mem_iff_getElem?.mp hx
  have hlt : i < (start threads).length := h.length ▸ (List.getElem?_eq_some_iff.mp hi).1
  have h₀ := List.getElem?_eq_getElem hlt
  obtain ⟨cs, -, hcs⟩ := mem_start (List.getElem_mem hlt)
  rw [(h.answered i _ x h₀ hi).failure, ← hcs]
  rfl

section

variable (hr : run.Sound) (hb : Begins s w kept threads)

include hr

/-- Threads that have done some stages can be let complete. -/
theorem Along.exists_done {L : Scene} (honly : ∀ s', L.Uses s' → s' = s)
    (h : Along L (holds kept) (holds kept) s (start threads) w l crew w') :
    ∃ schedule crew' w'', (crew.follow run schedule).exec w' = (.ok crew', w'') ∧ crew'.isDone := by
  obtain ⟨schedule, hs⟩ := exists_schedule run crew w'
  obtain ⟨crew', w'', hx, -, -⟩ := h.follow hr honly (fun d hd => hd) (I := fun _ => True)
    (fun _ _ _ _ _ _ _ _ _ _ _ => trivial) trivial schedule
  exact ⟨schedule, crew', w'', hx, done_of_complete crew w' crew' w'' (hs.trans hx)⟩

include hb

/-- Threads that set out on a schedule come along, and what concerns one of them alone is granted. -/
theorem Begins.exists_along (schedule : List Nat) :
    ∃ L crew w', L.Uses s ∧ (∀ s', L.Uses s' → s' = s) ∧
      ((start threads).follow run schedule).exec w = (.ok crew, w') ∧
      Along L (holds kept) (holds kept) s (start threads) w
        (answers run schedule (start threads) w) crew w' ∧
      ∀ v, Alone s w (start threads) v → Granted w (answers run schedule (start threads) w) v := by
  obtain ⟨L, hu, honly, hstart⟩ := hb.along
  obtain ⟨crew, w', hx, h, hg⟩ := hstart.follow hr honly (fun d hd => hd)
    (I := fun l => ∀ v, Alone s w (start threads) v → Granted w l v)
    (fun l crew w₁ i crew' w₂ a? h hs h' hg v hv => h.granted hs h' hv (hg v hv))
    (fun v hv a ha => by cases ha) schedule
  exact ⟨L, crew, w', hu, honly, hx, h, hg⟩

/-- Threads add elements to a set, remove from it and let go of elements, each operation in its
stages and the stages in any order. No thread panics, every handle goes at most once and is reported
at most once, and the threads can come to an end. When they have, what they come to is as `Ends` says,
and in two cases all of it is known from the start: for threads that all add an element of one value,
and for threads that add, remove and let go of elements of values of their own. -/
theorem schedule_independent (schedule : List Nat) :
    ∃ crew w', ((start threads).follow run schedule).exec w = (.ok crew, w') ∧
      (∀ x ∈ crew, x.failure = none) ∧
      (∀ t, w'.books.removed.count t + w'.books.swept.count t ≤ 1 ∧
        w'.books.reported.count t ≤ w'.books.swept.count t) ∧
      (∃ more crew' w'', (crew.follow run more).exec w' = (.ok crew', w'') ∧ crew'.isDone) ∧
      (crew.isDone → Ends s w kept threads (answers run schedule (start threads) w) crew w' ∧
        (∀ es v, threads = addingThreads s es → kept = es → es ≠ [] → (∀ e ∈ es, w.value e = v) →
          ∃ vs, (w.dict s).Lists vs ∧
            Totals run s crew w' (if (w.dict s v).isSome then 0 else 1) 0
              (vs.length + if (w.dict s v).isSome then 0 else 1)) ∧
        ∀ elems, threads = mixingThreads s w elems → kept = mixedKept elems → Separate s w elems →
          ∃ vs, (w.dict s).Lists vs ∧
            Totals run s crew w' elems.flatten.length
              ((numbered elems).countP fun x => x.2 % 3 = 1)
              (vs.length + (mixedKept elems).length)) := by
  obtain ⟨L, crew, w', hL, honly, hx, h, hg⟩ := hb.exists_along hr schedule
  refine ⟨crew, w', hx, h.failure, fun t => ?_, h.exists_done hr honly, fun hd =>
    ⟨h.ends hb hL hd, ?_, ?_⟩⟩
  · have := h.booked.once t
    have := h.booked.there t
    have := h.booked.swept t
    omega
  · rintro es v rfl rfl hes hv
    exact h.adding hb hd hL hr hes hv
  · rintro elems rfl rfl hsep
    exact h.mixing hsep hd hb (fun v hv => hg v (hsep.alone v hv)) hL hr

end

/-- An empty set, and elements of some values, one after the other. -/
def peopled (vs : List Value) : World :=
  vs.foldl (fun w v => (w.create ⟨⟨v, "par"⟩, none, none⟩).2)
    (World.empty.newSet ⟨"", .standard, .keyed, true, .silent⟩ none).2

theorem peopled_concat (vs : List Value) (v : Value) :
    peopled (vs ++ [v]) = ((peopled vs).create ⟨⟨v, "par"⟩, none, none⟩).2 :=
  List.foldl_append ..

theorem size_cells_peopled (vs : List Value) : (peopled vs).cells.size = vs.length := by
  induction vs using List.reverseRecOn with
  | nil => rfl
  | append_singleton vs v ih =>
    rw [peopled_concat, List.length_append]
    exact (Array.size_push ..).trans (congrArg _ ih)

theorem handle?_peopled (vs : List Value) (t : Ticket) : (peopled vs).handle? t = none := by
  induction vs using List.reverseRecOn with
  | nil => exact (handle?_newSet ..).trans (handle?_empty t)
  | append_singleton vs v ih =>
    rw [peopled_concat]
    exact ih

theorem steady_peopled (vs : List Value) :
    (peopled vs).Steady (holds (List.range vs.length)) := by
  induction vs using List.reverseRecOn with
  | nil => exact steady_empty.newSet_none (fun _ => rfl) rfl
  | append_singleton vs v ih =>
    have h := ih.create (x := ⟨⟨v, "par"⟩, none, none⟩) ⟨rfl, rfl⟩
    rw [size_cells_peopled] at h
    rw [peopled_concat, List.length_append, List.length_singleton, List.range_succ, holds_append,
      Multiset.add_comm]
    exact h

theorem dict_peopled (vs : List Value) (v : Value) : (peopled vs).dict 0 v = none := by
  refine Option.eq_none_iff_forall_not_mem.mpr fun ⟨e, t⟩ hm => ?_
  obtain ⟨h, hh, -⟩ := ((steady_peopled vs).quiet.dict_eq_some.mp hm).handle
  rw [handle?_peopled] at hh
  cases hh

/-- An empty set, and elements of the values 0, 1, … -/
def crowded (n : Nat) : World :=
  peopled ((List.range n).map fun i => .number (UInt64.ofNat i))

theorem steady_crowded (n : Nat) : (crowded n).Steady (holds (List.range n)) := by
  have h := steady_peopled ((List.range n).map fun i => .number (UInt64.ofNat i))
  rwa [List.length_map, List.length_range] at h

theorem schedule_independent_mixing :
    let w := crowded 4
    let elems := [[0, 1, 2], [3]]
    let schedule := [0, 1, 1, 0, 1, 0, 1, 0, 0, 1] ++ List.replicate 20 0
    ∃ crew w', ((start (mixingThreads 0 w elems)).follow (Session.runner 0) schedule).exec w =
      (.ok crew, w') ∧ Totals (Session.runner 0) 0 crew w' 4 1 1 := by
  intro w elems schedule
  have hdue : due (start (mixingThreads 0 w elems)) + holds (mixedKept elems) =
      holds (List.range 4) := by decide +kernel
  have hb : Begins 0 w (mixedKept elems) (mixingThreads 0 w elems) :=
    .mixing (hdue ▸ steady_crowded 4)
      ⟨none, by decide +kernel, by decide +kernel, fun x hx => by cases hx⟩
  obtain ⟨crew, w', hx, -, -, -, hend⟩ :=
    schedule_independent (Session.sound_runner 0) hb schedule
  have hdone : (((start (mixingThreads 0 w elems)).follow (Session.runner 0) schedule).exec
      w).1.toOption.any isDone = true := by decide +kernel
  rw [hx] at hdone
  obtain ⟨vs, hvs, htotals⟩ := (hend hdone).2.2 elems rfl rfl
    ⟨by decide +kernel, fun e _ => dict_peopled _ _, by decide +kernel⟩
  obtain rfl : vs = [] := List.eq_nil_iff_forall_not_mem.mpr fun v hv => by
    have hs := (hvs.2 v).mp hv
    rw [show w.dict 0 v = none from dict_peopled _ v] at hs
    cases hs
  exact ⟨crew, w', hx, htotals⟩

/-- That nobody removes the value is needed for one insertion only to succeed: a thread may remove the
first of two equal elements before another thread adds the second, and both stay alive. -/
theorem both_equals_added :
    let v := Value.number 7
    let w := peopled [v, v]
    let threads : List (List Chore) := [[.add 0 0], [.remove 0 (.value v), .add 0 1]]
    let schedule := List.replicate 4 0 ++ List.replicate 9 1
    Begins 0 w [0, 1] threads ∧ w.dict 0 v = none ∧
      ∃ crew w', ((start threads).follow (Session.runner 0) schedule).exec w = (.ok crew, w') ∧
        crew.isDone ∧
        (∀ e, .add 0 e ∈ threads.flatten → w.value e = v ∧ w'.isAlive e) ∧
        (answers (Session.runner 0) schedule (start threads) w).countP (Answer.adds w v) = 2 := by
  intro v w threads schedule
  have hadds : ∀ e, .add 0 e ∈ threads.flatten → e = 0 ∨ e = 1 := by simp [threads]
  have hdue : due (start threads) + holds [0, 1] = holds (List.range 2) := by decide +kernel
  have hb : Begins 0 w [0, 1] threads :=
    { steady := hdue ▸ steady_peopled [v, v]
      served := ⟨none, by decide +kernel, by decide +kernel, fun x hx => by cases hx⟩
      own := by simp [threads, Chore.IsOf]
      fed := fun cs hcs e cs' hs => .inl <| by
        simpa using hadds e (List.mem_flatten.mpr ⟨cs, hcs, hs.subset List.mem_cons_self⟩) }
  have hdone : (((start threads).follow (Session.runner 0) schedule).exec w).1.toOption.any
      isDone = true := by decide +kernel
  have hlast : ∀ e, e = 0 ∨ e = 1 → w.value e = v ∧
      (((start threads).follow (Session.runner 0) schedule).exec w).2.isAlive e := by
    rintro e (rfl | rfl) <;> exact ⟨by decide +kernel, by decide +kernel⟩
  rcases hx : ((start threads).follow (Session.runner 0) schedule).exec w with ⟨p | crew, w'⟩ <;>
    rw [hx] at hdone hlast
  · cases hdone
  · exact ⟨hb, dict_peopled _ v, crew, w', rfl, hdone, fun e he => hlast e (hadds e he),
      by decide +kernel⟩

end Crew

end WeakSet
