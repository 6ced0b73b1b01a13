import WeakSet.Proofs.Clients
import WeakSet.Proofs.Filtering

/-!
# The log accounts for handles

Whatever code does, it tells of every handle that came into a set, that a sweep took out or that was removed,
each in one line, and of no other (`Session.tells_perform`). A handle that a filter took out is told of in no
line, and a clear has one line for all that it takes out. With those the handles of all sets are what the log
tells (`World.Kept.count_inserted`).
-/

namespace WeakSet

open Act Session

variable {run : Runner} {w w' : World} {j : List Entry} {D : Multiset Passage} {n : Standing} {t : Ticket}

/-! ## Lines -/

theorem Entry.told?_of_isRemark {x : Entry} (h : x.isRemark) : x.told? = none := by
  cases x with
  | line l => exact Option.isNone_iff_eq_none.mp h
  | _ => rfl

theorem Entry.passage?_of_isRemark {x : Entry} (h : x.isRemark) : x.passage? = none := by
  cases x <;> first | rfl | cases h

namespace World.Tells

theorem release (h : w.Tells j D) (e : ElementId) : (w.release e).2.Tells j D := by
  obtain ⟨l, hl, hall⟩ := w.journal_release e
  refine h.of_silent hl fun x hx => ?_
  have := hall x hx
  cases x <;> first | exact ⟨rfl, rfl⟩ | cases this

theorem takeOut (h : w.Tells j D) (t : Ticket) (d : Departure) :
    (w.takeOut t d).2.Tells j (d.owed t (w.takeOut t d).1 + D) := by
  rcases takeOut_cases w t d with ⟨-, e⟩ | ⟨x, -, e⟩ <;> rw [e]
  · rwa [Departure.owed, Multiset.zero_add]
  · exact Tells.owe (w := w.setShard _ _ _) (x := .departed t d) (h.congr rfl) rfl

theorem takeAll (h : w.Tells j D) (s : SetId) (k : Nat) : (w.takeAll s k).2.Tells j D := by
  rw [takeAll_snd]
  refine h.of_silent (Array.toList_append ..) fun x hx => ?_
  obtain ⟨y, -, rfl⟩ := List.mem_map.mp hx
  exact ⟨rfl, rfl⟩

theorem store (h : w.Tells j D) (s : SetId) (k : Nat) (x : Handle) :
    (w.store s k x).2.Tells j ({.inserted (w.store s k x).1} + D) :=
  Tells.congr (Tells.owe (w := w.setShard s k ((w.shard s k).insert x).2)
    (x := .stored (w.nextTicket s k x) x.element) (h.congr rfl) rfl) rfl

end World.Tells

/-- The condition that the journal begins with `j` and that all is told of what became of handles since, but
for what code under way owes. -/
def Condition.logging (j : List Entry) : Condition where
  Holds n _ w := w.Tells j n.owed
  panics := True
  bars _ _ := True

theorem upheld_logging (hr : run.Obeys (.logging j)) (s : SetId) :
    (Condition.logging j).Upheld run s (fun _ => True) n where
  toLends := hr.lends (fun _ h => h.congr rfl) fun h => h.release _
  note hx h := h.note (Entry.passage?_of_isRemark hx) (Entry.told?_of_isRemark hx)
  tell {n F w l p} hl h := World.Tells.tell (p := p) (by rw [← Multiset.singleton_add]; exact h) hl
  barred _ h := ⟨h.note rfl rfl, trivial⟩
  lock _ h := h.congr rfl
  unlock h := h.congr rfl
  equality := .left (.allow trivial (hr _ _ _ _))
  listener := .left (.allow trivial (hr _ _ _ _))
  takeNotices h := by
    rw [World.takeNotices_eq]
    exact ⟨h.congr rfl, fun _ _ => trivial⟩
  takeOut _ _ h := h.takeOut _ _
  takeAll h := h.takeAll _ _
  unwatch _ h := by
    rw [World.unwatch_eq]
    exact h.congr rfl
  call {n F w r} _ _ h := World.Tells.congr (World.Tells.note (w := (w.countCall r.ticket.owner).2)
    (x := .reported _ _ _ _) (h.congr rfl) rfl rfl) rfl
  putDown h := h.congr rfl
  store h := h.store _ _ _

theorem total_logging (hr : run.Obeys (.logging j)) : (Condition.logging j).Total run True n where
  toLends := (upheld_logging hr (n := n) 0).toLends
  panics := trivial
  indebted s _ := upheld_logging hr s
  remark hx h := h.note (Entry.passage?_of_isRemark hx) (Entry.told?_of_isRemark hx)
  create _ h := h.congr rfl
  newSet _ _ h := by
    rw [World.newSet_eq]
    exact h.congr rfl
  unmake h := by
    rw [World.unmake_eq]
    exact h.congr rfl
  predicate _ := hr _ _ _ _
  borrow _ h := h.congr rfl
  own _ h := h.congr rfl
  disown _ h := h.congr rfl
  channels _ h := h.congr rfl
  rename _ _ _ _ _ h := h.congr rfl
  posted _ _ h := h.note rfl rfl
  drained _ h := h.note rfl rfl
  takeRecord _ h := h.congr rfl

/-- A command tells all that becomes of handles in its course, and nothing else. -/
theorem Session.tells_perform (depth : Nat) (inScript : Bool) (c : Command) (w : World) :
    ((perform (runner depth) inScript c).exec w).2.Tells w.journal.toList 0 := by
  have hA := total_logging (n := {})
    (Runner.obeys (A := .logging w.journal.toList) (fun h => h.note rfl rfl) total_logging depth)
  exact (hA.perform (c := c) (F := 0) (.inr trivial) inScript).exec (.refl w)

/-! ## What is there and what went -/

/-- A handle that left its set for a reason. -/
def Entry.gone? (d : Departure) : Entry → Option Ticket
  | .departed t d' => if d' = d then some t else none
  | _ => none

/-- The handles that left their sets for a reason. -/
def gone (d : Departure) (l : List Entry) : Multiset Ticket :=
  (l.filterMap (Entry.gone? d) : List Ticket)

/-- What an entry adds to the books is what there is to be told of it, but for filters and clears. -/
theorem Books.count_enter (b : Books) (x : Entry) (t : Ticket) :
    (b.enter x).stored.count t = b.stored.count t + x.passage?.toList.count (.inserted t) ∧
    (b.enter x).swept.count t = b.swept.count t + x.passage?.toList.count (.reclaimed t) ∧
    (b.enter x).removed.count t = b.removed.count t + x.passage?.toList.count (.removed t) +
      ((x.gone? .filtered).toList.count t + (x.gone? .cleared).toList.count t) := by
  rcases x with ⟨t', e⟩ | ⟨t', _ | _⟩ <;>
    simp [Books.enter, Entry.passage?, Entry.gone?, Departure.passage?, List.count_singleton]

theorem count_books (l : List Entry) (b : Books) (t : Ticket) :
    (l.foldl Books.enter b).stored.count t = b.stored.count t + (passages l).count (.inserted t) ∧
    (l.foldl Books.enter b).swept.count t = b.swept.count t + (passages l).count (.reclaimed t) ∧
    (l.foldl Books.enter b).removed.count t = b.removed.count t + (passages l).count (.removed t) +
      ((gone .filtered l).count t + (gone .cleared l).count t) := by
  induction l generalizing b with
  | nil => exact ⟨rfl, rfl, rfl⟩
  | cons x l ih =>
    obtain ⟨hs, hw, hr⟩ := ih (b.enter x)
    obtain ⟨hs', hw', hr'⟩ := b.count_enter x t
    have hp : passages (x :: l) = (x.passage?.toList : List Passage) + passages l := by
      rcases h : x.passage? with _ | p <;> simp [passages, h]
    have hg (d : Departure) : gone d (x :: l) = ((x.gone? d).toList : List Ticket) + gone d l := by
      rcases h : x.gone? d with _ | t <;> simp [gone, h]
    rw [List.foldl_cons, hs, hw, hr, hs', hw', hr', hp, hg, hg]
    simp only [Multiset.count_add, Multiset.coe_count]
    omega

/-- A handle was inserted at most once, and then it is there, or it was removed or reclaimed, or filtered out or
cleared: one of these, and once. -/
theorem World.Kept.count_inserted {D : Duties} (hk : w.Kept D) (t : Ticket) :
    (passages w.journal.toList).count (.inserted t) ≤ 1 ∧
    (passages w.journal.toList).count (.inserted t) =
      (if (w.handle? t).isSome then 1 else 0) + (passages w.journal.toList).count (.removed t) +
        (passages w.journal.toList).count (.reclaimed t) +
        ((gone .filtered w.journal.toList).count t + (gone .cleared w.journal.toList).count t) := by
  have honce := hk.once t
  have hthere := hk.there t
  obtain ⟨hs, hw, hr⟩ := count_books w.journal.toList {} t
  simp only [World.books] at honce hthere
  rw [hs] at honce hthere
  rw [hw, hr] at hthere
  simp only [List.count_nil, Nat.zero_add] at honce hthere
  exact ⟨honce, by omega⟩

/-- What there was to be told if filters told what they take out, as removals do. -/
def allPassages (l : List Entry) : Multiset Passage :=
  passages l + (gone .filtered l).map .removed

/-- Whether a replay has the handle of a ticket: it was told to come in and not to go, and no clear took it
out. The line of a clear names no set, so the lines alone do not say what it took out. That is what a
replay must know besides them, and it is read off the departures in the journal. -/
def Replays (l : List Entry) (t : Ticket) : Prop :=
  .inserted t ∈ told l ∧ .removed t ∉ told l ∧ .reclaimed t ∉ told l ∧ t ∉ gone .cleared l

theorem told_eq_allPassages_iff {l : List Entry} (h : told l = passages l) :
    told l = allPassages l ↔ gone .filtered l = 0 := by
  conv_lhs => lhs; rw [h, ← Multiset.add_zero (passages l)]
  rw [allPassages, Multiset.add_right_inj, eq_comm, Multiset.map_eq_zero]

/-- A replay has the handles that are there, and those that a filter took out. -/
theorem World.Kept.replays_iff {D : Duties} (hk : w.Kept D)
    (h : told w.journal.toList = passages w.journal.toList) :
    Replays w.journal.toList t ↔ (w.handle? t).isSome ∨ t ∈ gone .filtered w.journal.toList := by
  obtain ⟨honce, hsum⟩ := hk.count_inserted t
  simp only [Replays, h, ← Multiset.count_pos]
  by_cases hh : (w.handle? t).isSome
  · simp only [hh, if_true, true_or, iff_true] at hsum ⊢
    omega
  · simp only [hh, Bool.false_eq_true, if_false, false_or] at hsum ⊢
    omega

namespace Session

theorem tells_carryOutAll (depth : Nat) (cs : List Command) (h : w.Tells j 0) :
    (carryOutAll depth w cs).Tells j 0 := by
  induction cs generalizing w with
  | nil => exact h
  | cons c cs ih =>
    obtain ⟨l, hl, hD⟩ := tells_perform depth false c w
    refine ih (h.append hl ?_)
    rw [hD, Multiset.zero_add]

/-- In a run the lines tell of all that became of handles. -/
theorem told_carryOutAll (depth : Nat) (cs : List Command) :
    told (carryOutAll depth .empty cs).journal.toList =
      passages (carryOutAll depth .empty cs).journal.toList := by
  obtain ⟨l, hl, hD⟩ := tells_carryOutAll depth cs (.refl .empty)
  rw [hl]
  exact (Multiset.add_zero _).symm.trans hD

/-- The log accounts for handles, but for those that filters take out. Whatever an operation comes to and
whatever scripts run in it, the lines in its course tell of just the handles that were inserted, removed by value
or through a cursor, or reclaimed meanwhile, each in one line. So they tell of all that came and went if and only
if no filter took out any. A clear that is let in tells of all that it takes out in one line.

After every run each handle that was inserted is there, or was removed or reclaimed, or filtered out or cleared:
one of these, and once. So a replay of the lines reproduces the handles of all sets if and only if no filter took
out any. -/
theorem log_accounts_for_handles (depth : Nat) (inScript : Bool) (c : Command) (w : World)
    (cs : List Command) :
    (∃ l, ((perform (runner depth) inScript c).exec w).2.journal.toList = w.journal.toList ++ l ∧
      told l = passages l ∧ (told l = allPassages l ↔ gone .filtered l = 0)) ∧
    (∀ s, s ∉ w.entered → ∃ w', (clear s).exec w = (.ok (), w') ∧
      w'.journal.toList = w.journal.toList ++ (w.ticketsOf s).map (fun x => .departed x.1 .cleared) ++
        [.line .cleared] ∧
      ∀ t, w'.handle? t = if t.owner = s then none else w.handle? t) ∧
    let v := carryOutAll depth .empty cs
    let j := v.journal.toList
    (∀ t, (told j).count (.inserted t) ≤ 1 ∧ (told j).count (.inserted t) =
      (if (v.handle? t).isSome then 1 else 0) + (told j).count (.removed t) +
        (told j).count (.reclaimed t) + ((gone .filtered j).count t + (gone .cleared j).count t)) ∧
    ((∀ t, Replays j t ↔ (v.handle? t).isSome) ↔ gone .filtered j = 0) := by
  have htold := told_carryOutAll depth cs
  have hkept := (point_carryOutAll depth cs).kept
  refine ⟨?_, fun s hs => ⟨_, exec_clear hs, ?_, fun t => ?_⟩, fun t => ?_, ?_⟩
  · obtain ⟨l, hl, hD⟩ := tells_perform depth inScript c w
    have hD : told l = passages l := (Multiset.add_zero _).symm.trans hD
    exact ⟨l, hl, hD, told_eq_allPassages_iff hD⟩
  · rw [World.note, Array.toList_push,
      World.journal_foldl_emptied List.nodup_range World.hasShard_of_mem_range]
    rfl
  · refine ((World.framed_foldl_emptied World.hasShard_of_mem_range).2 t).trans ?_
    by_cases ho : t.owner = s
    · rcases hh : w.handle? t with _ | x
      · simp
      · have := (World.hasShard_of_handle? hh).2
        simp_all
    · simp [ho]
  · rw [htold]
    exact hkept.count_inserted t
  · refine ⟨fun h => Multiset.eq_zero_of_forall_notMem fun t ht => ?_, fun h t => ?_⟩
    · -- what was filtered out is not there
      have hthere := (h t).mp ((hkept.replays_iff htold).mpr (.inr ht))
      obtain ⟨honce, hsum⟩ := hkept.count_inserted t
      have := Multiset.count_pos.mpr ht
      rw [if_pos hthere] at hsum
      omega
    · rw [hkept.replays_iff htold, h]
      simp

/-- One handle that stays, one that is filtered out, one that is removed and one that a sweep takes out. -/
def accountedRun : List Command :=
  [.build "s" (.ok ⟨{ capacity := 4, concurrency := 1 }, none, .constant 7, .silent⟩),
    .new "x" (.number 2) none none, .new "y" (.number 1) none none, .new "z" (.number 4) none none,
    .new "u" (.number 6) none none, .addAll "s" ["x", "y", "z", "u"], .remove "s" (.owner "z"),
    .drop ["u"], .retain "s" 2 0 []]

/-- The one that is filtered out is told of only when it comes in, and a replay still has it. The clear that
follows says nothing of the one that stayed but that the set was cleared. -/
theorem log_accounts_for_handles_filtering :
    let w := carryOutAll 0 .empty accountedRun
    told w.journal.toList = {.inserted ⟨0, 0, 0, 1⟩, .inserted ⟨0, 0, 1, 1⟩, .inserted ⟨0, 0, 2, 1⟩,
      .inserted ⟨0, 0, 3, 1⟩, .removed ⟨0, 0, 2, 1⟩, .reclaimed ⟨0, 0, 3, 1⟩} ∧
    w.handle? ⟨0, 0, 1, 1⟩ = none ∧ ¬(∀ t, Replays w.journal.toList t ↔ (w.handle? t).isSome) ∧
    ∃ w', (clear 0).exec w = (.ok (), w') ∧ w'.journal.toList =
      w.journal.toList ++ [.departed ⟨0, 0, 0, 1⟩ .cleared, .line .cleared] := by
  intro w
  obtain ⟨-, hclear, -, hreplay⟩ := log_accounts_for_handles 0 false (.clear "s") w accountedRun
  obtain ⟨w', hx, hj, -⟩ := hclear 0 (by decide +kernel)
  have htickets : (w.ticketsOf 0).map Prod.fst = [⟨0, 0, 0, 1⟩] := by decide +kernel
  refine ⟨by decide +kernel, by decide +kernel, ?_, w', hx, ?_⟩
  · rw [hreplay]
    decide +kernel
  · rw [hj, List.append_assoc]
    have : (w.ticketsOf 0).map (fun x => Entry.departed x.1 .cleared) =
        ((w.ticketsOf 0).map Prod.fst).map (Entry.departed · .cleared) := by rw [List.map_map]; rfl
    rw [this, htickets]
    rfl

end Session

end WeakSet
