import WeakSet.Proofs.Batches
import WeakSet.Proofs.Clients
import WeakSet.Proofs.Distinct
import WeakSet.Proofs.Refinement

/-!
# Tickets are given out once

A client has tickets from the replies to its insertions, those of scripts included. `World.Credits` says
that every such reply stands for a handle of its own that was stored. An insertion stores before it
replies, and in between any code may run that inserts too. So the condition counts the tickets that are
still to be given out (`total_crediting`), and the replies of every run have distinct tickets
(`Session.credits_transcript`).

A ticket whose handle is gone is `World.Void` from then on, wherever a client, a channel or a cursor
still has it: no later handle has it, and nothing that is done with it touches one
(`Course.void`).
-/

namespace WeakSet

open Act Session

variable {w w' : World} {ts : List Ticket} {t : Ticket}

/-! ## Tickets that were given out -/

/-- The ticket that the reply to an insertion gives out. -/
def Reply.grant? (name : String) : Reply → Option Ticket
  | .ticket t => if name = "insert" then some t else none
  | _ => none

/-- The ticket that an insertion of a script gave out. -/
def Entry.grant? : Entry → Option Ticket
  | .answered name r => r.grant? name
  | _ => none

namespace World

/-- The tickets that insertions of scripts gave out. -/
def granted (w : World) : List Ticket :=
  w.journal.toList.filterMap Entry.grant?

/-- Some tickets besides those that insertions of scripts gave out are all of handles that were stored,
and no two of the same. -/
def Credits (w : World) (ts : List Ticket) : Prop :=
  (ts ++ w.granted).Subperm w.books.stored

theorem sublist_stored (b : Books) (l : List Entry) :
    b.stored.Sublist (l.foldl Books.enter b).stored := by
  induction l generalizing b with
  | nil => exact List.Sublist.refl _
  | cons x l ih =>
    refine List.Sublist.trans ?_ (ih (b.enter x))
    cases x with
    | stored t e => exact List.sublist_append_left _ _
    | departed t d => cases d <;> exact List.Sublist.refl _
    | _ => exact List.Sublist.refl _

namespace Credits

/-- The journal goes on, and no insertion gives out a ticket. -/
theorem append {l : List Entry} (h : w.Credits ts)
    (hj : w'.journal.toList = w.journal.toList ++ l) (hl : ∀ x ∈ l, x.grant? = none) :
    w'.Credits ts := by
  have hg : w'.granted = w.granted := by
    rw [granted, hj, List.filterMap_append, List.filterMap_eq_nil_iff.mpr hl, List.append_nil, granted]
  rw [Credits, hg, books_append hj]
  exact h.trans (sublist_stored _ _).subperm

theorem note {x : Entry} (h : w.Credits ts) (hx : x.grant? = none) : (w.note x).Credits ts :=
  h.append (l := [x]) (Array.toList_push ..) (by simpa using hx)

/-- An insertion of a script gives out the ticket that it has to. -/
theorem answered {name : String} {r : Reply} (h : w.Credits ((r.grant? name).toList ++ ts)) :
    (w.note (.answered name r)).Credits ts := by
  have hg : (w.note (.answered name r)).granted = w.granted ++ (r.grant? name).toList := by
    rw [granted, World.note, Array.toList_push, List.filterMap_append]
    rcases hr : r.grant? name with _ | t <;> simp [Entry.grant?, hr, granted]
  rw [Credits, hg, books_note]
  refine List.Subperm.trans (List.Perm.subperm ?_) h
  rw [← List.append_assoc, List.append_assoc (r.grant? name).toList]
  exact List.perm_append_comm

/-- A handle is stored, whose ticket is still to be given out. -/
theorem store (s : SetId) (k : Nat) (x : Handle) (h : w.Credits ts) :
    (w.store s k x).2.Credits (w.nextTicket s k x :: ts) := by
  have hj : (w.store s k x).2.journal = w.journal.push (.stored (w.nextTicket s k x) x.element) := rfl
  have hg : (w.store s k x).2.granted = w.granted := by
    simp [granted, hj, Entry.grant?]
  rw [Credits, hg, books_push hj]
  exact (((List.subperm_cons _).mpr h).trans (List.perm_append_singleton _ _).symm.subperm)

theorem stored {s : SetId} {k : Nat} {x : Handle} (h : w.Credits ts) : (w.store s k x).2.Credits ts :=
  h.note (w := w.setShard s k ((w.shard s k).insert x).2) (x := .stored (w.nextTicket s k x) x.element) rfl

theorem takeOut {d : Departure} (h : w.Credits ts) : (w.takeOut t d).2.Credits ts := by
  rcases takeOut_cases w t d with ⟨-, e⟩ | ⟨x, -, e⟩ <;> rw [e]
  · exact h
  · exact h.note (x := .departed t d) rfl

theorem takeAll {s : SetId} {k : Nat} (h : w.Credits ts) : (w.takeAll s k).2.Credits ts := by
  rw [takeAll_snd]
  refine h.append (Array.toList_append ..) fun x hx => ?_
  obtain ⟨y, -, rfl⟩ := List.mem_map.mp hx
  rfl

theorem release {e : ElementId} (h : w.Credits ts) : (w.release e).2.Credits ts := by
  obtain ⟨l, hl, hall⟩ := w.journal_release e
  refine h.append hl fun x hx => ?_
  have := hall x hx
  cases x <;> first | rfl | cases this

end Credits

end World

open World

theorem Entry.grant?_of_isRemark {x : Entry} (h : x.isRemark) : x.grant? = none := by
  cases x <;> first | rfl | cases h

/-- The condition that some tickets are still to be given out. -/
def Condition.crediting (ts : List Ticket) : Condition where
  Holds _ _ w := w.Credits ts
  panics := True
  bars _ _ := True

section Run

variable {run : Runner} {n : Standing} {F : Multiset ElementId} {s : SetId}

theorem upheld_crediting (hr : run.Obeys (.crediting ts)) (s : SetId) :
    (Condition.crediting ts).Upheld run s (fun _ => True) n where
  toLends := hr.lends (fun _ h => h) Credits.release
  note hx h := h.note (Entry.grant?_of_isRemark hx)
  tell _ h := h.note rfl
  barred _ h := ⟨h.note rfl, trivial⟩
  lock _ h := h
  unlock h := h
  equality := .left (.allow trivial (hr _ _ _ _))
  listener := .left (.allow trivial (hr _ _ _ _))
  takeNotices h := by
    rw [takeNotices_eq]
    exact ⟨h, fun _ _ => trivial⟩
  takeOut _ _ h := h.takeOut
  takeAll h := h.takeAll
  unwatch _ h := by
    rw [unwatch_eq]
    exact h
  call {n F w r} _ _ h := h.note (w := (w.countCall r.ticket.owner).2) (x := .reported _ _ _ _) rfl
  putDown h := h
  store h := h.stored

theorem total_crediting (hr : run.Obeys (.crediting ts)) :
    (Condition.crediting ts).Total run True n where
  toLends := (upheld_crediting hr (n := n) 0).toLends
  panics := trivial
  indebted s _ := upheld_crediting hr s
  remark hx h := h.note (Entry.grant?_of_isRemark hx)
  create _ h := h
  newSet _ _ h := by
    rw [newSet_eq]
    exact h
  unmake h := by
    rw [unmake_eq]
    exact h
  predicate _ := hr _ _ _ _
  borrow _ h := h
  own _ h := h
  disown _ h := h
  channels _ h := h
  rename _ _ _ _ _ h := h
  posted _ _ h := h.note rfl
  drained _ h := h.note rfl
  takeRecord _ h := h

/-! ## Insertions -/

variable (hr : ∀ ts, run.Obeys (.crediting ts))

include hr

/-- An insertion has the ticket of a handle that it stored. -/
theorem credits_insert (s : SetId) (e : ElementId) :
    Ensures (·.Credits ts) (insert run s e) (fun t? w => w.Credits (t?.toList ++ ts))
      (·.Credits ts) := by
  have hA (ts : List Ticket) := upheld_crediting (n := {}) (hr ts) s
  let Q : Option Ticket → Multiset ElementId → World → Prop := fun t? _ w => w.Credits (t?.toList ++ ts)
  have hstore : Ensures (·.Credits ts) (insertSection run s e)
      (Condition.Upheld.Ends (.crediting ts) {} 0 Q)
      fun w => w.Credits ts ∧ (Condition.crediting ts).fails {} s := by
    refine (hA ts).probeThenInto (n := {}) (F := 0) (Q := Q) fun F hash k found => ?_
    cases found with
    | some _ => exact .pure fun _ h => h
    | none =>
      exact .map (.last (.update (R := fun t w => w.Credits (t :: ts)) (fun _ h => h.store _ _ _)
        fun _ => .pure fun _ h => h))
  refine .forget ((hA ts).swept (n := {}) (F := 0) (.bind hstore fun x => ?_))
  -- what is let go of now may run scripts that insert too
  refine .bind ((hA ts).closeInto fun t? => (hA (t?.toList ++ ts)).releaseAll (n := {}) (F := 0) x.held)
    fun t? => ?_
  cases t? with
  | none => exact .pure fun _ h => h
  | some t => exact .bind ((hA (t :: ts)).told (n := {}) (F := 0) rfl) fun _ => .pure fun _ h => h

/-- What an owner's element is used for, and what is still to be given out then. -/
theorem credits_withOwner {owner : String} {body : ElementId → Act Reply}
    (h : ∀ e, Ensures (·.Credits ts) (body e)
      (fun r w => w.Credits ((r.grant? "insert").toList ++ ts)) (·.Credits ts)) :
    Ensures (·.Credits ts) (withOwner run owner body)
      (fun r w => w.Credits ((r.grant? "insert").toList ++ ts)) (·.Credits ts) := by
  have hA (ts : List Ticket) := upheld_crediting (n := {}) (hr ts) 0
  refine .get fun v => .left ?_
  split
  · exact .pure fun _ h => h
  · rename_i e _
    refine .change (R := (·.Credits ts)) (fun _ h => h) (.attempt (h e) fun r => ?_)
    cases r with
    | ok r =>
      exact .bind ((hA ((r.grant? "insert").toList ++ ts)).releaseAll (n := {}) (F := 0) [e]) fun _ =>
        .pure fun _ h => h
    | error p =>
      exact .bind ((hA ts).releaseAll (n := {}) (F := 0) [e]) fun _ => .throw fun _ h => h

/-- A command that is not an insertion gives out no ticket, and an insertion one that is its own. -/
theorem credits_perform (inScript : Bool) (c : Command) :
    Ensures (·.Credits ts) (perform run inScript c)
      (fun r w => w.Credits ((r.grant? c.name).toList ++ ts)) (·.Credits ts) := by
  have hother (hn : c.name ≠ "insert") : Ensures (·.Credits ts) (perform run inScript c)
      (fun r w => w.Credits ((r.grant? c.name).toList ++ ts)) (·.Credits ts) := by
    refine ((total_crediting (hr ts) (n := {})).perform (F := 0) (.inr trivial) inScript).post (fun r w h => ?_)
      fun _ h => h
    have : r.grant? c.name = none := by cases r <;> simp [Reply.grant?, hn]
    rw [this]
    exact h
  cases c with
  | insert name owner saveAs =>
    refine .get fun v => .left ?_
    split
    · exact .pure fun _ h => h
    · refine credits_withOwner hr fun e => .bind (credits_insert hr _ e) fun t? => ?_
      cases t? with
      | none => exact .pure fun _ h => h
      | some t =>
        exact .bind ((total_crediting (hr (t :: ts))).honoured.saveAs (n := {}) (F := 0) saveAs t) fun _ =>
          .pure fun _ h => h
  | malformed name set why =>
    cases set with
    | none => exact .pure fun _ h => h
    | some set =>
      refine .get fun v => .left ?_
      split <;> exact .pure fun _ h => h
  | _ => exact hother (by simp [Command.name])

end Run

namespace Session

theorem obeys_crediting (depth : Nat) (ts : List Ticket) : (runner depth).Obeys (.crediting ts) :=
  Runner.obeys_of (A := Condition.crediting) (fun h => h.note rfl) (fun hr _ _ _ c =>
    (credits_perform hr true c).post (fun _ _ => Credits.answered) fun _ h _ => h.note rfl) depth ts

/-- The tickets that the insertions of a client gave out. -/
def grants (l : List (Command × Reply)) : List Ticket :=
  l.filterMap fun x => x.2.grant? x.1.name

/-- In every run insertions give out tickets of handles that were stored, no two of the same. -/
theorem credits_transcript (depth : Nat) (cs : List Command) (h : w.Credits ts) :
    (carryOutAll depth w cs).Credits (grants (transcript depth w cs) ++ ts) := by
  induction cs generalizing w ts with
  | nil => exact h
  | cons c cs ih =>
    have hc : (carryOutWithin depth w c).2.Credits
        ((((carryOutWithin depth w c).1.grant? c.name).toList) ++ ts) := by
      have := credits_perform (obeys_crediting depth) false c w h
      rw [carryOutWithin_eq]
      rcases hx : (perform (runner depth) false c).exec w with ⟨p | r, w'⟩ <;> rw [hx] at this
      · exact this
      · exact this
    have hcs := ih hc
    have hg : grants (transcript depth w (c :: cs)) =
        ((carryOutWithin depth w c).1.grant? c.name).toList ++
          grants (transcript depth (carryOutWithin depth w c).2 cs) := by
      rw [grants, transcript, List.filterMap_cons]
      simp only
      split <;> simp [*, grants]
    rw [hg]
    refine List.Subperm.trans (List.Perm.subperm (List.Perm.append_right _ ?_)) hcs
    rw [← List.append_assoc]
    exact List.perm_append_comm.append_right _

end Session

/-! ## Tickets whose handle is gone -/

/-- A ticket has no handle, and whatever is done with it touches none: a removal, a sweep that finds it in
its batch, a cursor that has it before it or comes back to it, a filter that wants it out, and the end of
watching for it. -/
structure World.Void (w : World) (t : Ticket) : Prop where
  lost : w.handle? t = none
  removed : ∀ d, w.takeOut t d = (none, w)
  swept : ∀ run s b, (sweepOne run s b t).exec w =
    if w.isForeign s t then (.ok b, w.note (.line (.foreign t)))
    else if s ∈ w.entered then (.error reentered, w.note (.barred s))
    else (.ok b, w)
  visited : ∀ run (c : Cursor) key, t = ⟨c.set, c.shard, key⟩ → (c.visit run key).exec w =
    if c.set ∈ w.entered then (.error reentered, w.note (.barred c.set)) else (.ok none, w)
  current : ∀ (c : Cursor) key, c.current = some key → t = ⟨c.set, c.shard, key⟩ →
    c.removeCurrent.exec w =
      if c.set ∈ w.entered then
        (.ok ⟨{ c with current := none }, .error reentered⟩, w.note (.barred c.set))
      else (.ok ⟨{ c with current := none }, .ok false⟩, w)
  filtered : ∀ s k key keys, t = ⟨s, k, key⟩ →
    (takeOutAll s k (key :: keys)).exec w = (takeOutAll s k keys).exec w
  unwatched : ∀ e t' h, w.handle? t' = some h → w.isLive t'.owner → ∀ e',
    ((w.unwatch e t).watchers e').count ⟨w.channelOf t'.owner, t'⟩ =
      (w.watchers e').count ⟨w.channelOf t'.owner, t'⟩

theorem exec_takeOut_gone (hn : w.handle? t = none) (d : Departure) :
    (takeOut t d).exec w =
      if t.owner ∈ w.entered then (.error reentered, w.note (.barred t.owner)) else (.ok none, w) := by
  split
  · rename_i hm
    exact exec_guarded_of_mem hm _
  · rename_i hm
    rw [exec_takeOut hm, takeOut_fst, hn, takeOut_none hn]

theorem World.void_of_gone (hn : w.handle? t = none) : w.Void t where
  lost := hn
  removed d := Prod.ext ((takeOut_fst w t d).trans hn) (takeOut_none hn d)
  swept run s b := by
    by_cases hf : w.isForeign s t
    · rw [if_pos hf]
      exact exec_sweepOne_foreign run hf b
    · rw [if_neg hf]
      by_cases hs : s ∈ w.entered
      · obtain rfl := owner_of_not_isForeign hf
        have ht := exec_takeOut_gone hn .swept
        rw [if_pos hs] at ht ⊢
        rw [sweepOne, exec_bind_ok (exec_look _ w), Bool.eq_false_iff.mpr hf]
        exact exec_bind_error ht _
      · rw [if_neg hs]
        exact exec_sweepOne_stale run hf hs hn b
  visited run c key ht := by
    subst ht
    rw [Cursor.visit]
    split
    · rename_i hm
      exact exec_bind_error (exec_guarded_of_mem hm _) _
    · rename_i hm
      have hx := Cursor.exec_sight hm (by simp [hn]) (rfl : (⟨c.set, c.shard, key⟩ : Ticket) = _)
      rw [hn] at hx
      exact exec_bind_ok hx _
  current c key hc ht := by
    subst ht
    have hx := exec_takeOut_gone hn .removed
    rw [Cursor.removeCurrent, hc]
    by_cases hs : c.set ∈ w.entered
    · rw [if_pos hs] at hx ⊢
      exact exec_bind_ok ((exec_attempt _ w).trans (by rw [hx])) _
    · rw [if_neg hs] at hx ⊢
      exact exec_bind_ok ((exec_attempt _ w).trans (by rw [hx])) _
  filtered s k key keys ht := by
    subst ht
    rw [takeOutAll, exec_bind_ok (exec_update _ w), takeOut_fst, hn, takeOut_none hn]
  unwatched e t' h hh hl e' := by
    have hne : t' ≠ t := by
      rintro rfl
      rw [hn] at hh
      cases hh
    exact count_watchers_unwatch hne (hasChannel_of_isLive (hasShard_of_handle? hh).1 hl) e' e

variable {L : Scene} {D D' : Duties}

/-- A ticket whose handle is gone has none ever after. It is not stored again, the books say once and for
all how it went, and if they say that a sweep took it out it is reported once. -/
theorem Course.void (c : Course L (w, D) (w', D')) (hw : w.Point D) (ht : t ∈ w.books.stored)
    (hn : w.handle? t = none) :
    w'.Void t ∧ w'.books.stored.count t = 1 ∧
      w'.books.removed.count t = w.books.removed.count t ∧
      w'.books.swept.count t = w.books.swept.count t ∧
      w'.books.reported.count t + D'.count (.report t) = w.books.swept.count t := by
  have hl := c.later hw.sane
  have hk := hw.kept
  have hk' := (c.point hw).kept
  obtain ⟨e, he⟩ := mem_stored.mp ht
  have hn' : w'.handle? t = none := hl.gone t (hw.recorded.issued t e he).1 hn
  have hone : w.books.stored.count t = 1 :=
    Nat.le_antisymm (hk.once t) (List.count_pos_iff.mpr ht)
  have hone' : w'.books.stored.count t = 1 :=
    Nat.le_antisymm (hk'.once t) (List.count_pos_iff.mpr (hl.mem_stored ht))
  have hthere := hk.there t
  have hthere' := hk'.there t
  have hswept' := hk'.swept t
  rw [hone, hn] at hthere
  rw [hone', hn'] at hthere'
  simp only [Option.isSome_none, Bool.false_eq_true, ite_false] at hthere hthere'
  -- it went either way, and the journal does not forget which
  have hrem : w.books.removed.count t = 0 ∨ 0 < w'.books.removed.count t := by
    rcases Nat.eq_zero_or_pos (w.books.removed.count t) with h | h
    · exact .inl h
    · obtain ⟨d, hd, hj⟩ := mem_removed.mp (List.count_pos_iff.mp h)
      exact .inr (List.count_pos_iff.mpr (mem_removed.mpr ⟨d, hd, hl.mem_journal hj⟩))
  have hswe : w.books.swept.count t = 0 ∨ 0 < w'.books.swept.count t := by
    rcases Nat.eq_zero_or_pos (w.books.swept.count t) with h | h
    · exact .inl h
    · exact .inr (List.count_pos_iff.mpr
        (mem_swept.mpr (hl.mem_journal (mem_swept.mp (List.count_pos_iff.mp h)))))
  exact ⟨void_of_gone hn', hone', by omega, by omega, by omega⟩

namespace Session

/-- Tickets never alias. In every run the tickets that insertions give out, of a client and of its scripts,
into all sets, are distinct and of handles that were stored, and at every point of a run no two handles were
stored under one ticket. The worlds between commands are points of runs, and what commands and scripts do
from such points are courses. If the handle of a ticket is gone at a point, then after every course from
there the ticket is void: it leads to no handle, and a sweep, a removal, a filter, a cursor or the end of
watching that comes upon it leaves the handles as they are, those stored later too. It was stored once, and
how it went and whether it was or has to be reported is settled. -/
theorem tickets_never_alias (depth : Nat) (cs : List Command) :
    (grants (transcript depth .empty cs) ++ (carryOutAll depth .empty cs).granted).Nodup ∧
    (∀ t ∈ grants (transcript depth .empty cs) ++ (carryOutAll depth .empty cs).granted,
      t ∈ (carryOutAll depth .empty cs).books.stored) ∧
    (carryOutAll depth .empty cs).Point 0 ∧
    (∀ w : World, w.Point 0 → ∀ cs, Course .idle (w, 0) (carryOutAll depth w cs, 0)) ∧
    (∀ (w : World) D role script, w.Point D →
      Course .idle (w, D) (((runner depth role script).exec w).2, D)) ∧
    ∀ (w : World) D, w.Point D → w.books.stored.Nodup ∧
      ∀ t ∈ w.books.stored, w.handle? t = none → ∀ L w' D', Course L (w, D) (w', D') →
        w'.Void t ∧ w'.books.stored.count t = 1 ∧
          w'.books.removed.count t = w.books.removed.count t ∧
          w'.books.swept.count t = w.books.swept.count t ∧
          w'.books.reported.count t + D'.count (.report t) = w.books.swept.count t := by
  have hw : (carryOutAll depth .empty cs).Point 0 := point_carryOutAll depth cs
  have hc : (carryOutAll depth .empty cs).Credits
      (grants (transcript depth .empty cs) ++ []) := credits_transcript depth cs (List.nil_subperm)
  rw [List.append_nil] at hc
  have hnodup (w : World) D (hw : w.Point D) : w.books.stored.Nodup :=
    List.nodup_iff_count_le_one.mpr hw.kept.once
  refine ⟨?_, fun t ht => hc.subset ht, hw, fun w hw cs => course_carryOutAll depth hw cs,
    fun w D role script hw => course_script depth hw role script, fun w D hw => ⟨hnodup w D hw, ?_⟩⟩
  · exact List.nodup_iff_count_le_one.mpr fun t =>
      (List.Subperm.count_le hc t).trans (hw.kept.once t)
  · exact fun t ht hn L w' D' c => c.void hw ht hn

/-- A handle is removed and the next one comes into its slot. The ticket of the first is put into the
channel. -/
def reusingRun : List Command :=
  [.newChannel "ch" (.ok .queue),
    .build "s" (.ok ⟨{ capacity := 4, concurrency := 1 }, some "ch", .constant 7, .silent⟩),
    .new "x" (.number 1) none none, .new "y" (.number 2) none none, .insert "s" "x" (some "a"),
    .remove "s" (.owner "x"), .insert "s" "y" none, .enqueue "ch" ["a"]]

/-- The second handle has another ticket, and a sweep that finds the first ticket leaves it. -/
theorem tickets_never_alias_reusing :
    let w := carryOutAll 0 .empty reusingRun
    grants (transcript 0 .empty reusingRun) = [⟨0, 0, 0, 1⟩, ⟨0, 0, 0, 3⟩] ∧
      w.pending 0 = [⟨0, 0, 0, 1⟩] ∧ (w.handle? ⟨0, 0, 0, 3⟩).isSome ∧
      (grants (transcript 0 .empty reusingRun) ++ w.granted).Nodup ∧
      (carryOutAll 0 w [.sweep "s"]).Void ⟨0, 0, 0, 1⟩ := by
  intro w
  have h := tickets_never_alias 0 reusingRun
  have hgone : w.handle? ⟨0, 0, 0, 1⟩ = none := by decide +kernel
  have hstored : (⟨0, 0, 0, 1⟩ : Ticket) ∈ w.books.stored := by decide +kernel
  exact ⟨by decide +kernel, by decide +kernel, by decide +kernel, h.1,
    ((h.2.2.2.2.2 w 0 h.2.2.1).2 _ hstored hgone _ _ _ (h.2.2.2.1 w h.2.2.1 [.sweep "s"])).1⟩

end Session

end WeakSet
