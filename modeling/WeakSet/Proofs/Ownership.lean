import WeakSet.Proofs.Clients
import WeakSet.Proofs.Founding
import Mathlib.Data.Finset.Card
import Mathlib.Data.Finset.Range

/-!
# Membership keeps nothing alive

`World.Tallied` says that every reference to an element is an owner's, one of a record in hand or one
that code under way holds, and that the journal has the end of every element that is not alive exactly
once. Every command and every script keeps it, whatever panics and however scripts nest (`total_tally`).
Between the commands of a client no code is under way and no listener call. So there an element has as
many references as owners (`Session.membership_keeps_nothing_alive`).
-/

namespace WeakSet

open Act Duties

/-- The entries of the journal that say that an element ended, or that its destructor ran. -/
def Entry.isEnd : Entry → Bool
  | .ended _ | .destroyed _ => true
  | _ => false

/-- What the journal says when an element ends: that it did, and that its destructor runs. -/
def Element.obituary (x : Element) (e : ElementId) : List Entry :=
  .ended e :: if x.onDrop.isSome then [.destroyed x.face.tag] else []

namespace World

/-- Whether an element ended that had a destructor and that tag. -/
def isRuin (w : World) (tag : String) (e : ElementId) : Bool :=
  !w.isAlive e && (w.element? e).any fun x => x.onDrop.isSome && x.face.tag = tag

/-- How often the destructors of elements with a tag have to have run. -/
def ruins (w : World) (tag : String) : Nat :=
  ((Finset.range w.cells.size).filter fun e => w.isRuin tag e).card

/-- While `n` listener calls are under way and code holds the references `F`: each reference is
somebody's, and each element that is not alive ended once. -/
structure Tallied (n : Nat) (F : Multiset ElementId) (w : World) : Prop where
  hands : w.hands.length = n
  counted : w.Counted (F.map Duty.hold)
  ended : ∀ e, w.journal.toList.count (.ended e) = if e < w.cells.size ∧ ¬ w.isAlive e then 1 else 0
  destroyed : ∀ tag, w.journal.toList.count (.destroyed tag) = w.ruins tag

variable {w w' : World} {n n' : Nat} {F F' : Multiset ElementId}

theorem tallied_empty : empty.Tallied 0 0 where
  hands := rfl
  counted := ⟨List.nodup_nil, fun e => by simp [strong, empty, ownersOf, handsOn]⟩
  ended e := by simp [empty]
  destroyed tag := by simp [empty, ruins]

/-- The journal got entries that say nothing of the end of an element. -/
theorem count_end_append {l l' : List Entry} {x : Entry} (h : ∀ y ∈ l', y.isEnd = false)
    (hx : x.isEnd) : (l ++ l').count x = l.count x := by
  have h0 : l'.count x = 0 := List.count_eq_zero.mpr fun hm => by
    rw [h x hm] at hx
    cases hx
  rw [List.count_append, h0, Nat.add_zero]

theorem ruins_congr (hz : w'.cells.size = w.cells.size) (ha : ∀ e, w'.isAlive e = w.isAlive e)
    (he : ∀ e, w'.element? e = w.element? e) (tag : String) : w'.ruins tag = w.ruins tag := by
  rw [ruins, ruins, hz]
  congr 1
  exact Finset.filter_congr fun e _ => by rw [isRuin, isRuin, ha, he]

/-- No element comes or goes. -/
theorem Tallied.congr (h : w.Tallied n F) (hh : w'.hands.length = n')
    (hc : w'.Counted (F'.map Duty.hold)) (hz : w'.cells.size = w.cells.size)
    (ha : ∀ e, w'.isAlive e = w.isAlive e) (he : ∀ e, w'.element? e = w.element? e)
    (hj : ∃ l, w'.journal.toList = w.journal.toList ++ l ∧ ∀ x ∈ l, Entry.isEnd x = false) :
    w'.Tallied n' F' := by
  obtain ⟨l, hl, hend⟩ := hj
  refine ⟨hh, hc, fun e => ?_, fun tag => ?_⟩
  · rw [hl, count_end_append hend rfl, h.ended, hz, ha]
  · rw [hl, count_end_append hend rfl, h.destroyed, ruins_congr hz ha he]

/-- Only what is neither owned nor held nor alive changes. -/
theorem Tallied.of_cells (h : w.Tallied n F) (hh : w'.hands = w.hands) (ho : w'.owners = w.owners)
    (hc : w'.cells = w.cells)
    (hj : ∃ l, w'.journal.toList = w.journal.toList ++ l ∧ ∀ x ∈ l, Entry.isEnd x = false) :
    w'.Tallied n F :=
  h.congr (by rw [hh]; exact h.hands) (h.counted.of_cells ho hh hc fun _ => rfl) (by rw [hc])
    (fun e => by rw [isAlive, isAlive, strong_congr hc]) (fun e => by rw [element?, element?, hc]) hj

/-- Only watchers change. -/
theorem Tallied.of_watchers (h : w.Tallied n F) (hh : w'.hands = w.hands)
    (ho : w'.owners = w.owners) (hz : w'.cells.size = w.cells.size)
    (hs : ∀ e, w'.strong e = w.strong e) (he : ∀ e, w'.element? e = w.element? e)
    (hj : ∃ l, w'.journal.toList = w.journal.toList ++ l ∧ ∀ x ∈ l, Entry.isEnd x = false) :
    w'.Tallied n F :=
  h.congr (by rw [hh]; exact h.hands) (h.counted.congr ho hh hs fun _ => rfl) hz
    (fun e => by rw [isAlive, isAlive, hs]) he hj

theorem Tallied.note (h : w.Tallied n F) {x : Entry} (hx : x.isEnd = false) :
    (w.note x).Tallied n F :=
  h.of_cells rfl rfl rfl ⟨[x], by simp [World.note], by simpa using hx⟩

theorem Tallied.acquire {e : ElementId} (ha : w.isAlive e) (h : w.Tallied n F) :
    (w.acquire e).Tallied n (e ::ₘ F) := by
  have hc : (w.acquire e).Counted ((e ::ₘ F).map Duty.hold) := by
    rw [Multiset.map_cons]
    exact Move.counted (L := .idle) h.counted (.acquire ha)
  refine h.congr h.hands hc (size_cells_acquire w e) (fun e' => ?_) (element?_acquire w e)
    ⟨[], by simp [World.acquire], by simp⟩
  have hs := isAlive_iff.mp ha
  rw [Bool.eq_iff_iff, isAlive_iff, isAlive_iff, strong_acquire (lt_size_of_strong hs)]
  split
  · subst_vars; omega
  · rfl

/-! ## Endings -/

/-- The last reference goes: the watchers whose channels still exist are told, and then the journal says
that the element ended. -/
theorem journal_release_last {e : ElementId} {c : Cell} (hc : w.cells[e]? = some c)
    (h : c.strong = 1) :
    (w.release e).2.journal.toList = w.journal.toList ++
      ((c.watchers.filter fun x => w.hasChannel x.channel).map fun x => .noticed x.channel x.ticket) ++
      c.element.obituary e := by
  have hl := journal_foldl_announce c.watchers (w.expire e c)
  simp only [expire] at hl
  rw [release, hc]
  simp only [h, ite_true, Element.obituary]
  cases c.element.onDrop with
  | none => simp only [World.note, Array.toList_push, hl]; rfl
  | some _ =>
    simp only [World.note, Array.toList_push, hl, List.append_assoc]
    rfl

theorem count_ended_obituary (x : Element) (e e' : ElementId) :
    (x.obituary e).count (.ended e') = if e' = e then 1 else 0 := by
  unfold Element.obituary
  by_cases he : e' = e
  · subst he
    split <;> simp
  · rw [if_neg he, List.count_eq_zero]
    split <;> simp [he]

theorem count_destroyed_obituary (x : Element) (e : ElementId) (tag : String) :
    (x.obituary e).count (.destroyed tag) =
      if x.onDrop.isSome && x.face.tag = tag then 1 else 0 := by
  unfold Element.obituary
  cases x.onDrop with
  | none => simp
  | some _ => simp [List.count_cons]

/-- An element that ended counts from now on. -/
theorem ruins_release {e : ElementId} {x : Element} (hs : w.strong e = 1)
    (hx : w.element? e = some x) (tag : String) :
    (w.release e).2.ruins tag =
      w.ruins tag + if x.onDrop.isSome && x.face.tag = tag then 1 else 0 := by
  have hpos : 0 < w.strong e := by omega
  have hne : ∀ e' ≠ e, (w.release e).2.isRuin tag e' = w.isRuin tag e' := by
    intro e' he'
    rw [isRuin, isRuin, isAlive, isAlive, strong_release hpos, if_neg he', element?_release hpos]
  have hold : w.isRuin tag e = false := by
    rw [isRuin, isAlive_iff.mpr hpos]; rfl
  have hnew : (w.release e).2.isRuin tag e = (x.onDrop.isSome && x.face.tag = tag) := by
    rw [isRuin, isAlive, strong_release hpos, if_pos rfl, hs, element?_release hpos, hx]
    simp
  rw [ruins, ruins, size_cells_release hpos]
  cases hb : (x.onDrop.isSome && decide (x.face.tag = tag)) with
  | false =>
    simp only [Bool.false_eq_true, ite_false, Nat.add_zero]
    congr 1
    refine Finset.filter_congr fun e' _ => ?_
    by_cases he : e' = e
    · rw [he, hnew, hb, hold]
    · rw [hne e' he]
  | true =>
    have hins : (Finset.range w.cells.size).filter (fun e' => (w.release e).2.isRuin tag e') =
        Insert.insert e ((Finset.range w.cells.size).filter fun e' => w.isRuin tag e') := by
      ext e'
      simp only [Finset.mem_filter, Finset.mem_insert, Finset.mem_range]
      by_cases he : e' = e
      · subst he
        simp [hnew, hb, lt_size_of_strong hpos]
      · simp [hne e' he, he]
    rw [hins, Finset.card_insert_of_notMem (by simp [hold])]
    rfl

theorem Tallied.release {e : ElementId} (h : w.Tallied n (e ::ₘ F)) :
    (w.release e).2.Tallied n F := by
  have hcount := h.counted
  rw [Multiset.map_cons] at hcount
  have hpos : 0 < w.strong e :=
    isAlive_iff.mp (hcount.isAlive_of_hold (Multiset.mem_cons_self _ _))
  have hc : (w.release e).2.Counted (F.map Duty.hold) :=
    Move.counted (L := .idle) hcount .release
  have hh : (w.release e).2.hands.length = n := by rw [release_eq]; exact h.hands
  have hz := size_cells_release hpos
  rcases release_cases hpos with ⟨h1, c, hce, -⟩ | ⟨h1, c, -, he⟩
  · have hx : w.element? e = some c.element := by rw [element?, hce]; rfl
    have hcs : c.strong = 1 := by simpa [strong, hce] using h1
    have hl := journal_release_last hce hcs
    generalize hnoticed : ((c.watchers.filter _).map _ : List Entry) = l at hl
    have hall : ∀ x ∈ l, Entry.isEnd x = false := fun x hx => by
      obtain ⟨_, -, rfl⟩ := List.mem_map.mp (hnoticed ▸ hx)
      rfl
    refine ⟨hh, hc, fun e' => ?_, fun tag => ?_⟩
    · rw [hl, List.count_append, count_end_append hall rfl, h.ended, count_ended_obituary, hz]
      by_cases he' : e' = e
      · subst he'
        simp [isAlive, strong_release hpos, h1, lt_size_of_strong hpos]
      · simp [he', isAlive, strong_release hpos]
    · rw [hl, List.count_append, count_end_append hall rfl, h.destroyed, count_destroyed_obituary,
        ruins_release h1 hx]
  · refine h.congr hh hc hz (fun e' => ?_) (element?_release hpos) ⟨[], by rw [he]; simp, by simp⟩
    rw [Bool.eq_iff_iff, isAlive_iff, isAlive_iff, strong_release hpos]
    split
    · subst_vars; omega
    · rfl

/-- A new element has not ended. -/
theorem Tallied.create (x : Element) (h : w.Tallied n F) :
    (w.create x).2.Tallied n (w.cells.size ::ₘ F) := by
  have hc : (w.create x).2.Counted ((w.cells.size ::ₘ F).map Duty.hold) := by
    rw [Multiset.map_cons]
    exact Move.counted (L := .idle) h.counted (.create x)
  have hz : (w.create x).2.cells.size = w.cells.size + 1 := by simp [World.create]
  have ha : ∀ e ≠ w.cells.size, (w.create x).2.isAlive e = w.isAlive e := fun e he => by
    rw [isAlive, isAlive, strong_create, if_neg he]
  have hnew : (w.create x).2.isAlive w.cells.size := by
    rw [isAlive_iff, strong_create, if_pos rfl]; exact Nat.one_pos
  refine ⟨h.hands, hc, fun (e : Nat) => ?_, fun tag => ?_⟩
  · have hj : (w.create x).2.journal = w.journal := rfl
    rw [hj, h.ended, hz]
    by_cases he : e = w.cells.size
    · subst he; simp [hnew]
    · have hlt : e < w.cells.size + 1 ↔ e < w.cells.size := by omega
      simp only [ha e he, hlt]
  · have hj : (w.create x).2.journal = w.journal := rfl
    have hold : (w.create x).2.isRuin tag w.cells.size = false := by rw [isRuin, hnew]; rfl
    rw [hj, h.destroyed, ruins, ruins, hz, Finset.range_add_one, Finset.filter_insert, hold]
    simp only [Bool.false_eq_true, ite_false]
    congr 1
    refine Finset.filter_congr fun (e : Nat) he => ?_
    have he : e < w.cells.size := Finset.mem_range.mp he
    have hel : (w.create x).2.element? e = w.element? e := by
      simp [element?, World.create, Array.getElem?_push, Nat.ne_of_lt he]
    rw [isRuin, isRuin, ha e (by omega), hel]

/-! ## The other steps -/

theorem Tallied.takeOut (h : w.Tallied n F) (t : Ticket) (d : Departure) :
    (w.takeOut t d).2.Tallied n F := by
  rcases takeOut_cases w t d with ⟨-, e⟩ | ⟨x, hx, -⟩
  · rwa [e]
  · rw [takeOut_snd hx]
    exact h.of_cells rfl rfl rfl ⟨[.departed t d], by simp [World.note, setShard], by simp [Entry.isEnd]⟩

theorem Tallied.unwatch (h : w.Tallied n F) (e : ElementId) (t : Ticket) :
    (w.unwatch e t).Tallied n F :=
  h.of_watchers (by rw [unwatch_eq]) (by rw [unwatch_eq]) (size_cells_unwatch w e t)
    (fun e' => strong_unwatch w e e' t) (fun e' => element?_unwatch w e e' t)
    ⟨[], by rw [unwatch_eq, List.append_nil], by simp⟩

/-- The reference of a record goes into the hands of the listener. -/
theorem Tallied.call {r : Record} (h : w.Tallied n (r.refs + F)) : (w.call r).Tallied (n + 1) F := by
  have hc : w.Counted (holds r.last.toList + F.map Duty.hold) := by
    refine h.counted.congr rfl rfl (fun _ => rfl) fun e => ?_
    rw [Multiset.map_add, Record.refs]
    rfl
  refine h.congr ?_ hc.call rfl (fun _ => rfl) (fun _ => rfl)
    ⟨[.reported r.ticket r.hash (r.last.map w.face) (w.isNamed r.ticket.owner)],
      Array.toList_push .., by simp [Entry.isEnd]⟩
  exact congrArg (· + 1) h.hands

/-- What a listener did not take out of its hands is held again. -/
theorem Tallied.putDown (h : w.Tallied (n + 1) F) :
    Tallied n (((w.hands.head?.join.bind Record.last).toList : List ElementId) + F)
      { w with hands := w.hands.tail } := by
  obtain ⟨x, hands, hx⟩ : ∃ x hands, w.hands = x :: hands := by
    rcases hw : w.hands with _ | ⟨x, hands⟩
    · have := h.hands
      rw [hw] at this
      cases this
    · exact ⟨x, hands, rfl⟩
  have hc := Move.counted (L := .idle) h.counted (.putDown hx)
  have hn : hands.length = n := by
    have := h.hands
    rw [hx] at this
    exact Nat.succ.inj this
  simp only [hx, List.head?_cons, Option.join_some, List.tail_cons]
  refine h.congr hn (hc.congr rfl rfl (fun _ => rfl) fun e => ?_) rfl (fun _ => rfl) (fun _ => rfl)
    ⟨[], by simp, by simp⟩
  rw [Multiset.map_add]
  rfl

/-- A listener takes the record in its hands. -/
theorem Tallied.takeRecord {r : Record} {hands : List (Option Record)} (hw : w.hands = some r :: hands)
    (h : w.Tallied n F) :
    Tallied n ((r.last.toList : List ElementId) + F) { w with hands := none :: hands } := by
  have hc := Move.counted (L := .idle) h.counted (.takeRecord hw)
  have hn : (none :: hands : List (Option Record)).length = n := by
    have := h.hands
    rwa [hw] at this
  refine h.congr hn (hc.congr rfl rfl (fun _ => rfl) fun e => ?_) rfl (fun _ => rfl) (fun _ => rfl)
    ⟨[], (List.append_nil _).symm, by simp⟩
  rw [Multiset.map_add]
  rfl

theorem Tallied.store (h : w.Tallied n F) (s : SetId) (k : Nat) (x : Handle) :
    (w.store s k x).2.Tallied n F :=
  h.of_watchers rfl rfl (size_cells_store x) (strong_store x) (element?_store x)
    ⟨[.stored (w.nextTicket s k x) x.element], by rw [store_eq]; simp, by simp [Entry.isEnd]⟩

theorem Tallied.unmake (h : w.Tallied n F) (s : SetId) : (w.unmake s).Tallied n F :=
  h.of_watchers (by rw [unmake_eq]) (by rw [unmake_eq])
    (by rw [unmake_eq]; exact size_cells_unwatchEach _ w) (strong_unmake w s) (element?_unmake w s)
    ⟨[], by rw [unmake_eq, List.append_nil], by simp⟩

/-- Only names change. -/
theorem Tallied.rename (h : w.Tallied n F) (channelNames : Table ChannelId) (setNames : Table SetId)
    (cursors : Table Cursor) (walking : List SetId) (tickets : Table Ticket) :
    Tallied n F { w with
      channelNames := channelNames, setNames := setNames, cursors := cursors
      walking := walking, tickets := tickets } :=
  h.of_cells rfl rfl rfl ⟨[], (List.append_nil _).symm, by simp⟩

theorem Tallied.own {name : String} {e : ElementId} (hn : w.owners.find? name = none)
    (h : w.Tallied n (e ::ₘ F)) : Tallied n F { w with owners := w.owners.put name e } := by
  have hc := h.counted
  rw [Multiset.map_cons] at hc
  exact h.congr h.hands (Move.counted (L := .idle) hc (.own hn)) rfl (fun _ => rfl) (fun _ => rfl)
    ⟨[], (List.append_nil _).symm, by simp⟩

theorem Tallied.disown {name : String} {e : ElementId} (hn : w.owners.find? name = some e)
    (h : w.Tallied n F) : Tallied n (e ::ₘ F) { w with owners := w.owners.erase name } := by
  have hc := Move.counted (L := .idle) h.counted (.disown hn)
  rw [← Multiset.map_cons] at hc
  exact h.congr h.hands hc rfl (fun _ => rfl) (fun _ => rfl) ⟨[], (List.append_nil _).symm, by simp⟩

end World

/-! ## Commands -/

/-- Every reference is accounted for. -/
def Condition.tally : Condition where
  Holds n F w := w.Tallied n.calls F
  panics := True
  bars _ _ := True

open World

theorem Entry.isEnd_of_isRemark {x : Entry} (h : x.isRemark) : x.isEnd = false := by
  cases x <;> first | rfl | cases h

section Run

variable {run : Runner} {n : Standing} (hr : run.Obeys .tally)

include hr

theorem upheld_tally (s : SetId) : Condition.tally.Upheld run s (fun _ => True) n where
  toLends := hr.lends (fun ha h => h.acquire ha) fun h => h.release
  note hx h := h.note (Entry.isEnd_of_isRemark hx)
  tell _ h := h.note rfl
  barred _ h := ⟨h.note rfl, trivial⟩
  lock _ h := h.of_cells rfl rfl rfl ⟨[], (List.append_nil _).symm, by simp⟩
  unlock h := h.of_cells rfl rfl rfl ⟨[], (List.append_nil _).symm, by simp⟩
  equality := .allow trivial (hr _ _ _ _).left
  listener := .allow trivial (hr _ _ _ _).left
  takeNotices h := by
    refine ⟨?_, fun _ _ => trivial⟩
    rw [takeNotices_eq]
    exact h.of_cells rfl rfl rfl ⟨[], (List.append_nil _).symm, by simp⟩
  takeOut _ _ h := h.takeOut _ _
  takeAll h := by
    rw [takeAll_snd]
    refine h.of_cells rfl rfl rfl ⟨_, Array.toList_append .., fun x hx => ?_⟩
    obtain ⟨y, -, rfl⟩ := List.mem_map.mp hx
    rfl
  unwatch _ h := h.unwatch _ _
  call _ _ h := h.call
  putDown h := h.putDown
  store h := h.store _ _ _

theorem total_tally : Condition.tally.Total run True n where
  toLends := (upheld_tally hr (n := n) 0).toLends
  panics := trivial
  indebted s _ := upheld_tally hr s
  remark hx h := h.note (Entry.isEnd_of_isRemark hx)
  create _ h := h.create _
  newSet _ _ h := by
    rw [newSet_eq]
    exact h.of_cells rfl rfl rfl ⟨[], (List.append_nil _).symm, by simp⟩
  unmake h := h.unmake _
  predicate _ := hr _ _ _ _
  borrow ho h := h.acquire (h.counted.isAlive_of_owner ho)
  own hn h := h.own hn
  disown hn h := h.disown hn
  channels _ h := h.of_cells rfl rfl rfl ⟨[], (List.append_nil _).symm, by simp⟩
  rename _ _ _ _ _ h := h.of_cells rfl rfl rfl ⟨[], (List.append_nil _).symm, by simp⟩
  posted _ _ h := h.note rfl
  drained _ h := h.note rfl
  takeRecord hw h := h.takeRecord hw

end Run

namespace Session

/-- Between the commands of a client no code holds anything. -/
theorem tallied_carryOutAll (depth : Nat) (cs : List Command) :
    (carryOutAll depth .empty cs).Tallied 0 0 := by
  have hr : (runner depth).Obeys .tally := Runner.obeys (A := .tally)
    (fun h => World.Tallied.note h rfl) total_tally depth
  have h : ∀ w : World, w.Tallied 0 0 → (carryOutAll depth w cs).Tallied 0 0 := by
    induction cs with
    | nil => exact fun w hw => hw
    | cons _ cs ih => exact fun w hw => ih _ (((total_tally hr (n := {})).perform (.inr trivial) false).exec hw)
  exact h _ tallied_empty

end Session

/-- Where no code holds anything and no listener is called, only owners have references. -/
theorem World.Tallied.strong_eq {w : World} (h : w.Tallied 0 0) (e : ElementId) :
    w.strong e = w.ownersOf e := by
  have hn : w.hands = [] := List.length_eq_zero_iff.mp h.hands
  rw [h.counted.strong, World.handsOn, hn]
  rfl

namespace Session

variable {w w' : World} {e : ElementId} {owner : String} {depth : Nat}

/-- An element ends in the very command that drops its last owner: its watchers are told, its
destructor runs if it has one, and it is not alive again. -/
theorem drop_last (hw : w.Point 0) (ho : w.owners.find? owner = some e) (h1 : w.strong e = 1) :
    ∃ x w', carryOutWithin depth w (.drop [owner]) = (.done, w') ∧ w.element? e = some x ∧
      w'.isAlive e = false ∧ ∃ l l', (∀ y ∈ l, ∃ c t, y = Entry.noticed c t) ∧
        w'.journal.toList = w.journal.toList ++ l ++ x.obituary e ++ l' := by
  -- the owner is gone, and with it the last reference
  let v : World := { w with owners := w.owners.erase owner }
  have hv : v.Point (.hold e ::ₘ 0) := Course.point (L := .idle) (.single (.disown ho)) hw
  have hpos : 0 < v.strong e := by
    show 0 < w.strong e
    omega
  have hd : (v.release e).2.Point 0 := Course.point (L := .idle) (.single .release) hv
  have hdead : (v.release e).2.strong e = 0 := by
    rw [strong_release hpos, if_pos rfl]
    show w.strong e - 1 = 0
    omega
  obtain ⟨c, hc⟩ : ∃ c, v.cells[e]? = some c := ⟨_, Array.getElem?_eq_getElem (lt_size_of_strong hpos)⟩
  have hc1 : c.strong = 1 := by
    have : v.strong e = 1 := h1
    simpa [strong, hc] using this
  have hl := journal_release_last hc hc1
  -- what the destructor does comes later
  obtain ⟨w', hx, hlater⟩ : ∃ w', (Act.release (runner depth) e).exec v = (.ok (), w') ∧
      World.Later (v.release e).2 w' := by
    rw [Act.release, exec_bind, exec_update]
    rcases hr : v.release e with ⟨_ | script, u⟩
    · exact ⟨u, rfl, .refl u⟩
    · rw [hr] at hd
      have hs := sound_runner depth .idle .destructor script u 0 hd (.idle u)
      exact ⟨_, rfl, hs.later hd.sane⟩
  have hrun : carryOutWithin depth w (.drop [owner]) = (.done, w') := by
    refine carryOutWithin_of_exec ?_
    rw [perform, dropOwners, exec_get_bind, ho]
    exact exec_bind_ok (exec_change _ w) _ |>.trans (exec_bind_ok hx _)
  obtain ⟨l', hl'⟩ := hlater.journal
  refine ⟨c.element, w', hrun, by rw [element?, show w.cells[e]? = some c from hc]; rfl, ?_, _, l',
    fun x hx => ?_, by rw [← hl', hl]⟩
  · rw [isAlive, hlater.dead e (by rw [size_cells_release hpos]; exact lt_size_of_strong hpos) hdead]
    rfl
  · obtain ⟨y, -, rfl⟩ := List.mem_map.mp hx
    exact ⟨_, _, rfl⟩

/-- Membership keeps nothing alive. Between the commands of a client an element has as many references
as owners, whatever sets, cursors, saved tickets and pending notices refer to it and however the
commands before ended. Every element that has no owner any more ended exactly once, and its destructor
ran exactly once if it had one. The command that drops the last owner of an element ends it. -/
theorem membership_keeps_nothing_alive (depth : Nat) (cs : List Command) :
    let w := carryOutAll depth .empty cs
    (∀ e, w.strong e = w.ownersOf e) ∧
    (∀ e, w.journal.toList.count (.ended e) =
      if e < w.cells.size ∧ w.ownersOf e = 0 then 1 else 0) ∧
    (∀ tag, w.journal.toList.count (.destroyed tag) = w.ruins tag) ∧
    ∀ owner e, w.owners.find? owner = some e →
      (carryOutWithin depth w (.counts owner)).1 = .counts (w.ownersOf e) (w.watchers e).length ∧
      (w.ownersOf e = 1 → ∃ x w', carryOutWithin depth w (.drop [owner]) = (.done, w') ∧
        w.element? e = some x ∧ w'.isAlive e = false ∧
        ∃ l l', (∀ y ∈ l, ∃ c t, y = Entry.noticed c t) ∧
          w'.journal.toList = w.journal.toList ++ l ++ x.obituary e ++ l') := by
  intro w
  have ht : w.Tallied 0 0 := tallied_carryOutAll depth cs
  refine ⟨ht.strong_eq, fun e => ?_, ht.destroyed, fun owner e ho => ⟨?_, fun h1 => ?_⟩⟩
  · have ha : ¬ w.isAlive e = true ↔ w.ownersOf e = 0 := by
      rw [isAlive_iff, ht.strong_eq]
      omega
    simp only [ht.ended, ha]
  · rw [carryOutWithin_eq, exec_counts false ho, ht.strong_eq]
    rfl
  · exact drop_last (point_carryOutAll depth cs) ho (by rw [ht.strong_eq]; exact h1)

/-- An element with a destructor is in a set and under a cursor when its last owner goes. -/
def lastOwnerRun : List Command :=
  [.new "x" (.number 1) (some [.length "s"]) none, .clone "x" "y",
    .build "s" (.ok ⟨{ capacity := 4, concurrency := 1 }, none, .constant 7, .scripted [] none false⟩),
    .insert "s" "x" (some "t"), .newCursor "s" "c", .next "c" none, .drop ["x"]]

theorem membership_keeps_nothing_alive_last :
    let w := carryOutAll 1 .empty lastOwnerRun
    w.strong 0 = 1 ∧ ∃ x w' l l', carryOutWithin 1 w (.drop ["y"]) = (.done, w') ∧
      w'.isAlive 0 = false ∧ w.element? 0 = some x ∧ (∀ y ∈ l, ∃ c t, y = Entry.noticed c t) ∧
        w'.journal.toList = w.journal.toList ++ l ++ x.obituary 0 ++ l' := by
  intro w
  have h := membership_keeps_nothing_alive 1 lastOwnerRun
  have ho : w.owners.find? "y" = some 0 := by decide +kernel
  have h1 : w.ownersOf 0 = 1 := by decide +kernel
  obtain ⟨x, w', hx, he, hd, l, l', hn, hl⟩ := (h.2.2.2 "y" 0 ho).2 h1
  exact ⟨(h.1 0).trans h1, x, w', l, l', hx, hd, he, hn, hl⟩

end Session

end WeakSet
