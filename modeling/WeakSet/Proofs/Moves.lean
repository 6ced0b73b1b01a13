import WeakSet.Comparison
import WeakSet.Cursor
import WeakSet.Proofs.Act
import WeakSet.Proofs.Handles
import Mathlib.Data.Multiset.Count
import Mathlib.Data.Multiset.MapFold
import Mathlib.Logic.Relation

/-!
# Moves

Everything that any code does to a world is a sequence of the moves of this file. A move takes into
account what code under way owes: references that it will let go of, tickets that it took out of a
channel and has not dealt with, handles that it took out of a set and has not reported, or whose
element it has not yet ceased to watch, and sets that it entered and has not left. These *duties*
come and go with the moves, and when no code is under way there are none.

Code relies on what surrounds it. The `Scene` of a move says which sets are locked then, so that
their shards stay as they are, and which sets are in use by name, so that they stay and keep that
name. `Move L` is a move in scene `L`, and `Course L` is any number of such moves. An invariant of
worlds with duties that every move keeps holds at every point of every run (`Course.keeps`).
-/

namespace WeakSet

/-- What code under way has yet to do. -/
inductive Duty where
  /-- To let go of a reference. -/
  | hold (e : ElementId)
  /-- To deal with a ticket that its set took out of its channel. -/
  | deal (t : Ticket)
  /-- To report a handle that a sweep took out. -/
  | report (t : Ticket)
  /-- To watch an element no longer for a handle that was taken out. -/
  | unwatch (t : Ticket) (e : ElementId)
  /-- To leave a set that it entered. -/
  | leave (s : SetId)
  deriving DecidableEq

abbrev Duties := Multiset Duty

namespace Duties

/-- References to let go of. -/
def holds (es : List ElementId) : Duties :=
  (es.map Duty.hold : List Duty)

/-- The tickets of a batch that a sweep of set `s` has to deal with. -/
def deals (s : SetId) (ts : List Ticket) : Duties :=
  ((ts.filter fun t => t.owner = s).map Duty.deal : List Duty)

/-- Elements to watch no longer for handles that were taken out. -/
def unwatches (xs : List (Ticket × Handle)) : Duties :=
  (xs.map fun x => Duty.unwatch x.1 x.2.element : List Duty)

@[simp] theorem holds_nil : holds [] = 0 := rfl

@[simp] theorem holds_cons (e : ElementId) (es : List ElementId) :
    holds (e :: es) = .hold e ::ₘ holds es := rfl

theorem holds_toList_none (D : Duties) : holds (none : Option ElementId).toList + D = D :=
  Multiset.zero_add D

theorem holds_toList_some (e : ElementId) (D : Duties) :
    holds (some e).toList + D = .hold e ::ₘ D :=
  Multiset.singleton_add _ D

theorem holds_append (es es' : List ElementId) : holds (es ++ es') = holds es + holds es' := by
  rw [holds, List.map_append, ← Multiset.coe_add]; rfl

@[simp] theorem deals_nil (s : SetId) : deals s [] = 0 := rfl

theorem deals_cons_own {s : SetId} {t : Ticket} (h : t.owner = s) (ts : List Ticket) :
    deals s (t :: ts) = .deal t ::ₘ deals s ts := by
  simp only [deals, List.filter_cons, h, decide_true, ite_true, List.map_cons]; rfl

theorem deals_cons_foreign {s : SetId} {t : Ticket} (h : t.owner ≠ s) (ts : List Ticket) :
    deals s (t :: ts) = deals s ts := by
  simp only [deals, List.filter_cons, h, decide_false, Bool.false_eq_true, ite_false]

@[simp] theorem unwatches_cons (x : Ticket × Handle) (xs : List (Ticket × Handle)) :
    unwatches (x :: xs) = .unwatch x.1 x.2.element ::ₘ unwatches xs := rfl

theorem count_hold_cons (e e' : ElementId) (D : Duties) :
    (Duty.hold e ::ₘ D).count (.hold e') = D.count (.hold e') + if e' = e then 1 else 0 := by
  rw [Multiset.count_cons]
  simp

theorem count_hold_holds (o : Option ElementId) (e : ElementId) :
    (holds o.toList).count (.hold e) = if o = some e then 1 else 0 := by
  cases o with
  | none => rfl
  | some e' => by_cases h : e = e' <;> simp [h, eq_comm]

/-- What a duty to do something else is not. -/
theorem not_mem_deals {d : Duty} (h : ∀ t, d ≠ .deal t) (s : SetId) (ts : List Ticket) :
    d ∉ deals s ts := by
  simp only [deals, Multiset.mem_coe, List.mem_map, not_exists, not_and]
  exact fun t _ => Ne.symm (h t)

theorem not_mem_unwatches {d : Duty} (h : ∀ t e, d ≠ .unwatch t e) (xs : List (Ticket × Handle)) :
    d ∉ unwatches xs := by
  simp only [unwatches, Multiset.mem_coe, List.mem_map, not_exists, not_and]
  exact fun x _ => Ne.symm (h x.1 x.2.element)

theorem hold_mem_holds {e : ElementId} {es : List ElementId} : .hold e ∈ holds es ↔ e ∈ es := by
  simp [holds]

theorem not_mem_holds {d : Duty} (h : ∀ e, d ≠ .hold e) (es : List ElementId) :
    d ∉ holds es := by
  simp only [holds, Multiset.mem_coe, List.mem_map, not_exists, not_and]
  exact fun e _ => Ne.symm (h e)

@[simp] theorem unwatch_not_mem_holds (t : Ticket) (e : ElementId) (es : List ElementId) :
    .unwatch t e ∉ holds es :=
  not_mem_holds (by simp) es

@[simp] theorem deal_not_mem_holds (t : Ticket) (es : List ElementId) : .deal t ∉ holds es :=
  not_mem_holds (by simp) es

@[simp] theorem leave_not_mem_holds (s : SetId) (es : List ElementId) : .leave s ∉ holds es :=
  not_mem_holds (by simp) es

@[simp] theorem leave_not_mem_deals (s s' : SetId) (ts : List Ticket) : .leave s ∉ deals s' ts :=
  not_mem_deals (by simp) s' ts

@[simp] theorem leave_not_mem_unwatches (s : SetId) (xs : List (Ticket × Handle)) :
    .leave s ∉ unwatches xs :=
  not_mem_unwatches (by simp) xs

theorem mem_unwatches {xs : List (Ticket × Handle)} {t : Ticket} {e : ElementId} :
    .unwatch t e ∈ unwatches xs ↔ ∃ h, (t, h) ∈ xs ∧ h.element = e := by
  simp [unwatches]

theorem mem_deals {s : SetId} {ts : List Ticket} {t : Ticket} :
    .deal t ∈ deals s ts ↔ t ∈ ts ∧ t.owner = s := by
  simp [deals]

end Duties

open Duties

/-! ## Scenes -/

/-- What the code that runs at some point has been called in the middle of: the sets that are locked,
and the sets that are in use, each under the name by which it was found. A set that is being made is
in use without a name. -/
structure Scene where
  locked : List SetId := []
  used : List (Option String × SetId) := []

namespace Scene

/-- Nothing is under way. -/
def idle : Scene := {}

def lock (L : Scene) (s : SetId) : Scene :=
  { L with locked := s :: L.locked }

def use (L : Scene) (name : Option String) (s : SetId) : Scene :=
  { L with used := (name, s) :: L.used }

/-- Whether a set is in use. -/
def Uses (L : Scene) (s : SetId) : Prop :=
  ∃ x ∈ L.used, x.2 = s

/-- There is more under way in the second scene. -/
instance : LE Scene where
  le L L' := (∀ s ∈ L.locked, s ∈ L'.locked) ∧ ∀ x ∈ L.used, x ∈ L'.used

variable {L L' : Scene} {s : SetId}

theorem idle_le (L : Scene) : idle ≤ L :=
  ⟨fun _ h => absurd h List.not_mem_nil, fun _ h => absurd h List.not_mem_nil⟩

theorem le_lock (L : Scene) (s : SetId) : L ≤ L.lock s :=
  ⟨fun _ h => List.mem_cons_of_mem _ h, fun _ h => h⟩

theorem le_use (L : Scene) (name : Option String) (s : SetId) : L ≤ L.use name s :=
  ⟨fun _ h => h, fun _ h => List.mem_cons_of_mem _ h⟩

theorem Uses.mono (h : L.Uses s) (hL : L ≤ L') : L'.Uses s :=
  have ⟨x, hx, hs⟩ := h
  ⟨x, hL.2 x hx, hs⟩

theorem uses_use (L : Scene) (name : Option String) (s : SetId) : (L.use name s).Uses s :=
  ⟨(name, s), List.mem_cons_self, rfl⟩

end Scene

/-! ## Moves -/

/-- Entries of the journal that say nothing of handles, locks or channels. -/
def Entry.isPlain : Entry → Bool
  | .stored .. | .departed .. | .reported .. | .barred _ | .posted .. | .drained _ => false
  | _ => true

namespace World

/-- The listener of a set is called: the call counts, the journal says so, and the record is in
hand. -/
def call (w : World) (r : Record) : World :=
  let w := (w.countCall r.ticket.owner).2
  let w := w.note
    (.reported r.ticket r.hash (r.last.map w.face) (w.isNamed r.ticket.owner))
  { w with hands := some r :: w.hands }

/-- A handle of a living element that a set may come to have: the set exists, the kind, the hash and
the shard are right, and no living element of the set has the same value, if the set can tell. -/
structure Admits (w : World) (s : SetId) (k : Nat) (h : Handle) : Prop where
  live : w.isLive s
  shard : w.HasShard s k
  kind : h.kind = (w.collection s).settings.kind
  hash : h.hash = (w.collection s).scheme.hash (w.value h.element)
  place : k = shardOf (w.shardCount s) h.hash
  new : h.kind = .weak → ∀ t h', w.handle? t = some h' → t.owner = s → w.isAlive h'.element →
    w.value h'.element ≠ w.value h.element

/-- For what reason a handle may be taken out that no ticket of a batch names: a removal goes by the
element that the handle shows, and a filter holds the elements whose handles it takes out. -/
def MayPart (w : World) (h : Handle) : Departure → Prop
  | .removed => h.kind = .weak
  | .filtered => w.isAlive h.element
  | .swept | .cleared => False

/-- What a listener may be told: the element of a record only if the set shows its elements. -/
def MayTell (w : World) (r : Record) : Prop :=
  r.last.isSome → (w.collection r.ticket.owner).settings.kind = .weak

/-- A cursor of a set that exists. It has come to an element only if the set shows its elements. -/
structure Suits (w : World) (c : Cursor) : Prop where
  set : c.set < w.sets.size
  current : c.current.isSome → (w.collection c.set).settings.kind = .weak

/-- Names for what there is. -/
structure Named (w : World) : Prop where
  sets : ∀ x ∈ w.setNames, x.2 < w.sets.size
  cursors : ∀ x ∈ w.cursors, w.Suits x.2
  channels : ∀ x ∈ w.channelNames, x.2 < w.channels.size
  tickets : ∀ x ∈ w.tickets, w.Issued x.2

/-- Sets that have a name exist, and have no other. -/
structure Housed (w : World) : Prop where
  live : ∀ x ∈ w.setNames, w.isLive x.2
  once : (w.setNames.map Prod.snd).Nodup

/-- A set in use exists, and has the name under which it is used. One that is being made has no name
yet, and no cursor. -/
def Serves (w : World) : Option String × SetId → Prop
  | (some name, s) => w.isLive s ∧ w.setNames.find? name = some s
  | (none, s) => w.isLive s ∧ w.isNamed s = false ∧ ∀ x ∈ w.cursors, x.2.set ≠ s

/-- Names as they should be, for sets in use too. -/
structure WellNamed (w : World) (L : Scene) : Prop where
  named : w.Named
  housed : w.Housed
  serves : ∀ x ∈ L.used, w.Serves x

end World

/-- A step that nothing interrupts, and what it does to the duties. -/
inductive Move (L : Scene) : World × Duties → World × Duties → Prop where
  | note {w : World} {D : Duties} {x : Entry} (hx : x.isPlain) : Move L (w, D) (w.note x, D)
  | bar {w : World} {D : Duties} {s : SetId} (h : s ∈ w.entered) :
      Move L (w, D) (w.note (.barred s), D)
  | enter {w : World} {D : Duties} {s : SetId} (h : s ∉ w.entered) :
      Move L (w, D) (w.lock s, .leave s ::ₘ D)
  | leave {w : World} {D : Duties} {s : SetId} (h : s ∉ L.locked) :
      Move L (w, .leave s ::ₘ D) (w.unlock s, D)
  | create {w : World} {D : Duties} (x : Element) :
      Move L (w, D) ((w.create x).2, .hold w.cells.size ::ₘ D)
  | acquire {w : World} {D : Duties} {e : ElementId} (h : w.isAlive e) :
      Move L (w, D) (w.acquire e, .hold e ::ₘ D)
  | release {w : World} {D : Duties} {e : ElementId} :
      Move L (w, .hold e ::ₘ D) ((w.release e).2, D)
  | own {w : World} {D : Duties} {name : String} {e : ElementId}
      (h : w.owners.find? name = none) :
      Move L (w, .hold e ::ₘ D) ({ w with owners := w.owners.put name e }, D)
  | disown {w : World} {D : Duties} {name : String} {e : ElementId}
      (h : w.owners.find? name = some e) :
      Move L (w, D) ({ w with owners := w.owners.erase name }, .hold e ::ₘ D)
  | takeRecord {w : World} {D : Duties} {r : Record} {hands : List (Option Record)}
      (h : w.hands = some r :: hands) :
      Move L (w, D) ({ w with hands := none :: hands }, holds r.last.toList + D)
  | putDown {w : World} {D : Duties} {x : Option Record} {hands : List (Option Record)}
      (h : w.hands = x :: hands) :
      Move L (w, D) ({ w with hands := hands }, holds (x.bind Record.last).toList + D)
  | turn {w : World} {D : Duties} (c : ChannelId) (isOpen : Bool) :
      Move L (w, D)
        ({ w with channels := w.channels.modify c fun ch => { ch with isOpen := isOpen } }, D)
  | newChannel {w : World} {D : Duties} (kind : ChannelKind) :
      Move L (w, D) ((w.newChannel kind).2, D)
  | post {w : World} {D : Duties} (c : ChannelId) {t : Ticket} (h : w.Issued t) :
      Move L (w, D) (w.post c t, D)
  | drain {w : World} {D : Duties} (c : ChannelId) :
      Move L (w, D) (((w.note (.drained c)).drain c).2, D)
  | rename {w : World} {D : Duties} {channelNames : Table ChannelId} {setNames : Table SetId}
      {cursors : Table Cursor} (walking : List SetId) (tickets : Table Ticket)
      (h : World.WellNamed { w with
        channelNames := channelNames, setNames := setNames, cursors := cursors
        walking := walking, tickets := tickets } L) :
      Move L (w, D) ({ w with
        channelNames := channelNames, setNames := setNames, cursors := cursors
        walking := walking, tickets := tickets }, D)
  | takeNotices {w : World} {D : Duties} {s : SetId} (h : s < w.sets.size) :
      Move L (w, D) ((w.takeNotices s).2, deals s (w.takeNotices s).1 + D)
  | stale {w : World} {D : Duties} {t : Ticket} (h : w.handle? t = none) :
      Move L (w, .deal t ::ₘ D) (w, D)
  | lose {w : World} {D : Duties} {t : Ticket} (h : .barred t.owner ∈ w.journal.toList) :
      Move L (w, .deal t ::ₘ D) (w, D)
  | reap {w : World} {D : Duties} {t : Ticket} {h : Handle} (ht : t.owner ∉ L.locked)
      (hh : w.handle? t = some h) :
      Move L (w, .deal t ::ₘ D)
        ((w.takeOut t .swept).2, .report t ::ₘ .unwatch t h.element ::ₘ D)
  | unwatch {w : World} {D : Duties} {t : Ticket} {e : ElementId} :
      Move L (w, .unwatch t e ::ₘ D) (w.unwatch e t, D)
  | call {w : World} {D : Duties} (r : Record) (h : w.MayTell r) :
      Move L (w, .report r.ticket ::ₘ (holds r.last.toList + D)) (w.call r, D)
  | takeOut {w : World} {D : Duties} {t : Ticket} {h : Handle} {d : Departure} (ht : t.owner ∉ L.locked)
      (hh : w.handle? t = some h) (hd : w.MayPart h d) :
      Move L (w, D) ((w.takeOut t d).2, .unwatch t h.element ::ₘ D)
  | takeAll {w : World} {D : Duties} {s : SetId} {k : Nat} (hs : s ∉ L.locked) (hk : w.HasShard s k) :
      Move L (w, D) ((w.takeAll s k).2, unwatches (w.ticketsIn s k) + D)
  | store {w : World} {D : Duties} {s : SetId} {k : Nat} {h : Handle} (hs : s ∉ L.locked)
      (ha : w.Admits s k h) :
      Move L (w, .hold h.element ::ₘ D) ((w.store s k h).2, .hold h.element ::ₘ D)
  | newSet {w : World} {D : Duties} (b : Blueprint) {channel : Option ChannelId}
      (hc : ∀ c ∈ channel, c < w.channels.size) :
      Move L (w, D) ((w.newSet b channel).2, D)
  | unmake {w : World} {D : Duties} {s : SetId} (hn : w.isNamed s = false) (hu : ¬ L.Uses s) :
      Move L (w, D) (w.unmake s, D)

/-- Any number of moves. -/
abbrev Course (L : Scene) : World × Duties → World × Duties → Prop :=
  Relation.ReflTransGen (Move L)

/-- Code that leaves more alone does no more. -/
theorem Move.mono {L L' : Scene} (hL : L ≤ L') {p q : World × Duties}
    (h : Move L' p q) : Move L p q := by
  cases h with
  | note hx => exact .note hx
  | bar h => exact .bar h
  | enter h => exact .enter h
  | leave h => exact .leave fun hm => h (hL.1 _ hm)
  | create x => exact .create x
  | acquire h => exact .acquire h
  | release => exact .release
  | own h => exact .own h
  | disown h => exact .disown h
  | takeRecord h => exact .takeRecord h
  | putDown h => exact .putDown h
  | turn c b => exact .turn c b
  | newChannel kind => exact .newChannel kind
  | post c h => exact .post c h
  | drain c => exact .drain c
  | rename l ts h =>
    exact .rename l ts ⟨h.named, h.housed, fun x hx => h.serves x (hL.2 x hx)⟩
  | takeNotices h => exact .takeNotices h
  | stale h => exact .stale h
  | lose h => exact .lose h
  | reap ht hh => exact .reap (fun hm => ht (hL.1 _ hm)) hh
  | unwatch => exact .unwatch
  | call r h => exact .call r h
  | takeOut ht hh hd => exact .takeOut (fun hm => ht (hL.1 _ hm)) hh hd
  | takeAll hs hk => exact .takeAll (fun hm => hs (hL.1 _ hm)) hk
  | store hs ha => exact .store (fun hm => hs (hL.1 _ hm)) ha
  | newSet b hc => exact .newSet b hc
  | unmake hn hu => exact .unmake hn fun h => hu (h.mono hL)

namespace Course

variable {L : Scene} {p q : World × Duties}

theorem mono {L' : Scene} (hL : L ≤ L') (h : Course L' p q) : Course L p q :=
  Relation.ReflTransGen.mono (fun _ _ => Move.mono hL) _ _ h

/-- What every move keeps holds all along. -/
theorem keeps {I : World × Duties → Prop} (hI : ∀ p q, Move L p q → I p → I q) (h : Course L p q)
    (hp : I p) : I q := by
  induction h with
  | refl => exact hp
  | tail _ hm ih => exact hI _ _ hm ih

end Course

end WeakSet
