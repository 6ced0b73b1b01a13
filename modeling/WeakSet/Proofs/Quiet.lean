import WeakSet.Proofs.Borrowing
import WeakSet.Proofs.Coverage
import WeakSet.Proofs.Dictionaries
import WeakSet.Proofs.Distinct

/-!
# Worlds without client code

In a *quiet* world no element and no listener has a script, every set is of weak references and has
a queue to itself, and between commands nothing is locked or in hand. What waits in the queue of a
set are tickets of handles whose element ended. So a sweep takes out such handles and nothing else,
and what a set has for each value is well defined:

* `World.registry`: what a client has to know of a world;
* `Framed`: what an operation of one set leaves as it is;
* `Quiet.framed`: such an operation keeps a world quiet.
-/

namespace WeakSet

open Act Duties

/-- A listener without scripts. -/
def Listener.IsPlain (l : Listener Script) : Prop :=
  ∀ n, l.script? n = none

instance (l : Listener Script) : Decidable l.IsPlain :=
  match l with
  | .silent => .isTrue fun _ => rfl
  | .scripted [] none _ => .isTrue fun _ => rfl
  | .scripted [] (some _) _ => .isFalse fun h => nomatch h 0
  | .scripted (_ :: _) _ _ => .isFalse fun h => nomatch h 0

/-- Entries of the journal that disturb no set. -/
def Entry.isCalm : Entry → Bool
  | .barred _ | .drained _ => false
  | _ => true

/-- The ticket of what a cursor returned last. -/
def Cursor.last? (c : Cursor) : Option Ticket :=
  c.current.map fun key => ⟨c.set, c.shard, key⟩

/-- What a client has to know of a cursor. -/
def Cursor.aim (c : Cursor) : SetId × Option Ticket :=
  (c.set, c.last?)

namespace World

/-! ## The dictionary of a set -/

/-- Set `s` has the living element `e` of value `v` under ticket `t`. -/
structure Has (w : World) (s : SetId) (v : Value) (e : ElementId) (t : Ticket) : Prop where
  owner : t.owner = s
  handle : ∃ h, w.handle? t = some h ∧ h.element = e
  alive : w.isAlive e
  value : w.value e = v

/-- The entries of a set: its handles of living elements. -/
def dict (w : World) (s : SetId) : Dict := fun v =>
  ((w.ticketsOf s).find? fun x => w.isAlive x.2.element && w.value x.2.element = v).map fun x =>
    (x.2.element, x.1)

/-- What a client has to know of a world. -/
def registry (w : World) : Registry where
  owners := w.owners
  sets := w.setNames
  cursors := w.cursors.mapValues Cursor.aim
  face := w.face
  dict := w.dict

variable {w w' w'' : World} {s : SetId} {v : Value} {e : ElementId} {t : Ticket}

/-- A world whose handles are all of weak references. -/
def IsWeak (w : World) : Prop :=
  ∀ t h, w.handle? t = some h → h.kind = .weak

theorem Has.unique {e' : ElementId} {t' : Ticket} (h : w.Has s v e t) (h' : w.Has s v e' t')
    (hd : w.Distinct) (hk : w.IsWeak) : e = e' ∧ t = t' := by
  obtain ⟨x, hx, rfl⟩ := h.handle
  obtain ⟨x', hx', rfl⟩ := h'.handle
  obtain rfl := hd t t' x x' (h.owner.trans h'.owner.symm) hx hx' (hk _ _ hx) (hk _ _ hx') h.alive
    h'.alive (h.value.trans h'.value.symm)
  rw [hx] at hx'
  exact ⟨by rw [Option.some.inj hx'], rfl⟩

theorem dict_eq_some (hd : w.Distinct) (hk : w.IsWeak) :
    w.dict s v = some (e, t) ↔ w.Has s v e t := by
  have hsome : ∀ {e t}, w.dict s v = some (e, t) → w.Has s v e t := by
    intro e t h
    obtain ⟨⟨t', x⟩, hf, he⟩ := Option.map_eq_some_iff.mp h
    obtain ⟨rfl, rfl⟩ := Prod.mk.injEq .. ▸ he
    obtain ⟨ho, hh⟩ := mem_ticketsOf.mp (List.mem_of_find?_eq_some hf)
    have hp := List.find?_some hf
    simp only [Bool.and_eq_true, decide_eq_true_eq] at hp
    exact ⟨ho, ⟨x, hh, rfl⟩, hp.1, hp.2⟩
  refine ⟨hsome, fun h => ?_⟩
  rcases hn : w.dict s v with _ | ⟨e', t'⟩
  · obtain ⟨x, hx, rfl⟩ := h.handle
    have := List.find?_eq_none.mp (Option.map_eq_none_iff.mp hn) (t, x)
      (mem_ticketsOf.mpr ⟨h.owner, hx⟩)
    simp [h.alive, h.value] at this
  · obtain ⟨rfl, rfl⟩ := h.unique (hsome hn) hd hk
    rfl

/-- A dictionary is known by what it has. -/
theorem dict_ext {m : Dict} (hd : w.Distinct) (hk : w.IsWeak)
    (h : ∀ v e t, w.Has s v e t ↔ m v = some (e, t)) : w.dict s = m := by
  funext v
  refine Option.ext fun x => ?_
  rw [dict_eq_some hd hk, h]

/-! ## What operations of a set leave as it is -/

/-- The kind of a channel. -/
def kind? (w : World) (c : ChannelId) : Option ChannelKind :=
  (w.channels[c]?).map Channel.kind

/-- Only set `s` has other handles, and each of some living elements has one more reference. -/
structure Framed (s : SetId) (es : List ElementId) (w w' : World) : Prop where
  rest : w' = { w with
    cells := w'.cells, channels := w'.channels, sets := w'.sets, journal := w'.journal }
  cells : w'.cells.size = w.cells.size
  sets : w'.sets.size = w.sets.size
  element : ∀ e, w'.element? e = w.element? e
  lent : ∀ e ∈ es, w.isAlive e
  strong : ∀ e, w'.strong e = w.strong e + es.count e
  mould : ∀ s', (w'.collection s').mould = (w.collection s').mould
  live : ∀ s', w'.isLive s' = w.isLive s'
  kinds : ∀ c, w'.kind? c = w.kind? c
  pending : ∀ c t, t ∈ w'.pending c → t ∈ w.pending c
  journal : ∀ x ∈ w'.journal.toList, x ∈ w.journal.toList ∨ x.isCalm
  handles : ∀ t, t.owner ≠ s → w'.handle? t = w.handle? t

namespace Framed

variable {es es' : List ElementId}

theorem refl (s : SetId) (w : World) : Framed s [] w w :=
  ⟨rfl, rfl, rfl, fun _ => rfl, by simp, fun _ => rfl, fun _ => rfl, fun _ => rfl, fun _ => rfl,
    fun _ _ h => h, fun _ h => .inl h, fun _ _ => rfl⟩

theorem isAlive (h : Framed s es w w') (e : ElementId) : w'.isAlive e = w.isAlive e := by
  rw [World.isAlive, World.isAlive, h.strong]
  by_cases he : e ∈ es
  · have := isAlive_iff.mp (h.lent e he)
    simp only [decide_eq_decide]
    omega
  · rw [List.count_eq_zero.mpr he, Nat.add_zero]

theorem value (h : Framed s es w w') (e : ElementId) : w'.value e = w.value e :=
  value_congr (h.element e)

theorem stays (h : Framed s es w w') : w.Stays w' :=
  ⟨by rw [h.rest], by rw [h.rest], fun s' hs' => (h.live s').trans hs'⟩

theorem trans (h : Framed s es w w') (h' : Framed s es' w' w'') : Framed s (es ++ es') w w'' where
  rest := by rw [h'.rest, h.rest]
  cells := h'.cells.trans h.cells
  sets := h'.sets.trans h.sets
  element e := (h'.element e).trans (h.element e)
  lent e he := by
    rcases List.mem_append.mp he with he | he
    · exact h.lent e he
    · rw [← h.isAlive]
      exact h'.lent e he
  strong e := by rw [h'.strong, h.strong, List.count_append, Nat.add_assoc]
  mould s' := (h'.mould s').trans (h.mould s')
  live s' := (h'.live s').trans (h.live s')
  kinds c := (h'.kinds c).trans (h.kinds c)
  pending c t ht := h.pending c t (h'.pending c t ht)
  journal x hx := (h'.journal x hx).elim (h.journal x) .inr
  handles t ht := (h'.handles t ht).trans (h.handles t ht)

/-- Only cells change. -/
theorem of_cells (hr : w' = { w with cells := w'.cells }) (hz : w'.cells.size = w.cells.size)
    (he : ∀ e, w'.element? e = w.element? e) (hl : ∀ e ∈ es, w.isAlive e)
    (hc : ∀ e, w'.strong e = w.strong e + es.count e) : Framed s es w w' where
  rest := by rw [hr]
  cells := hz
  sets := by rw [hr]
  element := he
  lent := hl
  strong := hc
  mould s' := by
    rw [hr]
    rfl
  live s' := by
    rw [hr]
    rfl
  kinds c := by
    rw [hr]
    rfl
  pending c t ht := by rwa [pending_congr (by rw [hr])] at ht
  journal x hx := by
    rw [hr] at hx
    exact .inl hx
  handles t _ := handle?_congr (by rw [hr]) t

/-- References come. -/
theorem of_counts (h : w.SameButCounts w') (hl : ∀ e ∈ es, w.isAlive e)
    (hc : ∀ e, w'.strong e = w.strong e + es.count e) : Framed s es w w' :=
  of_cells h.rest h.size h.element hl hc

/-- References are given back. -/
theorem giveBack (run : Runner) (h : Framed s es w w') :
    ∃ w'', (releaseAll run es).exec w' = (.ok (), w'') ∧ Framed s [] w w'' ∧ w'.SameButCounts w'' := by
  obtain ⟨w'', hx, hs, hc⟩ := exec_releaseAll_spare (w := w') run fun e he => by
    have := isAlive_iff.mp (h.lent e he)
    rw [h.strong]
    omega
  refine ⟨w'', hx, ?_, hs⟩
  exact
    { rest := by rw [hs.rest, h.rest]
      cells := hs.size.trans h.cells
      sets := by rw [hs.rest, h.sets]
      element e := (hs.element e).trans (h.element e)
      lent := by simp
      strong e := by
        have hce := hc e
        rw [h.strong] at hce
        simp only [List.count_nil]
        omega
      mould := by
        rw [hs.rest]
        exact h.mould
      live := by
        rw [hs.rest]
        exact h.live
      kinds := by
        rw [hs.rest]
        exact h.kinds
      pending := by
        rw [hs.rest]
        exact h.pending
      journal := by
        rw [hs.rest]
        exact h.journal
      handles := by
        rw [hs.rest]
        exact h.handles }

theorem unwatch (s : SetId) (w : World) (e : ElementId) (t : Ticket) :
    Framed s [] w (w.unwatch e t) :=
  of_cells (unwatch_eq w e t) (size_cells_unwatch w e t) (fun e' => element?_unwatch w e e' t)
    (by simp) fun e' => strong_unwatch w e e' t

/-- Neither cells nor channels change. -/
theorem of_sets (hr : w' = { w with sets := w'.sets, journal := w'.journal })
    (hz : w'.sets.size = w.sets.size)
    (hm : ∀ s', (w'.collection s').mould = (w.collection s').mould)
    (hl : ∀ s', w'.isLive s' = w.isLive s')
    (hj : ∀ x ∈ w'.journal.toList, x ∈ w.journal.toList ∨ x.isCalm)
    (hh : ∀ t, t.owner ≠ s → w'.handle? t = w.handle? t) : Framed s [] w w' where
  rest := by rw [hr]
  cells := by rw [hr]
  sets := hz
  element e := by
    rw [hr]
    rfl
  lent := by simp
  strong e := by
    rw [hr]
    rfl
  mould := hm
  live := hl
  kinds c := by
    rw [hr]
    rfl
  pending c t ht := by
    rw [hr] at ht
    exact ht
  journal := hj
  handles := hh

theorem note {x : Entry} (hx : x.isCalm) (s : SetId) (w : World) : Framed s [] w (w.note x) := by
  refine .of_sets rfl rfl (fun _ => rfl) (fun _ => rfl) (fun y hy => ?_) fun _ _ => rfl
  simp only [World.note, Array.toList_push, List.mem_append, List.mem_singleton] at hy
  rcases hy with hy | rfl
  · exact .inl hy
  · exact .inr hx

/-- A shard of the set changes. -/
theorem setShard {k : Nat} (hk : w.HasShard s k) (sh : Shard) :
    Framed s [] w (w.setShard s k sh) := by
  refine .of_sets rfl (size_sets_setShard sh) (mould_setShard hk sh) (isLive_setShard hk sh)
    (fun _ h => .inl h) fun t ht => ?_
  rw [handle?_setShard hk, if_neg fun h => ht h.1]

theorem takeOut (w : World) (t : Ticket) (d : Departure) :
    Framed t.owner [] w (w.takeOut t d).2 := by
  rcases takeOut_cases w t d with ⟨-, e⟩ | ⟨h, hh, e⟩ <;> rw [e]
  · exact .refl _ w
  · exact (setShard (hasShard_of_handle? hh) _).trans (note (by rfl) _ _)

theorem takeAll {k : Nat} (hk : w.HasShard s k) : Framed s [] w (w.takeAll s k).2 := by
  have hc := collection_congr (w.sets_takeAll (s := s) (k := k))
  refine .of_sets (by rw [takeAll_snd]; rfl) ?_ (fun s' => ?_) (fun s' => ?_) (fun x hx => ?_)
    fun t ht => ?_
  · rw [sets_takeAll]
    exact size_sets_setShard _
  · rw [hc]
    exact mould_setShard hk _ s'
  · rw [World.isLive, hc]
    exact isLive_setShard hk _ s'
  · rw [takeAll_snd] at hx
    simp only [Array.toList_append, List.mem_append, List.mem_map] at hx
    refine hx.imp id ?_
    rintro ⟨_, _, rfl⟩
    rfl
  · rw [handle?_takeAll hk, if_neg fun h => ht h.1]

theorem store {k : Nat} (hk : w.HasShard s k) (x : Handle) : Framed s [] w (w.store s k x).2 where
  rest := store_eq x
  cells := size_cells_store x
  sets := by rw [sets_store, size_sets_setShard]
  element := element?_store x
  lent := by simp
  strong := strong_store x
  mould s' := by rw [collection_congr (sets_store x), mould_setShard hk]
  live s' := by
    rw [isLive, collection_congr (sets_store x)]
    exact isLive_setShard hk _ s'
  kinds _ := rfl
  pending _ _ h := h
  journal y hy := by
    rw [store_eq, Array.toList_push, List.mem_append, List.mem_singleton] at hy
    rcases hy with hy | rfl
    · exact .inl hy
    · exact .inr rfl
  handles t ht := by rw [handle?_congr (sets_store x), handle?_setShard hk, if_neg fun h => ht h.1]

/-- The listener is called and has put the record down. -/
theorem call (s : SetId) (w : World) (r : Record) :
    Framed s [] w { w.call r with hands := w.hands } := by
  have hc : ∀ s', ∃ n, (w.call r).collection s' = { w.collection s' with calls := n } := by
    intro s'
    by_cases hs : r.ticket.owner < w.sets.size
    · have := collection_countCall hs s'
      by_cases he : s' = r.ticket.owner
      · rw [if_pos he] at this
        exact ⟨_, by rw [he] at this ⊢; exact this⟩
      · rw [if_neg he] at this
        exact ⟨_, this⟩
    · refine ⟨_, collection_congr ?_ s'⟩
      exact modify_sets_of_size_le (Nat.le_of_not_lt hs) fun c => { c with calls := c.calls + 1 }
  have hm := note (x := .reported r.ticket r.hash (r.last.map w.face) (w.isNamed r.ticket.owner))
    rfl s w
  refine .of_sets rfl (by simp [World.call, countCall, World.note]) (fun s' => ?_) (fun s' => ?_)
    hm.journal fun t _ => handle?_call w r t
  · obtain ⟨n, hn⟩ := hc s'
    exact (congrArg Collection.mould hn :)
  · obtain ⟨n, hn⟩ := hc s'
    exact (congrArg Collection.isLive hn :)

end Framed

/-- The handles of set `s` that are left: none is new, and those of living elements are left
exactly if `keep` holds of the element. -/
structure Trims (s : SetId) (keep : ElementId → Prop) (w w' : World) : Prop where
  old : ∀ t h, w'.handle? t = some h → w.handle? t = some h
  kept : ∀ t h, t.owner = s → w.isAlive h.element → w.handle? t = some h →
    (w'.handle? t = some h ↔ keep h.element)

namespace Trims

variable {keep keep' : ElementId → Prop} {es : List ElementId}

theorem of_handles (h : ∀ t, w'.handle? t = w.handle? t) : Trims s (fun _ => True) w w' :=
  ⟨fun t _ hx => h t ▸ hx, fun t _ _ _ hx => by simp [h, hx]⟩

theorem trans (h : Trims s keep w w') (h' : Trims s keep' w' w'') (hf : Framed s es w w') :
    Trims s (fun e => keep e ∧ keep' e) w w'' where
  old t x hx := h.old t x (h'.old t x hx)
  kept t x ho ha hx := by
    constructor
    · intro hx''
      have hx' := h'.old t x hx''
      exact ⟨(h.kept t x ho ha hx).mp hx', (h'.kept t x ho (by rwa [hf.isAlive]) hx').mp hx''⟩
    · rintro ⟨hk, hk'⟩
      have hx' := (h.kept t x ho ha hx).mpr hk
      exact (h'.kept t x ho (by rwa [hf.isAlive]) hx').mpr hk'

theorem congr (h : Trims s keep w w') (hk : ∀ e, keep e ↔ keep' e) : Trims s keep' w w' :=
  ⟨h.old, fun t x ho ha hx => by rw [h.kept t x ho ha hx, hk]⟩

/-- First nothing of interest goes. -/
theorem after (h : Trims s (fun _ => True) w w') (hf : Framed s es w w')
    (h' : Trims s keep w' w'') : Trims s keep w w'' :=
  (h.trans h' hf).congr fun _ => by simp

end Trims

/-! ## Quiet worlds -/

/-- No client code is in a world, its sets are weak and have queues of their own, and nothing is
under way. -/
structure Quiet (w : World) : Prop where
  scriptless : ∀ e x, w.element? e = some x → x.onDrop = none ∧ x.onEqual = none
  deaf : ∀ s, (w.collection s).listener.IsPlain
  weakSets : ∀ s < w.sets.size, (w.collection s).settings.kind = .weak
  weak : w.IsWeak
  distinct : w.Distinct
  queue : ∀ s < w.sets.size, w.kind? (w.channelOf s) = some .queue
  own : ∀ s < w.sets.size, ∀ s' < w.sets.size, w.channelOf s = w.channelOf s' → s = s'
  /-- What waits for a set is of handles whose element ended. -/
  notices : ∀ s < w.sets.size, ∀ t ∈ w.pending (w.channelOf s), t.owner = s →
    w.Issued t ∧ ∀ h, w.handle? t = some h → ¬ w.isAlive h.element
  /-- What waits anywhere is of sets that there are. -/
  addressed : ∀ c, ∀ t ∈ w.pending c, t.owner < w.sets.size
  unlocked : w.entered = []
  idle : w.hands = []
  calm : ∀ x ∈ w.journal.toList, x.isCalm
  named : ∀ x ∈ w.setNames, w.isLive x.2
  names : ∀ x ∈ w.setNames, ∀ y ∈ w.setNames, x.1 = y.1 ∨ x.2 = y.2 → x = y
  held : ∀ x ∈ w.cursors, w.isNamed x.2.set

theorem Formed.isWeak (hf : w.Formed) (hk : ∀ s < w.sets.size, (w.collection s).settings.kind = .weak) :
    w.IsWeak := fun t h hh => by
  rw [(hf.fits t h hh).kind]
  exact hk _ (hasShard_of_handle? hh).1

/-- No code comes into a world, no set comes or goes, and what comes to wait for a set is spent. -/
structure Tame (w w' : World) : Prop where
  stays : w.Stays w'
  locks : w'.entered = w.entered ∧ w'.hands = w.hands
  element : ∀ e x, w'.element? e = some x →
    w.element? e = some x ∨ x.onDrop = none ∧ x.onEqual = none
  sets : w'.sets.size = w.sets.size
  mould : ∀ s, (w'.collection s).mould = (w.collection s).mould
  kinds : ∀ c, w'.kind? c = w.kind? c
  pending : ∀ c t, t ∈ w'.pending c → t ∈ w.pending c ∨ w'.Spent t
  journal : ∀ x ∈ w'.journal.toList, x ∈ w.journal.toList ∨ x.isCalm

theorem Framed.tame {es : List ElementId} (hf : Framed s es w w') : w.Tame w' where
  stays := hf.stays
  locks := by
    rw [hf.rest]
    exact ⟨rfl, rfl⟩
  element e x hx := .inl (hf.element e ▸ hx)
  sets := hf.sets
  mould := hf.mould
  kinds := hf.kinds
  pending c t ht := .inl (hf.pending c t ht)
  journal := hf.journal

/-- What is tame keeps a world quiet. -/
theorem Quiet.tame {L : Scene} {D D' : Duties} (hq : w.Quiet) (hw : w.Sane D)
    (hc : Course L (w, D) (w', D')) (ht : w.Tame w') : w'.Quiet := by
  have hch : ∀ s', w'.channelOf s' = w.channelOf s' := fun s' => channelOf_eq (ht.mould s')
  have hset : ∀ s', (w'.collection s').settings = (w.collection s').settings := fun s' =>
    Collection.settings_eq (ht.mould s')
  have hweak : ∀ s < w'.sets.size, (w'.collection s).settings.kind = .weak := fun s' hs' => by
    rw [hset]
    exact hq.weakSets s' (ht.sets ▸ hs')
  exact
    { scriptless e x hx := (ht.element e x hx).elim (hq.scriptless e x) id
      deaf s' := by
        rw [Collection.listener_eq (ht.mould s')]
        exact hq.deaf s'
      weakSets := hweak
      weak := (hc.sane hw).formed.isWeak hweak
      distinct := hc.distinct hw hq.distinct
      queue s' hs' := by
        rw [hch, ht.kinds]
        exact hq.queue s' (ht.sets ▸ hs')
      own s₁ h₁ s₂ h₂ he := by
        rw [hch, hch] at he
        exact hq.own s₁ (ht.sets ▸ h₁) s₂ (ht.sets ▸ h₂) he
      notices s' hs' t hm ho := by
        rw [hch] at hm
        rcases ht.pending _ t hm with hm | hm
        · obtain ⟨hi, hd⟩ := hq.notices s' (ht.sets ▸ hs') t hm ho
          have hspent : w'.Spent t := hc.spent hw ⟨hi, hd⟩
          exact ⟨hspent.issued, hspent.ended⟩
        · exact ⟨hm.issued, hm.ended⟩
      addressed c t hm := by
        rcases ht.pending c t hm with hm | hm
        · rw [ht.sets]
          exact hq.addressed c t hm
        · exact lt_size_of_issued hm.issued
      unlocked := by
        rw [ht.locks.1]
        exact hq.unlocked
      idle := by
        rw [ht.locks.2]
        exact hq.idle
      calm x hx := (ht.journal x hx).elim (hq.calm x) id
      named x hx := by
        rw [ht.stays.names] at hx
        exact ht.stays.live _ (hq.named x hx)
      names := by
        rw [ht.stays.names]
        exact hq.names
      held x hx := by
        rw [ht.stays.cursors] at hx
        rw [isNamed, ht.stays.names]
        exact hq.held x hx }

/-- Operations of a set keep a world quiet. -/
theorem Quiet.framed {L : Scene} {D D' : Duties} {es : List ElementId} (hq : w.Quiet)
    (hw : w.Sane D) (hc : Course L (w, D) (w', D')) (hf : Framed s es w w') : w'.Quiet :=
  hq.tame hw hc hf.tame

/-! ## The registry after an operation -/

section Registry

variable {es : List ElementId} {keep : ElementId → Prop}

theorem Quiet.dict_eq_some (hq : w.Quiet) : w.dict s v = some (e, t) ↔ w.Has s v e t :=
  World.dict_eq_some hq.distinct hq.weak

theorem Framed.has (hf : Framed s es w w') {s' : SetId} (hne : s' ≠ s) :
    w'.Has s' v e t ↔ w.Has s' v e t := by
  constructor
  · rintro ⟨rfl, hh, ha, hv⟩
    exact ⟨rfl, by rwa [hf.handles t hne] at hh, by rwa [hf.isAlive] at ha, by rwa [hf.value] at hv⟩
  · rintro ⟨rfl, hh, ha, hv⟩
    exact ⟨rfl, by rwa [hf.handles t hne], by rwa [hf.isAlive], by rwa [hf.value]⟩

theorem Trims.has (ht : Trims s keep w w') (hf : Framed s es w w') :
    w'.Has s v e t ↔ w.Has s v e t ∧ keep e := by
  constructor
  · rintro ⟨rfl, ⟨h, hh, rfl⟩, ha, hv⟩
    rw [hf.isAlive] at ha
    have hw := ht.old t h hh
    exact ⟨⟨rfl, ⟨h, hw, rfl⟩, ha, by rwa [hf.value] at hv⟩, (ht.kept t h rfl ha hw).mp hh⟩
  · rintro ⟨⟨rfl, ⟨h, hh, rfl⟩, ha, hv⟩, hk⟩
    exact ⟨rfl, ⟨h, (ht.kept t h rfl ha hh).mpr hk, rfl⟩, by rwa [hf.isAlive], by rwa [hf.value]⟩

/-- The dictionary of another set stays as it is. -/
theorem Framed.dict (hf : Framed s es w w') (hq : w.Quiet) (hq' : w'.Quiet) {s' : SetId}
    (hne : s' ≠ s) : w'.dict s' = w.dict s' :=
  dict_ext hq'.distinct hq'.weak fun v e t => by rw [hf.has hne, hq.dict_eq_some]

theorem Trims.dict (ht : Trims s keep w w') (hf : Framed s es w w') (hq : w.Quiet) (hq' : w'.Quiet)
    {p : Value → ElementId → Prop} [∀ v e, Decidable (p v e)]
    (hp : ∀ e, keep e ↔ p (w.value e) e) : w'.dict s = (w.dict s).filter p :=
  dict_ext hq'.distinct hq'.weak fun v e t => by
    rw [ht.has hf, Dict.filter, Option.filter_eq_some_iff, hq.dict_eq_some, hp, decide_eq_true_eq]
    exact and_congr_right fun h => by rw [h.value]

/-- The dictionary stays as it is if no handle of a living element goes. -/
theorem Trims.dict_same (ht : Trims s (fun _ => True) w w') (hf : Framed s es w w') (hq : w.Quiet)
    (hq' : w'.Quiet) : w'.dict s = w.dict s := by
  rw [ht.dict hf hq hq' (p := fun _ _ => True) (by simp), Dict.filter_true]

/-- Of the registry, an operation of a set changes the entries of the set. -/
theorem Framed.registry (hf : Framed s es w w') (hq : w.Quiet) (hq' : w'.Quiet) {m : Dict}
    (hm : w'.dict s = m) : w'.registry = w.registry.update s m := by
  have hface : w'.face = w.face := funext fun e => face_congr (hf.element e)
  have hdict : w'.dict = fun s' => if s' = s then m else w.dict s' := by
    funext s'
    split
    · subst_vars
      rfl
    · rename_i hne
      exact hf.dict hq hq' hne
  have ho : w'.owners = w.owners := by rw [hf.rest]
  have hn : w'.setNames = w.setNames := by rw [hf.rest]
  have hc : w'.cursors = w.cursors := by rw [hf.rest]
  rw [World.registry, ho, hn, hc, hface, hdict]
  rfl

end Registry

end World

/-- An operation that takes nothing out changes nothing. -/
theorem World.Framed.registry_same {w w' : World} {s : SetId} {es : List ElementId}
    (hf : Framed s es w w') (hq : w.Quiet) (hq' : w'.Quiet) (ht : Trims s (fun _ => True) w w') :
    w'.registry = w.registry := by
  rw [hf.registry hq hq' (ht.dict_same hf hq hq')]
  exact w.registry.update_dict s

end WeakSet
