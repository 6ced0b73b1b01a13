import WeakSet.Proofs.Lifecycle
import WeakSet.Proofs.Locks
import WeakSet.Proofs.Mirror
import WeakSet.Proofs.Ownership
import WeakSet.Proofs.Visibility

/-!
# Operations leave other sets alone

`World.Confined S w w'` says that between worlds `w` and `w'` only the sets `S` were operated on: the
handles of every other set and the calls of its listener are as before, and so is every watcher that it
has on any element. A channel changed only if a set of `S` drained it, and no more than that. The journal
got entries about handles of the sets `S`, and those that a sweep took out or a listener was told of had
their own ticket waiting in the channel of their own set.

Each step of an operation is confined to its set. In particular `unwatch` takes only watchers of its set
away, since the channel of a set that exists is somebody's (`Confined.unwatch`). References that
operations take are never the last if every element has an owner and nobody's code runs. So no element
ends, and what operations do is made of such steps (`honoured_isolating`).
-/

namespace WeakSet

open Act

/-- Whether a script runs no command: there is none, or it panics at once. -/
def Script.isInert : Script → Bool
  | [] | .panic _ _ :: _ => true
  | _ => false

/-- Whether all scripts of a listener are inert. -/
def Listener.isInert : Listener Script → Bool
  | .silent => true
  | .scripted calls rest _ => calls.all Script.isInert && rest.all Script.isInert

theorem Listener.isInert_of_script? {l : Listener Script} {i : Nat} {script : Script}
    (hl : l.isInert) (hs : l.script? i = some script) : script.isInert := by
  cases l with
  | silent => cases hs
  | scripted calls rest verbose =>
    obtain ⟨hcalls, hrest⟩ := Bool.and_eq_true_iff.mp hl
    rcases h : calls[i]? with _ | call <;> rw [Listener.script?, h] at hs
    · obtain rfl : rest = some script := hs
      exact hrest
    · obtain rfl : call = script := Option.some.inj hs
      exact List.all_eq_true.mp hcalls call (List.mem_of_getElem? h)

/-- What operations of sets `S` that began in world `w` may add to the journal. -/
def Entry.IsOf (S : List SetId) (w : World) : Entry → Prop
  | .stored t _ => t.owner ∈ S
  | .departed t d => t.owner ∈ S ∧ (d = .swept → t ∈ w.pending (w.channelOf t.owner))
  | .reported t _ _ _ => t.owner ∈ S ∧ t ∈ w.pending (w.channelOf t.owner)
  | .barred s => s ∈ S
  | .noticed .. | .drained _ | .ended _ | .destroyed _ => False
  | _ => True

namespace World

/-- The watchers that a set has on an element. -/
def watchersOf (w : World) (s : SetId) (e : ElementId) : List Watcher :=
  (w.watchers e).filter fun x => x.ticket.owner = s

/-- Between two worlds only the sets `S` were operated on, and no element came or went. -/
structure Confined (S : List SetId) (w w' : World) : Prop where
  sets : ∀ s ∉ S, w'.sets[s]? = w.sets[s]?
  mould : ∀ s, (w'.collection s).mould = (w.collection s).mould
  watchers : ∀ s ∉ S, ∀ e, w'.watchersOf s e = w.watchersOf s e
  channels : ∀ c, w'.channels[c]? = w.channels[c]? ∨
    (∃ s ∈ S, c = w.channelOf s) ∧ w'.channels[c]? = (w.channels[c]?).map fun ch => ch.drain.2
  journal : ∃ l, w'.journal.toList = w.journal.toList ++ l ∧ ∀ x ∈ l, Entry.IsOf S w x
  alive : ∀ e, w'.isAlive e = w.isAlive e
  onEqual : ∀ e, w'.onEqual e = w.onEqual e

/-- Every watcher on a living element has a set that exists, and its channel. -/
def Vouched (w : World) : Prop :=
  ∀ e x, w.isAlive e → x ∈ w.watchers e →
    w.isLive x.ticket.owner ∧ x.channel = w.channelOf x.ticket.owner

variable {S : List SetId} {w w' w'' : World} {s : SetId} {e : ElementId} {t : Ticket}

theorem Point.vouched (h : w.Point 0) : w.Vouched := fun e x ha hx =>
  ⟨((h.mirrored.backed e x ha hx).resolve_right (Multiset.notMem_zero _)).2,
    (h.recorded.watched e x hx).2⟩

theorem mem_watchersOf {x : Watcher} : x ∈ w.watchersOf s e ↔ x ∈ w.watchers e ∧ x.ticket.owner = s := by
  simp [watchersOf]

namespace Confined

/-! ## One step after another -/

theorem refl (w : World) : Confined S w w :=
  ⟨fun _ _ => rfl, fun _ => rfl, fun _ _ _ => rfl, fun _ => .inl rfl, ⟨[], by simp, by simp⟩,
    fun _ => rfl, fun _ => rfl⟩

theorem channelOf (h : Confined S w w') (s : SetId) : w'.channelOf s = w.channelOf s :=
  channelOf_eq (h.mould s)

theorem listener (h : Confined S w w') (s : SetId) :
    (w'.collection s).listener = (w.collection s).listener :=
  Collection.listener_eq (h.mould s)

/-- What waits has waited before. -/
theorem pending (h : Confined S w w') {c : ChannelId} (ht : t ∈ w'.pending c) : t ∈ w.pending c := by
  rcases h.channels c with he | ⟨-, he⟩
  · rwa [World.pending, he] at ht
  · rw [World.pending, he] at ht
    rw [World.pending]
    rcases hch : w.channels[c]? with _ | ch <;> rw [hch] at ht
    · exact ht
    · exact Channel.mem_of_mem_rest ht

theorem isOf (h : Confined S w w') {x : Entry} (hx : x.IsOf S w') : x.IsOf S w := by
  cases x with
  | departed t d => exact ⟨hx.1, fun hd => h.pending (h.channelOf _ ▸ hx.2 hd)⟩
  | reported t _ _ _ => exact ⟨hx.1, h.pending (h.channelOf _ ▸ hx.2)⟩
  | _ => exact hx

theorem trans (h : Confined S w w') (h' : Confined S w' w'') : Confined S w w'' where
  sets s hs := (h'.sets s hs).trans (h.sets s hs)
  mould s := (h'.mould s).trans (h.mould s)
  watchers s hs e := (h'.watchers s hs e).trans (h.watchers s hs e)
  channels c := by
    rcases h'.channels c with he' | ⟨⟨s, hs, hc⟩, he'⟩
    · rw [he']
      exact h.channels c
    · refine .inr ⟨⟨s, hs, hc.trans (h.channelOf s)⟩, ?_⟩
      rcases h.channels c with he | ⟨-, he⟩
      · rw [he', he]
      · rw [he', he, Option.map_map]
        exact congrArg (fun f => (w.channels[c]?).map f) (funext fun ch => ch.drain_drain)
  journal := by
    obtain ⟨l, hl, hall⟩ := h.journal
    obtain ⟨l', hl', hall'⟩ := h'.journal
    refine ⟨l ++ l', by rw [hl', hl, List.append_assoc], fun x hx => ?_⟩
    exact (List.mem_append.mp hx).elim (hall x) fun hx => h.isOf (hall' x hx)
  alive e := (h'.alive e).trans (h.alive e)
  onEqual e := (h'.onEqual e).trans (h.onEqual e)

/-- Watchers of other sets are on living elements as before, and so their channels are somebody's. -/
theorem hasChannel (h : Confined S w w') (hw : w.Vouched) {x : Watcher} (ha : w'.isAlive e)
    (hx : x ∈ w'.watchers e) (hs : x.ticket.owner ∉ S) : w'.hasChannel x.channel := by
  have hx' : x ∈ w.watchers e :=
    (mem_watchersOf.mp (h.watchers _ hs e ▸ mem_watchersOf.mpr ⟨hx, rfl⟩)).1
  obtain ⟨hl, hc⟩ := hw e x (h.alive e ▸ ha) hx'
  have hset : w'.collection x.ticket.owner = w.collection x.ticket.owner := by
    rw [collection, collection, set?, set?, h.sets _ hs]
  have hl' : w'.isLive x.ticket.owner := by rwa [isLive, hset]
  rw [hc, ← h.channelOf]
  exact hasChannel_of_isLive (lt_size_of_isLive hl') hl'

/-! ## Steps -/

/-- Nothing changes that matters to sets. -/
theorem of_eq (hc : w'.cells = w.cells) (hs : w'.sets = w.sets) (hch : w'.channels = w.channels)
    (hj : w'.journal = w.journal) : Confined S w w' where
  sets s _ := by rw [hs]
  mould s := by rw [collection_congr hs]
  watchers s _ e := by rw [watchersOf, watchers_congr hc]; rfl
  channels c := .inl (by rw [hch])
  journal := ⟨[], by rw [hj, List.append_nil], by simp⟩
  alive e := by rw [isAlive, strong_congr hc]; rfl
  onEqual e := by rw [World.onEqual, hc]; rfl

/-- One of the sets changes, not what it is made from. -/
theorem modify (hs : s ∈ S) {f : Collection → Collection} (hf : ∀ c, (f c).mould = c.mould) :
    Confined S w { w with sets := w.sets.modify s f } where
  sets s' hs' := by
    rw [Array.getElem?_modify, if_neg]
    rintro rfl
    exact hs' hs
  mould s' := by
    by_cases hlt : s < w.sets.size
    · rw [collection_modify hlt]
      split
      · subst_vars; exact hf _
      · rfl
    · rw [modify_sets_of_size_le (Nat.le_of_not_lt hlt)]
  watchers _ _ _ := rfl
  channels _ := .inl rfl
  journal := ⟨[], by simp, by simp⟩
  alive _ := rfl
  onEqual _ := rfl

theorem setShard (hs : s ∈ S) (k : Nat) (sh : Shard) : Confined S w (w.setShard s k sh) :=
  .modify hs fun c => by simp [Collection.mould]

theorem entries (h : Confined S w w') {l : List Entry} (hl : ∀ x ∈ l, x.IsOf S w) :
    Confined S w { w' with journal := w'.journal ++ l.toArray } where
  sets := h.sets
  mould := h.mould
  watchers := h.watchers
  channels := h.channels
  journal := by
    obtain ⟨l', hl', hall⟩ := h.journal
    refine ⟨l' ++ l, by simp [hl'], fun y hy => ?_⟩
    exact (List.mem_append.mp hy).elim (hall y) (hl y)
  alive := h.alive
  onEqual := h.onEqual

theorem entry (h : Confined S w w') {x : Entry} (hx : x.IsOf S w) : Confined S w (w'.note x) := by
  have := h.entries (l := [x]) (by simpa using hx)
  rwa [← Array.push_eq_append] at this

theorem note {x : Entry} (hx : x.IsOf S w) : Confined S w (w.note x) :=
  (refl w).entry hx

/-- Only references change, and none is the last. -/
theorem of_counts (h : w.SameButCounts w') (ha : ∀ e, w'.isAlive e = w.isAlive e) :
    Confined S w w' where
  sets s _ := by rw [h.rest]
  mould s := by
    have hsets : w'.sets = w.sets := by rw [h.rest]
    rw [collection_congr hsets]
  watchers s _ e := by rw [watchersOf, h.watchers]; rfl
  channels c := .inl (by rw [h.rest])
  journal := ⟨[], by rw [h.rest, List.append_nil], by simp⟩
  alive := ha
  onEqual e := by rw [onEqual_eq, onEqual_eq, h.element]

theorem drain (hs : s ∈ S) : Confined S w (w.takeNotices s).2 := by
  have he : (w.takeNotices s).2 = { w with channels := (w.takeNotices s).2.channels } := drain_eq _ _
  refine ⟨fun s' _ => by rw [he], fun s' => by rw [he]; rfl, fun s' _ e => by rw [he]; rfl, fun c => ?_,
    ⟨[], by rw [he, List.append_nil], by simp⟩, fun e => by rw [he]; rfl, fun e => by rw [he]; rfl⟩
  rw [takeNotices, getElem?_channels_drain]
  by_cases hc : c = (w.collection s).channel
  · exact .inr ⟨⟨s, hs, hc⟩, by simp only [hc, ite_true]⟩
  · exact .inl (by simp only [hc, ite_false, Option.map_id'])

/-- A sweep may take out what waited when operations began. -/
theorem takeOut (h : Confined S w w') (hs : t.owner ∈ S) {d : Departure}
    (hd : d = .swept → t ∈ w.pending (w.channelOf t.owner)) : Confined S w (w'.takeOut t d).2 := by
  rcases takeOut_cases w' t d with ⟨-, e⟩ | ⟨x, -, e⟩ <;> rw [e]
  · exact h
  · exact (h.trans (setShard hs _ _)).entry (x := .departed t d) ⟨hs, hd⟩

theorem takeAll (hs : s ∈ S) (k : Nat) : Confined S w (w.takeAll s k).2 := by
  rw [takeAll_snd]
  refine (setShard hs k (w.shard s k).drain.2).entries fun x hx => ?_
  obtain ⟨y, hy, rfl⟩ := List.mem_map.mp hx
  exact ⟨(mem_ticketsIn.mp hy).1.symm ▸ hs, by simp⟩

theorem call (h : Confined S w w') {r : Record} (hs : r.ticket.owner ∈ S)
    (ht : r.ticket ∈ w.pending (w.channelOf r.ticket.owner)) : Confined S w (w'.call r) := by
  have hc : Confined S w (w'.countCall r.ticket.owner).2 :=
    h.trans (modify hs fun c => by simp [Collection.mould])
  have hx (face : Option Face) (named : Bool) : Entry.IsOf S w (.reported r.ticket r.hash face named) :=
    ⟨hs, ht⟩
  exact (hc.entry (hx _ _)).trans (of_eq rfl rfl rfl rfl)

/-- A set watches an element, or looks away from it. -/
theorem of_watchers (hr : w' = { w with cells := w'.cells })
    (hw : ∀ s ∉ S, ∀ e, w'.watchersOf s e = w.watchersOf s e) (hs : ∀ e, w'.strong e = w.strong e)
    (he : ∀ e, w'.element? e = w.element? e) : Confined S w w' where
  sets s _ := by rw [hr]
  mould s := by
    have hsets : w'.sets = w.sets := by rw [hr]
    rw [collection_congr hsets]
  watchers := hw
  channels c := .inl (by rw [hr])
  journal := ⟨[], by rw [hr, List.append_nil], by simp⟩
  alive e := by rw [isAlive, isAlive, hs]
  onEqual e := by rw [onEqual_eq, onEqual_eq, he]

theorem watch {x : Watcher} (hx : x.ticket.owner ∈ S) : Confined S w (w.watch e x) := by
  refine of_watchers rfl (fun s hs e' => ?_) (fun e' => strong_watch w e e' x)
    fun e' => element?_watch w e e' x
  by_cases he : e < w.cells.size
  · rw [watchersOf, watchers_watch he]
    split
    · have hne : x.ticket.owner ≠ s := fun h => hs (h ▸ hx)
      subst_vars
      simp [watchersOf, hne]
    · rfl
  · have hcells : (w.watch e x).cells = w.cells := by
      refine Array.ext_getElem? fun i => ?_
      rw [World.watch, Array.getElem?_modify]
      split
      · subst_vars; simp [Nat.le_of_not_lt he]
      · rfl
    rw [watchersOf, watchers_congr hcells]
    rfl

theorem store (hs : s ∈ S) (k : Nat) (x : Handle) : Confined S w (w.store s k x).2 :=
  have hx : Entry.IsOf S (w.setShard s k ((w.shard s k).insert x).2)
      (.stored (w.nextTicket s k x) x.element) := hs
  ((setShard hs k _).trans (note hx)).trans (watch hs)

/-- Other sets watch on when one looks away: their tickets are not this one, and their channels are
somebody's. -/
theorem unwatch (h : Confined S w w') (hw : w.Vouched) (ht : t.owner ∈ S) :
    Confined S w' (w'.unwatch e t) := by
  refine of_watchers (unwatch_eq w' e t) (fun s hs e' => ?_) (fun e' => strong_unwatch w' e e' t)
    fun e' => element?_unwatch w' e e' t
  rw [watchersOf, watchers_unwatch]
  split
  · rename_i he
    rw [he.1, watchersOf, List.filter_filter]
    refine List.filter_congr fun x hx => ?_
    by_cases hxs : x.ticket.owner = s
    · have hne : x.ticket ≠ t := fun hxt => hs (hxs ▸ hxt ▸ ht)
      simp [hxs, hne, h.hasChannel hw he.2 hx (hxs ▸ hs)]
    · simp [hxs]
  · rfl

theorem unwatchEach (h : Confined S w w') (hw : w.Vouched) {xs : List (Ticket × Handle)}
    (hxs : ∀ x ∈ xs, x.1.owner ∈ S) : Confined S w' (w'.unwatchEach xs) := by
  induction xs generalizing w' with
  | nil => exact .refl w'
  | cons x xs ih =>
    have hx := h.unwatch (e := x.2.element) hw (hxs x (by simp))
    exact hx.trans (ih (h.trans hx) fun y hy => hxs y (by simp [hy]))

theorem unmake (h : Confined S w w') (hw : w.Vouched) (hs : s ∈ S) : Confined S w' (w'.unmake s) := by
  have hx : ∀ x ∈ w'.ticketsOf s, x.1.owner ∈ S := fun x hx => (mem_ticketsOf.mp hx).1.symm ▸ hs
  rw [World.unmake, unwatchAll_eq]
  exact (h.unwatchEach hw hx).trans (modify hs fun c => by simp [Collection.mould])

end Confined

end World

open World

/-! ## Operations -/

/-- Operations of sets `S` are under way that began in world `w₀`, and every living element has an owner.
The cursors under some names are of these sets. -/
structure World.Isolating (w₀ : World) (S : List SetId) (names : String → Prop) (n : Standing)
    (F : Multiset ElementId) (w : World) : Prop where
  confined : Confined S w₀ w
  tallied : w.Tallied n.calls F
  owned : ∀ e, w.isAlive e → 0 < w.ownersOf e
  cursors : ∀ name, names name → ∀ c, w.cursors.find? name = some c → c.set ∈ S

/-- The condition that operations are confined to sets `S`. Listeners may panic, and entries may be
refused. -/
def Condition.isolating (w₀ : World) (S : List SetId) (names : String → Prop) : Condition where
  Holds := World.Isolating w₀ S names
  panics := True
  bars _ _ := True

/-- The scripts that operations of sets `S` come upon in a world, but for destructors, are inert. -/
structure World.Inert (w : World) (S : List SetId) : Prop where
  equality : ∀ e script, w.onEqual e = some script → script.isInert
  listener : ∀ s ∈ S, ∀ i script, (w.collection s).listener.script? i = some script → script.isInert

/-- An inert script changes nothing. -/
theorem Session.preserves_inert {P : World → Prop} {script : Script} (h : script.isInert) (depth : Nat)
    {role : Role} (hr : role ≠ .destructor) : Preserves P (runner depth role script) := by
  have hplay (act : Command → Act Reply) : Preserves P (play act role script) := by
    match script, h with
    | [], _ => exact .pure fun _ hw => hw
    | .panic name p :: cs, _ =>
      have he : panicOf? role (.panic name p) = some p := if_neg hr
      rw [play, he]
      exact .throw fun _ hw => hw
  cases depth with
  | zero => exact hplay _
  | succ depth => exact hplay _

section Isolating

variable {w₀ w w' : World} {S : List SetId} {names : String → Prop} {n n' : Standing}
  {F F' : Multiset ElementId} {s : SetId} {e : ElementId}

namespace World.Isolating

/-- A step that is confined, and leaves owners and cursors as they are. -/
theorem step (h : w₀.Isolating S names n F w) (hc : Confined S w₀ w') (ht : w'.Tallied n'.calls F')
    (ho : w'.owners = w.owners) (hcu : w'.cursors = w.cursors) : w₀.Isolating S names n' F' w' where
  confined := hc
  tallied := ht
  owned e ha := by
    rw [hc.alive, ← h.confined.alive] at ha
    rw [ownersOf, ho]
    exact h.owned e ha
  cursors name hn c hf := h.cursors name hn c (hcu ▸ hf)

theorem acquire (ha : w.isAlive e) (h : w₀.Isolating S names n F w) :
    w₀.Isolating S names n (e ::ₘ F) (w.acquire e) := by
  have hs := isAlive_iff.mp ha
  refine h.step (h.confined.trans (.of_counts (sameButCounts_acquire w e) fun e' => ?_))
    (h.tallied.acquire ha) rfl rfl
  rw [Bool.eq_iff_iff, isAlive_iff, isAlive_iff, strong_acquire (lt_size_of_strong hs)]
  split
  · subst_vars; omega
  · rfl

/-- What code under way holds has an owner besides. -/
theorem spare (h : w₀.Isolating S names n (e ::ₘ F) w) : 1 < w.strong e := by
  have hc := h.tallied.counted
  rw [Multiset.map_cons] at hc
  have := h.owned e (hc.isAlive_of_hold (Multiset.mem_cons_self _ _))
  have hs := hc.strong e
  rw [Multiset.count_cons_self] at hs
  omega

theorem release {run : Runner} (h : w₀.Isolating S names n (e ::ₘ F) w) :
    w₀.Isolating S names n F ((Act.release run e).exec w).2 := by
  obtain ⟨hn, hsame, hcount⟩ := release_spare h.spare
  have hx : ((Act.release run e).exec w).2 = (w.release e).2 := by
    rw [Act.release, exec_bind, exec_update, hn]
    rfl
  rw [hx]
  refine h.step (h.confined.trans (.of_counts hsame fun e' => ?_)) h.tallied.release
    (by rw [release_eq]) (by rw [release_eq])
  have hs := h.spare
  have hc := hcount e'
  rw [Bool.eq_iff_iff, isAlive_iff, isAlive_iff]
  split at hc
  · subst_vars; omega
  · omega

/-- Cursors change, and are of the sets. -/
theorem recursor (h : w₀.Isolating S names n F w) (cursors : Table Cursor) (walking : List SetId)
    (hc : ∀ name, names name → ∀ c, cursors.find? name = some c → c.set ∈ S) :
    w₀.Isolating S names n F { w with cursors := cursors, walking := walking } where
  confined := h.confined.trans (.of_eq rfl rfl rfl rfl)
  tallied := h.tallied.rename _ _ _ _ _
  owned := h.owned
  cursors := hc

variable (hw : w₀.Vouched)

include hw

theorem unwatch {t : Ticket} (h : w₀.Isolating S names n F w) (ht : t.owner ∈ S) :
    w₀.Isolating S names n F (w.unwatch e t) :=
  h.step (h.confined.trans (h.confined.unwatch hw ht)) (h.tallied.unwatch e t) (by rw [unwatch_eq])
    (by rw [unwatch_eq])

theorem unmake (h : w₀.Isolating S names n F w) (hs : s ∈ S) :
    w₀.Isolating S names n F (w.unmake s) :=
  h.step (h.confined.trans (h.confined.unmake hw hs)) (h.tallied.unmake s) (by rw [unmake_eq])
    (by rw [unmake_eq])

/-- A cursor gets a name under which there was at most one of the sets. -/
theorem putCursor (h : w₀.Isolating S names n F w) {name : String} {c : Cursor} (hn : names name)
    (hs : c.set ∈ S) : w₀.Isolating S names n F (w.putCursor name c) := by
  have hput : w₀.Isolating S names n F { w with cursors := w.cursors.put name c } := by
    refine h.recursor _ w.walking fun name' hn' c' hc' => ?_
    rw [Table.find?_put] at hc'
    split at hc'
    · obtain rfl := Option.some.inj hc'
      exact hs
    · exact h.cursors name' hn' c' hc'
  unfold World.putCursor
  split
  · exact hput
  · rename_i old hold
    exact retire_keeps (P := w₀.Isolating S names n F) _ hput fun h' =>
      h'.unmake hw (h.cursors name hn old hold)

end World.Isolating

theorem Entry.isOf_of_isRemark {x : Entry} (h : x.isRemark) : x.IsOf S w := by
  cases x <;> trivial

section Run

variable (hw : w₀.Vouched) (hi : w₀.Inert S) (depth : Nat)

include hw hi

theorem upheld_isolating (hs : s ∈ S) :
    (Condition.isolating w₀ S names).Upheld (Session.runner depth) s
      (fun t => t ∈ w₀.pending (w₀.channelOf s)) n where
  acquire ha h := h.acquire ha
  release h := h.release
  note hx h := h.step (h.confined.entry (Entry.isOf_of_isRemark hx))
    (h.tallied.note (Entry.isEnd_of_isRemark hx)) rfl rfl
  tell _ h := h.step (h.confined.entry trivial) (h.tallied.note rfl) rfl rfl
  barred _ h := ⟨h.step (h.confined.entry hs) (h.tallied.note rfl) rfl rfl, trivial⟩
  lock _ h := h.step (h.confined.trans (.of_eq rfl rfl rfl rfl))
    (h.tallied.of_cells rfl rfl rfl ⟨[], (List.append_nil _).symm, by simp⟩) rfl rfl
  unlock h := h.step (h.confined.trans (.of_eq rfl rfl rfl rfl))
    (h.tallied.of_cells rfl rfl rfl ⟨[], (List.append_nil _).symm, by simp⟩) rfl rfl
  equality {n F e script} := fun w h =>
    (Session.preserves_inert (hi.equality e script (h.1.confined.onEqual e ▸ h.2)) depth (by simp)).allow
      trivial w h.1
  listener {n F i script} := fun w h =>
    (Session.preserves_inert (hi.listener s hs i script (h.1.confined.listener s ▸ h.2)) depth
      (by simp)).allow trivial w h.1
  takeNotices {n F w} h := by
    refine ⟨h.step (h.confined.trans (.drain hs)) ?_ (by rw [takeNotices_eq])
      (by rw [takeNotices_eq]), fun t ht => ?_⟩
    · rw [takeNotices_eq]
      exact h.tallied.of_cells rfl rfl rfl ⟨[], (List.append_nil _).symm, by simp⟩
    · rw [← h.confined.channelOf]
      exact h.confined.pending (mem_of_mem_drain ht)
  takeOut {n F w t d} ht hd h := by
    subst ht
    refine h.step (h.confined.takeOut hs hd) (h.tallied.takeOut t d) ?_ ?_ <;>
      rcases takeOut_cases w t d with ⟨-, e⟩ | ⟨x, -, e⟩ <;> rw [e] <;> rfl
  takeAll {n F w k} h := by
    refine h.step (h.confined.trans (.takeAll hs k)) ?_ (by rw [takeAll_snd]; rfl)
      (by rw [takeAll_snd]; rfl)
    rw [takeAll_snd]
    refine h.tallied.of_cells rfl rfl rfl ⟨_, Array.toList_append .., fun x hx => ?_⟩
    obtain ⟨y, -, rfl⟩ := List.mem_map.mp hx
    rfl
  unwatch ht h := h.unwatch hw (ht.symm ▸ hs)
  call {n F w r} hr ht h := by
    subst hr
    exact h.step (h.confined.call hs ht) h.tallied.call rfl rfl
  putDown h := h.step (h.confined.trans (.of_eq rfl rfl rfl rfl)) h.tallied.putDown rfl rfl
  store {n F w k x} h := h.step (h.confined.trans (.store hs k x)) (h.tallied.store s k x) rfl rfl

/-- What is under the names of cursors, and the scripts of predicates. -/
theorem honoured_isolating :
    (Condition.isolating w₀ S names).Honoured (Session.runner depth)
      { sets := (· ∈ S), cursorNames := names, scripts := (Script.isInert ·) }
      (fun s t => t ∈ w₀.pending (w₀.channelOf s)) n where
  acquire ha h := h.acquire ha
  release h := h.release
  upheld hs := upheld_isolating hw hi depth hs
  borrow ho h := h.acquire (h.tallied.counted.isAlive_of_owner ho)
  remark hx h := h.step (h.confined.entry (Entry.isOf_of_isRemark hx))
    (h.tallied.note (Entry.isEnd_of_isRemark hx)) rfl rfl
  predicate hs := .allow trivial (Session.preserves_inert hs depth (by simp))
  own {F w name e} hn h :=
    { confined := h.confined.trans (.of_eq rfl rfl rfl rfl)
      tallied := h.tallied.own hn
      owned := fun e' ha => by
        rw [ownersOf, ownersOf_put hn]
        exact Nat.add_pos_left (h.owned e' ha) _
      cursors := h.cursors }
  save h := h.step (h.confined.trans (.of_eq rfl rfl rfl rfl)) (h.tallied.rename _ _ _ _ _) rfl rfl
  takeCursor {F w name c} hn hc h := h.recursor _ _ fun name' hn' c' hc' => by
    rw [Table.find?_erase] at hc'
    split at hc'
    · cases hc'
    · exact h.cursors name' hn' c' hc'
  returnCursor hn hs h := (h.recursor _ _ h.cursors).putCursor hw hn hs
  putCursor hn hs h := h.putCursor hw hn hs
  dropCursor {F w name c} hn hc h := by
    have herase := h.recursor (w.cursors.erase name) w.walking fun name' hn' c' hc' => by
      rw [Table.find?_erase] at hc'
      split at hc'
      · cases hc'
      · exact h.cursors name' hn' c' hc'
    exact retire_keeps (P := w₀.Isolating S names n F) _ herase fun h' =>
      h'.unmake hw (h.cursors name hn c hc)

end Run

end Isolating

/-! ## Commands -/

/-- The sets that a command operates on, also by dropping them. -/
def Command.targets (c : Command) (w : World) : List SetId :=
  match c with
  | .dropSet name => (w.setNames.find? name).toList
  | c => c.sets w

/-- Whether a command is an operation on a set, or drops one. -/
def Command.Operates (c : Command) (w : World) : Prop :=
  (c.set? w).isSome ∨ ∃ name, c = .dropSet name

namespace Session

variable {w : World} {depth : Nat} {c : Command}

/-- An operation is confined to its sets. -/
theorem confined_perform (depth : Nat) (hw : w.Point 0) (ht : w.Tallied 0 0) (hc : (c.set? w).isSome)
    (hi : w.Inert (c.sets w)) (hs : ∀ script ∈ c.scripts, script.isInert) (inScript : Bool) :
    Confined (c.sets w) w ((perform (runner depth) inScript c).exec w).2 := by
  -- a new cursor whose name is taken is refused
  by_cases hnew : ∃ name cursor, c = .newCursor name cursor ∧ (w.cursors.find? cursor).isSome
  · obtain ⟨name, cursor, rfl, hcur⟩ := hnew
    obtain ⟨s, hn⟩ := Option.isSome_iff_exists.mp hc
    obtain ⟨cu, hcu⟩ := Option.isSome_iff_exists.mp hcur
    have hx : (perform (runner depth) inScript (.newCursor name cursor)).exec w =
        (.ok (.refused .nameTaken), w) := by
      rw [perform, exec_withSet hn, exec_get_bind, hcu]
      rfl
    rw [hx]
    exact .refl w
  · have h : w.Isolating (c.sets w) (· ∈ c.cursorName?) {} 0 w :=
      { confined := .refl w
        tallied := ht
        owned := fun e ha => by rwa [← ht.strong_eq, ← isAlive_iff]
        cursors := fun name hn cu hcu => by
          cases c <;> cases hn <;> first
            | exact absurd ⟨_, _, rfl, by rw [hcu]; rfl⟩ hnew
            | simp [Command.sets, Command.set?, hcu] }
    have hA : (Condition.isolating w (c.sets w) (· ∈ c.cursorName?)).Honoured _ _ _ {} :=
      honoured_isolating hw.vouched hi depth
    have hcover := Remit.covers (R := { sets := (· ∈ c.sets w), cursorNames := (· ∈ c.cursorName?)
                                        scripts := (Script.isInert ·) }) hc (fun _ h => h) (fun _ h => h) hs
    have hx := (hA.perform (F := 0) inScript c).forget w ⟨h, hcover⟩
    rw [after_same] at hx
    exact hx.confined

/-- A set is dropped, its cursors first. -/
theorem confined_dropSet (hw : w.Point 0) (name : String) :
    Confined (w.setNames.find? name).toList w ((dropSet name).exec w).2 := by
  rcases hn : w.setNames.find? name with _ | s
  · have hx : (dropSet name).exec w = (.ok (.refused .noSet), w) := by
      rw [dropSet, withSet, exec_get_bind, hn]
      rfl
    rw [hx]
    exact .refl w
  · rw [dropSet, exec_withSet hn]
    have h : Confined [s] w { w with cursors := w.cursors.filter fun e => e.2.set ≠ s } :=
      .of_eq rfl rfl rfl rfl
    exact (h.trans (h.unmake hw.vouched List.mem_cons_self)).trans (.of_eq rfl rfl rfl rfl)

/-- Operations leave other sets alone. Whatever commands a client has carried out, an operation on a set
that runs no code but such as panics, the dropping of a set included, changes no other set: its handles
and the calls of its listener are as before, and so are its watchers on every element. A channel is as
before unless a set that is operated on has it and drains it. Only handles of the sets that are operated
on are stored, depart or are reported, and the ticket of one that a sweep takes out or reports is one
that its set has given out and that waited in the channel of its set. -/
theorem other_sets_left_alone (depth : Nat) (cs : List Command) (c : Command) :
    let w := carryOutAll depth .empty cs
    let S := c.targets w
    let w' := (carryOutWithin depth w c).2
    c.Operates w → w.Inert S → (∀ script ∈ c.scripts, script.isInert) →
      (∀ s ∉ S, w'.set? s = w.set? s ∧ ∀ e, w'.watchersOf s e = w.watchersOf s e) ∧
      (∀ ch, w'.channels[ch]? = w.channels[ch]? ∨
        (∃ s ∈ S, ch = w.channelOf s) ∧
          w'.channels[ch]? = (w.channels[ch]?).map fun ch => ch.drain.2) ∧
      ∃ l, w'.journal.toList = w.journal.toList ++ l ∧
        (∀ t e, .stored t e ∈ l → t.owner ∈ S) ∧
        (∀ t d, .departed t d ∈ l → t.owner ∈ S ∧
          (d = .swept → t ∈ w.pending (w.channelOf t.owner) ∧ t ∈ w'.books.stored)) ∧
        ∀ t hash last named, .reported t hash last named ∈ l → t.owner ∈ S ∧
          t ∈ w.pending (w.channelOf t.owner) ∧ t ∈ w'.books.stored := by
  intro w S w' hc hi hs
  have hw : w.Point 0 := point_carryOutAll depth cs
  have h : Confined S w w' := by
    rcases hc with hc | ⟨name, rfl⟩
    · have hS : S = c.sets w := by cases c <;> first | rfl | cases hc
      have hp := confined_perform depth hw (tallied_carryOutAll depth cs) hc (hS ▸ hi) hs false
      rw [← hS] at hp
      exact hp
    · exact confined_dropSet hw name
  have hk : w'.Kept 0 := ((course_carryOutWithin depth hw c).point hw).kept
  obtain ⟨l, hl, hall⟩ := h.journal
  have hswept {t : Ticket} (ht : t ∈ w'.books.reported) : t ∈ w'.books.swept := by
    have := hk.swept t
    rw [Multiset.count_zero] at this
    exact List.count_pos_iff.mp (this ▸ List.count_pos_iff.mpr ht)
  have hmem {x : Entry} (hx : x ∈ l) : x ∈ w'.journal.toList := hl ▸ List.mem_append_right _ hx
  refine ⟨fun s hs => ⟨h.sets s hs, h.watchers s hs⟩, h.channels, l, hl, fun t e hx => hall _ hx,
    fun t d hx => ⟨(hall _ hx).1, fun hd => ⟨(hall _ hx).2 hd, ?_⟩⟩,
    fun t hash last named hx => ⟨(hall _ hx).1, (hall _ hx).2, ?_⟩⟩
  · exact hk.stored_of_swept (mem_swept.mpr (hd ▸ hmem hx))
  · exact hk.stored_of_swept (hswept (mem_reported.mpr ⟨_, _, _, hmem hx⟩))

/-- Two sets with one channel share an element, and their handles have the same key in the same shard.
Both tickets wait in the channel, that of the second set first. The listener of the first panics. -/
def sharingRun : List Command :=
  [.newChannel "ch" (.ok .queue),
    .build "s" (.ok ⟨{ capacity := 4, concurrency := 1 }, some "ch", .constant 7,
      .scripted [] (some [.panic none .other]) false⟩),
    .build "t" (.ok ⟨{ capacity := 4, concurrency := 1 }, some "ch", .constant 7, .silent⟩),
    .new "x" (.number 1) none none, .insert "s" "x" (some "a"), .insert "t" "x" (some "b"),
    .enqueue "ch" ["b", "a"]]

/-- A sweep of the first set reports its own handle and leaves the other where it is. -/
theorem other_sets_left_alone_sharing :
    let w := carryOutAll 0 .empty sharingRun
    let w' := (carryOutWithin 0 w (.sweep "s")).2
    w.pending 0 = [⟨1, 0, 0, 1⟩, ⟨0, 0, 0, 1⟩] ∧ w'.books.reported = [⟨0, 0, 0, 1⟩] ∧
      w'.set? 1 = w.set? 1 ∧ w'.watchersOf 1 0 = w.watchersOf 1 0 := by
  intro w w'
  have hnone : w.Unhooked := by decide +kernel
  have htargets : (Command.sweep "s").targets w = [0] := by decide +kernel
  have hpanics : (w.collection 0).listener.isInert := by decide +kernel
  have hi : w.Inert ((Command.sweep "s").targets w) := by
    refine ⟨fun e script he => ?_, fun s hs i script h => ?_⟩
    · cases (hnone e).symm.trans he
    · obtain rfl := List.mem_singleton.mp (htargets ▸ hs)
      exact Listener.isInert_of_script? hpanics h
  have h := other_sets_left_alone 0 sharingRun (.sweep "s") (.inl (by decide +kernel)) hi
    (by simp [Command.scripts])
  obtain ⟨hset, hwatch⟩ := h.1 1 (by rw [htargets]; decide)
  exact ⟨by decide +kernel, by decide +kernel, hset, hwatch 0⟩

end Session

end WeakSet
