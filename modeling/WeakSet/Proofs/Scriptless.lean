import WeakSet.Proofs.Clients
import WeakSet.Proofs.Endings
import WeakSet.Proofs.Unscripted

/-!
# Clients that bring no code

Only code of the client's that runs under a lock can find a set locked. Where no element and no listener has
a script and predicates have none, no code of the client's runs at all, and so no entry to a set is refused
(`Session.codeless_carryOutAll`).
-/

namespace WeakSet

open Act

/-- No element and no listener has a script, and no entry to a set was refused. -/
structure World.Codeless (w : World) : Prop where
  scriptless : w.Scriptless
  deaf : ∀ s, (w.collection s).listener.IsPlain
  unbarred : ∀ s, .barred s ∉ w.journal.toList

/-- There is no code of the client's, and the locks are those that code under way holds. -/
def Condition.codeless : Condition where
  Holds n _ w := w.Codeless ∧ w.entered = n.locks
  panics := True
  bars _ _ := True

variable {run : Runner} {n : Standing} {w w' : World} {s : SetId} {e : ElementId}

namespace World

theorem listener_modify (w : World) (s s' : SetId) {f : Collection → Collection}
    (hf : ∀ c, (f c).listener = c.listener) :
    (({ w with sets := w.sets.modify s f } : World).collection s').listener =
      (w.collection s').listener := by
  by_cases hs : s < w.sets.size
  · rw [collection_modify hs]
    split
    · subst_vars
      exact hf _
    · rfl
  · rw [modify_sets_of_size_le (Nat.le_of_not_lt hs)]

/-- What an element is stays what it is, also when one that ended is let go of. -/
theorem element?_release_of_dead (h : ¬ 0 < w.strong e) (e' : ElementId) :
    (w.release e).2.element? e' = w.element? e' := by
  unfold release
  cases hc : w.cells[e]? with
  | none => rfl
  | some c =>
    have h1 : c.strong ≠ 1 := by
      rw [strong, hc] at h
      exact fun h1 => h (by simp [h1])
    have hlt := (Array.getElem?_eq_some_iff.mp hc).1
    simp only [if_neg h1, element?, Array.set!_eq_setIfInBounds, Array.getElem?_setIfInBounds]
    split
    · subst_vars
      rw [hc]
      rfl
    · rfl

namespace Codeless

theorem step (h : w.Codeless) (he : ∀ e, w'.element? e = w.element? e)
    (hl : ∀ s, (w'.collection s).listener = (w.collection s).listener)
    (hj : ∀ s, .barred s ∈ w'.journal.toList → .barred s ∈ w.journal.toList) : w'.Codeless where
  scriptless e x hx := h.scriptless e x (he e ▸ hx)
  deaf s := hl s ▸ h.deaf s
  unbarred s hm := h.unbarred s (hj s hm)

/-- Elements come and go, and references to them. -/
theorem of_cells (h : w.Codeless) (he : ∀ e, w'.element? e = w.element? e) (hs : w'.sets = w.sets)
    (hj : w'.journal = w.journal) : w'.Codeless :=
  h.step he (fun s => by rw [collection_congr hs]) fun s hm => hj ▸ hm

/-- A set changes but for its listener, and the journal gets entries. -/
theorem of_sets (h : w.Codeless) (he : ∀ e, w'.element? e = w.element? e)
    (hl : ∀ s, (w'.collection s).listener = (w.collection s).listener) {l : List Entry}
    (hj : w'.journal.toList = w.journal.toList ++ l) (hb : ∀ s, .barred s ∉ l) : w'.Codeless :=
  h.step he hl fun s hm => (List.mem_append.mp (hj ▸ hm)).resolve_right (hb s)

theorem note (h : w.Codeless) {x : Entry} (hx : ∀ s, x ≠ .barred s) : (w.note x).Codeless :=
  h.of_sets (fun _ => rfl) (fun _ => rfl) Array.toList_push fun s hm =>
    hx s (List.mem_singleton.mp hm).symm

theorem setShard (h : w.Codeless) (s : SetId) (k : Nat) (sh : Shard) : (w.setShard s k sh).Codeless :=
  h.step (fun _ => rfl) (fun s' => listener_modify w s s' fun _ => rfl) fun _ => id

theorem takeOut (h : w.Codeless) (t : Ticket) (d : Departure) : (w.takeOut t d).2.Codeless := by
  rcases takeOut_cases w t d with ⟨-, e⟩ | ⟨x, -, e⟩ <;> rw [e]
  · exact h
  · exact (h.setShard _ _ _).note (by simp)

theorem takeAll (h : w.Codeless) (s : SetId) (k : Nat) : (w.takeAll s k).2.Codeless := by
  rw [takeAll_snd]
  refine (h.setShard s k (w.shard s k).drain.2).of_sets (fun _ => rfl) (fun _ => rfl)
    (Array.toList_append ..) fun s hm => ?_
  obtain ⟨y, -, hy⟩ := List.mem_map.mp hm
  cases hy

theorem store (h : w.Codeless) (s : SetId) (k : Nat) (x : Handle) : (w.store s k x).2.Codeless := by
  have h' : ((w.setShard s k ((w.shard s k).insert x).2).note
      (.stored (w.nextTicket s k x) x.element)).Codeless := (h.setShard ..).note (by simp)
  exact h'.of_cells (fun e => element?_watch _ _ e _) rfl rfl

theorem release (h : w.Codeless) (e : ElementId) : (w.release e).2.Codeless := by
  obtain ⟨l, hl, hall⟩ := journal_release w e
  refine h.of_sets (fun e' => ?_) (fun s => ?_) hl fun s hm => nomatch hall _ hm
  · by_cases ha : 0 < w.strong e
    · exact element?_release ha e'
    · exact element?_release_of_dead ha e'
  · exact congrArg _ (collection_congr (w := w) (by rw [release_eq]) s)

theorem call (h : w.Codeless) (r : Record) : (w.call r).Codeless := by
  have hc : (w.countCall r.ticket.owner).2.Codeless :=
    h.step (fun _ => rfl) (fun s => listener_modify w r.ticket.owner s fun _ => rfl) fun _ => id
  exact hc.of_sets (fun _ => rfl) (fun _ => rfl) Array.toList_push (by simp)

theorem newSet (h : w.Codeless) {b : Blueprint} (hb : b.listener.IsPlain) (channel : Option ChannelId) :
    (w.newSet b channel).2.Codeless := by
  obtain ⟨c, v, hv, he⟩ := w.newSet_snd b channel
  have hv : v.Codeless := by
    rcases hv with ⟨-, rfl⟩ | ⟨-, -, rfl⟩
    · exact h
    · exact h.of_cells (fun _ => rfl) rfl rfl
  rw [he]
  refine ⟨fun e x hx => hv.scriptless e x hx, fun s => ?_, hv.unbarred⟩
  rw [collection_push]
  split
  · exact hb
  · exact hv.deaf s

theorem unmake (h : w.Codeless) (s : SetId) : (w.unmake s).Codeless := by
  rw [unmake_eq]
  exact h.step (fun e => element?_unwatchEach _ _ e) (fun s' => listener_modify w s s' fun _ => rfl)
    fun _ => id

end Codeless

end World

open World

/-! ## Every step -/

variable (run) in
theorem lends_codeless : Condition.codeless.Lends run where
  acquire _ h := ⟨h.1.of_cells (fun e => element?_acquire _ _ e) rfl rfl, h.2⟩
  release {n F w e} h := by
    rw [exec_release run h.1.scriptless e]
    exact ⟨h.1.release e, by rw [release_eq]; exact h.2⟩

variable (run s) in
theorem kept_codeless : Condition.codeless.Kept run s fun _ => True where
  toLends := lends_codeless run
  note {n F w x} hx h := ⟨h.1.note (by rintro s rfl; cases hx), h.2⟩
  tell _ h := ⟨h.1.note (by simp), h.2⟩
  lock _ h := ⟨h.1.of_cells (fun _ => rfl) rfl rfl, congrArg (s :: ·) h.2⟩
  unlock {n F w} h :=
    ⟨h.1.of_cells (fun _ => rfl) rfl rfl, by rw [World.unlock, h.2]; exact swapRemove_cons_self ..⟩
  -- there are no such scripts
  equality w h := nomatch h.2 ▸ Scriptless.unhooked h.1.1.scriptless _
  listener {n F i script} w h := nomatch h.2 ▸ h.1.1.deaf s i
  takeNotices h := by
    rw [takeNotices_eq]
    exact ⟨⟨h.1.of_cells (fun _ => rfl) rfl rfl, h.2⟩, fun _ _ => trivial⟩
  takeOut {n F w t d} _ _ h := by
    refine ⟨h.1.takeOut t d, ?_⟩
    rcases takeOut_cases w t d with ⟨-, e⟩ | ⟨x, -, e⟩ <;> rw [e] <;> exact h.2
  takeAll {n F w k} h := ⟨h.1.takeAll s k, by rw [takeAll_snd]; exact h.2⟩
  unwatch {n F w e t} _ h := by
    rw [unwatch_eq]
    exact ⟨h.1.of_cells (fun e' => element?_unwatch w e e' t) rfl rfl, h.2⟩
  call {n F w r} _ _ h := ⟨h.1.call r, h.2⟩
  putDown h := ⟨h.1.of_cells (fun _ => rfl) rfl rfl, h.2⟩
  store {n F w k x} h := ⟨h.1.store s k x, h.2⟩

variable (run) in
/-- Where no set is locked, no entry is refused. -/
theorem upheld_codeless (hn : n.locks = []) (s : SetId) :
    Condition.codeless.Upheld run s (fun _ => True) n where
  toKept := kept_codeless run s
  barred {F w} hs h := by
    rw [h.2, hn] at hs
    cases hs

variable (run) in
/-- No step of a client without scripts runs code of the client's. -/
theorem total_codeless (hn : n.locks = []) : Condition.codeless.Total run False n where
  toLends := lends_codeless run
  panics := trivial
  indebted s G := upheld_codeless run (n := n.owe G) hn s
  remark {F w x} hx h := ⟨h.1.note (by rintro s rfl; cases hx), h.2⟩
  create {F w x} hx h := by
    refine ⟨⟨fun e y hy => ?_, h.1.deaf, h.1.unbarred⟩, h.2⟩
    rw [element?_create] at hy
    split at hy
    · exact Option.some.inj hy ▸ hx.resolve_right id
    · exact h.1.scriptless e y hy
  newSet {F w b channel} _ hb h :=
    ⟨h.1.newSet (hb.resolve_right id) channel, by rw [newSet_eq]; exact h.2⟩
  unmake {F w s} h := ⟨h.1.unmake s, by rw [unmake_eq]; exact h.2⟩
  predicate h := h.elim
  borrow {F w name e} _ h := ⟨h.1.of_cells (fun e' => element?_acquire w e e') rfl rfl, h.2⟩
  own _ h := ⟨h.1.of_cells (fun _ => rfl) rfl rfl, h.2⟩
  disown _ h := ⟨h.1.of_cells (fun _ => rfl) rfl rfl, h.2⟩
  channels _ h := ⟨h.1.of_cells (fun _ => rfl) rfl rfl, h.2⟩
  rename _ _ _ _ _ h := ⟨h.1.of_cells (fun _ => rfl) rfl rfl, h.2⟩
  posted c t h := ⟨h.1.note (by simp), h.2⟩
  drained c h := ⟨h.1.note (by simp), h.2⟩
  takeRecord _ h := ⟨h.1.of_cells (fun _ => rfl) rfl rfl, h.2⟩

/-! ## Runs -/

theorem World.codeless_empty : World.empty.Codeless where
  scriptless e x h := by simp [World.empty, element?] at h
  deaf s := fun _ => rfl
  unbarred s h := by simp [World.empty] at h

/-- In the run of a client that brings no scripts no code of the client's runs, and no entry to a set is
refused. -/
theorem Session.codeless_carryOutAll (depth : Nat) {cs : List Command}
    (hc : ∀ c ∈ cs, c.IsScriptless) :
    (carryOutAll depth .empty cs).Codeless ∧ (carryOutAll depth .empty cs).entered = [] := by
  have h : ∀ w : World, Condition.codeless {} 0 w → Condition.codeless {} 0 (carryOutAll depth w cs) := by
    induction cs with
    | nil => exact fun w hw => hw
    | cons c cs ih =>
      exact fun w hw => ih (fun c' hc' => hc c' (List.mem_cons_of_mem _ hc')) _
        (((total_codeless (runner depth) rfl).perform (.inl (hc c (by simp))) false).exec hw)
  exact h _ ⟨codeless_empty, rfl⟩

end WeakSet
