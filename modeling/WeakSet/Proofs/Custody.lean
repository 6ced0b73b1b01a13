import WeakSet.Proofs.Borrowing
import WeakSet.Proofs.Ensures
import WeakSet.Proofs.Passages
import WeakSet.Proofs.Walking

/-!
# Custody of references

A `Condition` on a world may count the references that code under way holds, the listener calls that
are under way, the locks that are held and the lines that are still owed to the log. `Condition.Kept`
lists the steps that operations of a set are made of, with what each takes and gives: an upgrade gives a
reference, a release takes one, a listener call has the one of its record in hand, and a handle that came
or went is told of later. What all these steps keep, every operation of the set keeps, whether it has a
result or ends with a panic, and it lets go of exactly what it took (`Upheld.insert` and so on). It panics
only where the condition lets client code panic, or entries be refused. An operation enters the set with
the locks that are held when it begins, so only of those the condition has to say what refused entries do
(`Condition.Upheld`).

Nothing is said of the world but the condition. So a condition may be as coarse as a count of
references or as fine as what the operations of one set leave alone in another.
-/

namespace WeakSet

open Act

/-- Entries of the journal that only say what operations did: lines of the log, but for those that tell
what became of a handle, comparisons, questions to a predicate. -/
def Entry.isRemark : Entry → Bool
  | .line l => l.passage?.isNone
  | .compared _ | .considered _ | .crewBegan | .crewEnded => true
  | _ => false

/-- What code under way has begun and not yet ended: listener calls, and locks on sets, the latest
first; and what became of handles that it has not yet told. -/
structure Standing where
  calls : Nat := 0
  locks : List SetId := []
  owed : Multiset Passage := 0

namespace Standing

def call (n : Standing) : Standing :=
  { n with calls := n.calls + 1 }

def lock (n : Standing) (s : SetId) : Standing :=
  { n with locks := s :: n.locks }

def owe (n : Standing) (D : Multiset Passage) : Standing :=
  { n with owed := D + n.owed }

@[simp] theorem owe_zero (n : Standing) : n.owe 0 = n := by
  rw [owe, Multiset.zero_add]

theorem owe_owe (n : Standing) (D D' : Multiset Passage) : (n.owe D).owe D' = n.owe (D' + D) := by
  rw [owe, owe, owe, Multiset.add_assoc]

end Standing

/-- What is true of a world while code stands so and holds some references, and what panics there may
be. -/
structure Condition where
  Holds : Standing → Multiset ElementId → World → Prop
  /-- Whether the client's code may let panics out. -/
  panics : Prop
  /-- Whether code that stands so may be refused entry to a set. -/
  bars : Standing → SetId → Prop

instance : CoeFun Condition fun _ => Standing → Multiset ElementId → World → Prop :=
  ⟨Condition.Holds⟩

/-- Whether an operation of a set may panic. -/
def Condition.fails (A : Condition) (n : Standing) (s : SetId) : Prop :=
  A.panics ∨ A.bars n s

/-- The reference that comes with a record. -/
def Record.refs (r : Record) : Multiset ElementId :=
  (r.last.toList : List ElementId)

/-- References that are taken and let go of are counted, also where the last one is let go of and a
destructor runs. -/
structure Condition.Lends (A : Condition) (run : Runner) : Prop where
  acquire : ∀ {n F w e}, w.isAlive e → A n F w → A n (e ::ₘ F) (w.acquire e)
  release : ∀ {n F w e}, A n (e ::ₘ F) w → A n F ((Act.release run e).exec w).2

/-- Every step of an operation of set `s` keeps a condition, but for refused entries. `T` is what is known of
the tickets that the channel of the set delivers. -/
structure Condition.Kept (A : Condition) (run : Runner) (s : SetId) (T : Ticket → Prop) : Prop
    extends A.Lends run where
  note : ∀ {n F w x}, Entry.isRemark x → A n F w → A n F (w.note x)
  tell : ∀ {n F w l p}, LogLine.passage? l = some p → A (n.owe {p}) F w → A n F (w.note (.line l))
  lock : ∀ {n F w}, s ∉ w.entered → A n F w → A (n.lock s) F (w.lock s)
  unlock : ∀ {n F w}, A (n.lock s) F w → A n F (w.unlock s)
  equality : ∀ {n F e script}, Ensures (fun w => A n F w ∧ w.onEqual e = some script)
    (run .equality script) (fun _ => A n F) fun w => A n F w ∧ A.panics
  listener : ∀ {n F i script},
    Ensures (fun w => A n F w ∧ (w.collection s).listener.script? i = some script)
      (run .listener script) (fun _ => A n F) fun w => A n F w ∧ A.panics
  takeNotices : ∀ {n F w}, A n F w → A n F (w.takeNotices s).2 ∧ ∀ t ∈ (w.takeNotices s).1, T t
  takeOut : ∀ {n F w t d}, t.owner = s → (d = .swept → T t) → A n F w →
    A (n.owe (d.owed t (w.takeOut t d).1)) F (w.takeOut t d).2
  takeAll : ∀ {n F w k}, A n F w → A n F (w.takeAll s k).2
  unwatch : ∀ {n F w e t}, t.owner = s → A n F w → A n F (w.unwatch e t)
  call : ∀ {n F w r}, r.ticket.owner = s → T r.ticket → A n (r.refs + F) w → A n.call F (w.call r)
  putDown : ∀ {n F w}, A n.call F w →
    A n (((w.hands.head?.join.bind Record.last).toList : List ElementId) + F)
      { w with hands := w.hands.tail }
  store : ∀ {n F w k h}, A n F w → A (n.owe {.inserted (w.store s k h).1}) F (w.store s k h).2

/-- Every step of an operation of set `s` that begins while code stands as `n` says keeps a condition. -/
structure Condition.Upheld (A : Condition) (run : Runner) (s : SetId) (T : Ticket → Prop) (n : Standing) :
    Prop extends A.Kept run s T where
  barred : ∀ {F w}, s ∈ w.entered → A n F w → A n F (w.note (.barred s)) ∧ A.bars n s

/-! ## References -/

/-- The references of a list of keys and elements. -/
abbrev pinnedRefs (xs : List (SlotKey × ElementId)) : Multiset ElementId :=
  ((xs.map Prod.snd : List ElementId) : Multiset ElementId)

/-- The references of what a cursor sees. -/
def sightRefs : Cursor.Sight → Multiset ElementId
  | .element e => {e}
  | _ => 0

namespace Condition.Lends

variable {A : Condition} {run : Runner} (hA : A.Lends run) {n : Standing} {F G : Multiset ElementId}
  {E : World → Prop} {d : Prop} {α : Type}

include hA

theorem upgrade (e : ElementId) :
    Ensures (A n F) (upgrade e) (fun e? => A n ((e?.toList : List ElementId) + F)) E := by
  intro w hw
  rw [Act.upgrade, exec_update]
  split
  · rename_i h
    exact hA.acquire h hw
  · show A n (0 + F) w
    rwa [Multiset.zero_add]

theorem reach (h : Handle) :
    Ensures (A n F) (reach h) (fun e? => A n ((e?.toList : List ElementId) + F)) E := by
  unfold Act.reach
  split
  · exact hA.upgrade _
  · exact .pure fun w hw => (Multiset.zero_add F).symm ▸ hw

theorem releaseOne (e : ElementId) :
    Ensures (A n (e ::ₘ F)) (Act.release run e) (fun _ => A n F) E := by
  intro w hw
  have h := hA.release hw
  obtain ⟨w', hx⟩ := Act.exec_release run e w
  rw [hx] at h ⊢
  exact h

theorem releaseAll (es : List ElementId) :
    Ensures (A n ((es : Multiset ElementId) + F)) (releaseAll run es) (fun _ => A n F) E := by
  induction es with
  | nil => exact .pure fun w hw => by simpa using hw
  | cons e es ih =>
    rw [← Multiset.cons_coe, Multiset.cons_add]
    exact .bind (hA.releaseOne e) fun _ => ih

/-- What an act holds is let go of however it ends. -/
theorem holding {es : List ElementId} {a : Act α} {K : α → Multiset ElementId}
    (ha : Ensures (A n ((es : Multiset ElementId) + F)) a
      (fun x => A n ((es : Multiset ElementId) + K x))
      fun w => A n ((es : Multiset ElementId) + G) w ∧ d) :
    Ensures (A n ((es : Multiset ElementId) + F)) (holding run es a) (fun x => A n (K x))
      fun w => A n G w ∧ d := by
  refine .attempt ha fun r => ?_
  cases r with
  | ok x => exact .bind (hA.releaseAll es) fun _ => .pure fun _ hw => hw
  | error p => exact .fact fun hd => .bind (hA.releaseAll es) fun _ => .throw fun _ hw => ⟨hw, hd⟩

theorem balanced_holding {es : List ElementId} {a : Act α}
    (ha : Sustains d (A n ((es : Multiset ElementId) + F)) a) :
    Ensures (A n ((es : Multiset ElementId) + F)) (Act.holding run es a) (fun _ => A n F)
      fun w => A n F w ∧ d :=
  hA.holding (K := fun _ => F) ha

theorem pinAll (xs : List (SlotKey × Handle)) :
    Ensures (A n F) (pinAll xs) (fun ps => A n (pinnedRefs ps + F)) E := by
  induction xs generalizing F with
  | nil => exact .pure fun w hw => by simpa [pinnedRefs] using hw
  | cons x xs ih =>
    obtain ⟨key, h⟩ := x
    refine .bind (hA.upgrade h.element) fun e? => ?_
    cases e? with
    | none => exact .imp ih fun w hw => (Multiset.zero_add F) ▸ hw
    | some e =>
      refine .bind ih fun ps => .pure fun w hw => ?_
      rw [pinnedRefs, List.map_cons, ← Multiset.cons_coe, Multiset.cons_add, ← Multiset.add_cons]
      exact hw

theorem reachAll (xs : List (SlotKey × Handle)) :
    Ensures (A n F) (reachAll xs) (fun r => A n ((r.1 : Multiset ElementId) + F)) E := by
  induction xs generalizing F with
  | nil => exact .pure fun w hw => by simpa using hw
  | cons x xs ih =>
    obtain ⟨key, h⟩ := x
    refine .bind (hA.reach h) fun e? => ?_
    cases e? with
    | none =>
      exact .bind (.imp ih fun w hw => (Multiset.zero_add F) ▸ hw) fun _ => .pure fun _ hw => hw
    | some e =>
      refine .bind ih fun r => .pure fun w hw => ?_
      rw [← Multiset.cons_coe, Multiset.cons_add, ← Multiset.add_cons]
      exact hw

theorem sight (s : SetId) (k : Nat) (key : SlotKey) :
    Ensures (A n F) (Cursor.sight s k key) (fun x => A n (sightRefs x + F)) E := by
  refine .look fun sh => .left ?_
  rcases sh.get? key with _ | h
  · exact .pure fun w hw => (Multiset.zero_add F).symm ▸ hw
  · refine .bind (hA.reach h) fun e? => ?_
    cases e? with
    | some e => exact .pure fun _ hw => hw
    | none =>
      refine .look fun alive => .left ?_
      split
      · exact .pure fun _ hw => hw
      · exact .pure fun _ hw => hw

end Condition.Lends

namespace Condition.Kept

variable {A : Condition} {run : Runner} {s : SetId} {T : Ticket → Prop} (hA : A.Kept run s T)
  {n : Standing} {F : Multiset ElementId} {E : World → Prop}

include hA

theorem log {l : LogLine} (hl : l.passage? = none) : Ensures (A n F) (log l) (fun _ => A n F) E :=
  .last (.note (fun _ => hA.note (by simp [Entry.isRemark, hl])) (.pure fun _ hw => hw))

/-- A line that tells what is owed. -/
theorem told {l : LogLine} {p : Passage} (hl : l.passage? = some p) :
    Ensures (A (n.owe {p}) F) (Act.log l) (fun _ => A n F) E :=
  .last (.note (fun _ => hA.tell hl) (.pure fun _ hw => hw))

/-! ## Reports -/

theorem forget {t : Ticket} (ht : t.owner = s) (h : Handle) :
    Ensures (A n F) (forget t h) (fun _ => A n F) E :=
  .last (.change (fun _ => hA.unwatch ht) (.pure fun _ hw => hw))

theorem closeBooks {t : Ticket} (ht : t.owner = s) (h : Handle) :
    Ensures (A (n.owe {.reclaimed t}) F) (closeBooks t h)
      (fun r w => A n (r.refs + F) w ∧ r.ticket = t) E := by
  refine .look fun ended => .bind (hA.forget ht h).left fun _ => ?_
  refine .bind (hA.told rfl) fun _ => .bind (hA.reach h) fun e? => .pure fun w hw => ⟨hw, rfl⟩

theorem listen (i : Nat) :
    Ensures (A n.call F) (listen run s i) (fun _ => A n F) fun w => A n F w ∧ A.panics := by
  refine .attempt (E := fun w => A n.call F w ∧ A.panics) (Q := fun _ => A n.call F) ?_ fun r => ?_
  · refine .look fun c => ?_
    split
    · exact .pure fun _ hw => hw.1
    · rename_i script hs
      exact .imp hA.listener fun w hw => ⟨hw.1, hw.2 ▸ hs⟩
  -- however the script ended, the record is put down
  refine Ensures.imp (P := fun w => A n.call F w ∧ ∀ p, r = .error p → A.panics)
    (.fact fun hr => ?_) fun w hw => ?_
  · have hend : Ensures (A n F) (settle r) (fun _ => A n F) fun w => A n F w ∧ A.panics := by
      cases r with
      | ok => exact .pure fun _ hw => hw
      | error p => exact .throw fun _ hw => ⟨hw, hr p rfl⟩
    refine .update (R := fun o => A n (((o.bind Record.last).toList : List ElementId) + F))
      (fun _ hw => hA.putDown hw) fun left => ?_
    rcases left.bind Record.last with _ | e
    · exact .imp hend fun _ hw => (Multiset.zero_add F) ▸ hw
    · exact .bind (hA.releaseOne e) fun _ => hend
  · cases r with
    | ok => exact ⟨hw, nofun⟩
    | error p => exact ⟨hw.1, fun _ _ => hw.2⟩

theorem report {r : Record} (hr : r.ticket.owner = s) (hT : T r.ticket) :
    Ensures (A n (r.refs + F)) (report run s r) (fun _ => A n F) fun w => A n F w ∧ A.panics := by
  subst hr
  intro w hw
  rw [exec_report]
  exact hA.listen _ _ (hA.call rfl hT hw)

/-! ## Probes -/

theorem compareHook (e : ElementId) : Sustains A.panics (A n F) (compareHook run e) := by
  refine .look fun script? => ?_
  cases script? with
  | none => exact .pure fun _ hw => hw.1
  | some script =>
    exact .look fun f => .note (R := fun w => A n F w ∧ w.onEqual e = some script)
      (fun w hw => ⟨hA.note rfl hw.1.1, hw.1.2⟩) hA.equality

theorem sameElements (a b : ElementId) : Sustains A.panics (A n F) (sameElements run a b) :=
  .bind (hA.compareHook a) fun _ => .bind (hA.compareHook b) fun _ =>
    .last (.look fun _ => .pure fun _ hw => hw.1)

theorem matchesQuery (q : Query) (e : ElementId) :
    Sustains A.panics (A n F) (matchesQuery run q e) := by
  cases q with
  | value v => exact .last (.look fun _ => .pure fun _ hw => hw.1)
  | element e' => exact hA.sameElements e e'

/-- A probe holds what it says. -/
theorem probe (q : Query) (cs : List (SlotKey × Handle)) :
    Ensures (A n F) (probe run q cs)
      (fun p w => A n ((p.held : Multiset ElementId) + F) w ∧ ∀ x, p.found = .error x → A.panics)
      E := by
  induction cs generalizing F with
  | nil => exact .pure fun w hw => ⟨by simpa using hw, by simp⟩
  | cons c cs ih =>
    obtain ⟨key, h⟩ := c
    refine .bind (hA.reach h) fun e? => ?_
    cases e? with
    | none => exact .imp ih fun w hw => (Multiset.zero_add F) ▸ hw
    | some e =>
      refine .attempt (hA.matchesQuery q e) fun r => ?_
      rcases r with p | b
      · exact .fact fun hp => .bind (hA.releaseOne e) fun _ => .pure fun w hw =>
          ⟨by simpa using hw, fun _ _ => hp⟩
      · cases b with
        | true => exact .pure fun w hw => ⟨hw, by simp⟩
        | false =>
          refine .bind ih fun p => .pure fun w hw => ⟨?_, hw.2⟩
          rw [← Multiset.cons_coe, Multiset.cons_add, ← Multiset.add_cons]
          exact hw.1

theorem takeOutAll (k : Nat) (keys : List SlotKey) :
    Ensures (A n F) (takeOutAll s k keys) (fun _ => A n F) E := by
  induction keys with
  | nil => exact .pure fun _ hw => hw
  | cons key keys ih =>
    -- of a handle that is filtered out there is nothing to tell
    have hnone {h? : Option Handle} : Departure.filtered.owed ⟨s, k, key⟩ h? = 0 := by cases h? <;> rfl
    refine .update (R := fun _ => A n F) (fun w hw => ?_) fun h? => ?_
    · have h := hA.takeOut (t := ⟨s, k, key⟩) (d := .filtered) rfl (by simp) hw
      rwa [hnone, n.owe_zero] at h
    cases h? with
    | none => exact ih
    | some h => exact .bind ih fun _ => .pure fun _ hw => hw

end Condition.Kept

namespace Condition.Upheld

variable {A : Condition} {run : Runner} {s : SetId} {T : Ticket → Prop} {n : Standing}
  (hA : A.Upheld run s T n) {F : Multiset ElementId} {E : World → Prop} {d : Prop} {α : Type}

include hA

theorem guarded {a : Act α} {Q R : α → World → Prop} (hQ : ∀ x w, R x w → Q x (w.unlock s))
    (ha : Ensures (A (n.lock s) F) a R fun w => A (n.lock s) F w ∧ A.panics) :
    Ensures (A n F) (guarded s a) Q fun w => A n F w ∧ A.fails n s := by
  refine ensures_guarded (fun w hs hw => ?_) (fun _ => hA.lock)
    (ha.post hQ fun _ hw => ⟨hA.unlock hw.1, .inl hw.2⟩)
  have h := hA.barred hs hw
  exact ⟨h.1, .inr h.2⟩

/-! ## Sweeping -/

theorem takeOutOne {t : Ticket} {d : Departure} (ht : t.owner = s) (hd : d = .swept → T t) :
    Ensures (A n F) (WeakSet.takeOut t d) (fun h? => A (n.owe (d.owed t h?)) F)
      fun w => A n F w ∧ A.fails n s := by
  subst ht
  exact hA.guarded (R := fun h? => A ((n.lock t.owner).owe (d.owed t h?)) F)
    (fun h? _ => hA.unlock (n := n.owe (d.owed t h?)))
    (.last (.update (fun _ => hA.takeOut rfl hd) fun _ => .pure fun _ hw => hw))

/-- What is true in the course of a sweep: if it is to panic, it may. -/
def Batched (A : Condition) (n : Standing) (s : SetId) (F : Multiset ElementId) (b : Batch)
    (w : World) : Prop :=
  A n F w ∧ (b.failure.isSome → A.fails n s)

theorem sweepOne (b : Batch) {t : Ticket} (hT : T t) :
    Ensures (Batched A n s F b) (sweepOne run s b t) (Batched A n s F)
      fun w => A n F w ∧ A.fails n s := by
  refine .fact fun hb => .look fun foreign => ?_
  split
  · exact .bind (hA.log rfl).left fun _ => .pure fun _ hw => ⟨hw, hb⟩
  · rename_i hf
    refine .imp (.fact fun ht : t.owner = s => ?_)
      fun w hw => ⟨hw.1, owner_of_not_isForeign (hw.2 ▸ hf)⟩
    refine .bind (hA.takeOutOne ht fun _ => hT) fun h? => ?_
    cases h? with
    | none => exact .pure fun _ hw => ⟨n.owe_zero ▸ hw, hb⟩
    | some h =>
      refine .bind (hA.closeBooks ht h) fun r => .fact fun hr => ?_
      refine .attempt (hA.report (hr ▸ ht) (hr ▸ hT)) fun outcome => ?_
      cases outcome with
      | ok _ => exact .look fun _ => .pure fun _ hw => ⟨hw.1, hb⟩
      | error p =>
        exact .fact fun hp => .bind (hA.log rfl) fun _ => .look fun _ => .pure fun _ hw =>
          ⟨hw.1, fun _ => .inl hp⟩

theorem closeBatch (b : Batch) :
    Ensures (Batched A n s F b) (closeBatch b) (fun _ => A n F) fun w => A n F w ∧ A.fails n s := by
  refine .fact fun hf => ?_
  unfold WeakSet.closeBatch
  by_cases hb : 0 < b.reclaimed <;> simp only [hb, ite_true, ite_false]
  on_goal 1 => refine .bind (hA.log rfl) fun _ => ?_
  all_goals
    split
    · exact .pure fun _ hw => hw
    · rename_i p hp
      exact .throw fun _ hw => ⟨hw, hf (by rw [hp]; rfl)⟩

theorem sweep : Sustains (A.fails n s) (A n F) (sweep run s) := by
  refine .update (R := fun batch w => A n F w ∧ ∀ t ∈ batch, T t) (fun w hw => hA.takeNotices hw)
    fun batch => .fact fun hT => ?_
  refine .imp (.bind (.foldlM (fun b t ht => hA.sweepOne b (hT t ht)) _) fun b => hA.closeBatch b)
    fun w hw => ⟨hw, by simp⟩

/-- A sweep, and what follows it. -/
theorem swept {a : Act α} {Q : α → World → Prop}
    (ha : Ensures (A n F) a Q fun w => A n F w ∧ A.fails n s) :
    Ensures (A n F) (discard (WeakSet.sweep run s) >>= fun _ => a) Q
      fun w => A n F w ∧ A.fails n s :=
  .bind (.discard hA.sweep) fun _ => ha

/-! ## Membership -/

/-- What is true after the locked part of an operation: `Q` of its result and of the references that are
counted, or the panic is one of the client's code. -/
def Ends (A : Condition) (n : Standing) (F : Multiset ElementId)
    (Q : α → Multiset ElementId → World → Prop) (x : Section α) : World → Prop :=
  after (fun r => Q r ((x.held : Multiset ElementId) + F))
    (fun w => A n ((x.held : Multiset ElementId) + F) w ∧ A.panics) x.result

/-- A probe and what follows it under the same lock, which does not panic. -/
theorem probeThenInto {q : Query} {go : UInt64 → Nat → Option SlotKey → Act α}
    {Q : α → Multiset ElementId → World → Prop}
    (hgo : ∀ F hash k found, Ensures (A (n.lock s) F) (go hash k found)
      (fun r w => Q r F (w.unlock s)) fun _ => False) :
    Ensures (A n F) (probeThen run s q go) (Ends A n F Q) fun w => A n F w ∧ A.fails n s := by
  refine .look fun x => .left (hA.guarded (R := fun x w => after
    (fun r w => Q r ((x.held : Multiset ElementId) + F) (w.unlock s))
    (fun w => A (n.lock s) ((x.held : Multiset ElementId) + F) w ∧ A.panics) x.result w)
    (fun x w hw => ?_) ?_)
  · rcases x with ⟨held, p | r⟩
    · exact ⟨hA.unlock hw.1, hw.2⟩
    · exact hw
  · refine .bind (.look fun _ => .left (hA.probe q _)) fun p => .fact fun hp => ?_
    rcases hf : p.found with e | found
    · exact .pure fun w hw => ⟨hw, hp e hf⟩
    · exact .bind ((hgo _ _ _ found).post (fun _ _ h => h) fun _ h => h.elim) fun r =>
        .pure fun w hw => hw

/-- What a section held is let go of, which keeps what is true of the result. -/
theorem closeInto {x : Section α} {Q : α → Multiset ElementId → World → Prop}
    (hQ : ∀ r, Ensures (Q r ((x.held : Multiset ElementId) + F)) (releaseAll run x.held)
      (fun _ => Q r F) fun w => A n F w ∧ A.fails n s) :
    Ensures (Ends A n F Q x) (x.close run) (fun r => Q r F) fun w => A n F w ∧ A.fails n s := by
  obtain ⟨held, p | r⟩ := x
  · exact .fact fun hp => .bind (hA.releaseAll held) fun _ => .throw fun _ hw => ⟨hw, .inl hp⟩
  · exact .bind (hQ r) fun _ => .pure fun _ hw => hw

/-- What is true after the locked part of an operation: its references are counted, what `G` says of its
result is still to be told, `P` is true of it, and a panic is one of the client's code. -/
abbrev Closing (A : Condition) (n : Standing) (F : Multiset ElementId) (G : α → Multiset Passage)
    (P : α → Prop) : Section α → World → Prop :=
  Ends A n F fun r F w => A (n.owe (G r)) F w ∧ P r

omit hA in
theorem Closing.holds {G : α → Multiset Passage} {P : α → Prop} {x : Section α} {w : World}
    (h : Closing A n F G P x w) :
    A (n.owe (owedAfter G x.result)) ((x.held : Multiset ElementId) + F) w := by
  obtain ⟨held, p | r⟩ := x
  · exact n.owe_zero.symm ▸ h.1
  · exact h.1

/-- A probe and what follows it under the same lock, which does not panic and gives results of which
`P` is true. -/
theorem probeThen {q : Query} {go : UInt64 → Nat → Option SlotKey → Act α} {G : α → Multiset Passage}
    {P : α → Prop}
    (hgo : ∀ F hash k found, Ensures (A (n.lock s) F) (go hash k found)
      (fun r w => A ((n.lock s).owe (G r)) F w ∧ P r) fun _ => False) :
    Ensures (A n F) (probeThen run s q go) (Closing A n F G P) fun w => A n F w ∧ A.fails n s :=
  hA.probeThenInto fun F hash k found => (hgo F hash k found).post
    (fun r _ hw => ⟨hA.unlock (n := n.owe (G r)) hw.1, hw.2⟩) fun _ h => h

theorem insertSection (e : ElementId) :
    Ensures (A n F) (insertSection run s e) (Closing A n F insertedOwed fun _ => True)
      fun w => A n F w ∧ A.fails n s := by
  refine hA.probeThen fun F hash k found => ?_
  cases found with
  | some _ => exact .pure fun w hw => ⟨(n.lock s).owe_zero.symm ▸ hw, trivial⟩
  | none =>
    exact .map (.last (.update (fun w hw => hA.store hw) fun _ => .pure fun w hw => ⟨hw, trivial⟩))

theorem findSection (q : Query) :
    Ensures (A n F) (findSection run s q) (Closing A n F (fun _ => 0) fun _ => True)
      fun w => A n F w ∧ A.fails n s :=
  hA.probeThen fun _ _ _ _ => .pure fun _ hw => ⟨(n.lock s).owe_zero.symm ▸ hw, trivial⟩

theorem removeSection (q : Query) :
    Ensures (A n F) (removeSection run s q) (Closing A n F removedOwed fun r => ∀ y ∈ r, y.1.owner = s)
      fun w => A n F w ∧ A.fails n s := by
  refine hA.probeThen fun F hash k found => ?_
  cases found with
  | none => exact .pure fun w hw => ⟨(n.lock s).owe_zero.symm ▸ hw, by simp⟩
  | some key =>
    refine .last (.update (fun w hw => ?_) fun _ => .pure fun _ hw => hw)
    have h := hA.takeOut (t := ⟨s, k, key⟩) (d := .removed) rfl (by simp) hw
    rcases hx : w.takeOut ⟨s, k, key⟩ .removed with ⟨_ | x, w'⟩ <;> rw [hx] at h
    · exact ⟨by simp only [hx]; exact h, by simp [hx]⟩
    · exact ⟨by simp only [hx]; exact h, by simp [hx]⟩

/-- What a section held is let go of. -/
theorem close {x : Section α} {G : α → Multiset Passage} {P : α → Prop} :
    Ensures (Closing A n F G P x) (x.close run) (fun r w => A (n.owe (G r)) F w ∧ P r)
      fun w => A n F w ∧ A.fails n s :=
  hA.closeInto fun _ => .fact fun hr => (hA.releaseAll x.held).post (fun _ _ hw => ⟨hw, hr⟩)
    fun _ hw => hw

theorem insert (e : ElementId) : Sustains (A.fails n s) (A n F) (insert run s e) := by
  refine hA.swept (.bind (hA.insertSection e) fun x => .bind hA.close fun t? => .left ?_)
  cases t? with
  | none => exact .pure fun _ hw => n.owe_zero ▸ hw
  | some t => exact .bind (hA.told rfl) fun _ => .pure fun _ hw => hw

theorem add (e : ElementId) : Sustains (A.fails n s) (A n F) (add run s e) :=
  .map (hA.insert e)

theorem find (q : Query) : Sustains (A.fails n s) (A n F) (find run s q) :=
  .bind (hA.findSection q) fun _ => hA.close.post (fun _ _ h => n.owe_zero ▸ h.1) fun _ h => h

theorem ticketOf (q : Query) : Sustains (A.fails n s) (A n F) (ticketOf run s q) :=
  hA.swept (hA.find q)

theorem contains (q : Query) : Sustains (A.fails n s) (A n F) (contains run s q) :=
  .map (hA.ticketOf q)

theorem bookRemoval {t : Ticket} (ht : t.owner = s) (h : Handle) :
    Ensures (A (n.owe {.removed t}) F) (bookRemoval t h) (fun _ => A n F) E :=
  .bind (hA.forget ht h) fun _ => hA.told rfl

theorem remove (q : Query) : Sustains (A.fails n s) (A n F) (remove run s q) := by
  refine hA.swept (.bind (hA.removeSection q) fun x => .bind hA.close fun r => .fact fun hr => ?_)
  cases r with
  | none => exact .pure fun _ hw => n.owe_zero ▸ hw
  | some y => exact .bind (hA.bookRemoval (hr y rfl) y.2) fun _ => .pure fun _ hw => hw

omit hA in
theorem anyOf {f : α → Act Bool} {xs : List α} (h : ∀ x ∈ xs, Sustains d (A n F) (f x)) :
    Sustains d (A n F) (anyOf f xs) :=
  .foldlM (fun _ x hx => .bind (h x hx) fun _ => .pure fun _ hw => hw) _

omit hA in
theorem allOf {f : α → Act Bool} {xs : List α} (h : ∀ x ∈ xs, Sustains d (A n F) (f x)) :
    Sustains d (A n F) (allOf f xs) := by
  induction xs with
  | nil => exact .pure fun _ hw => hw
  | cons x xs ih =>
    refine .bind (h x (by simp)) fun b => ?_
    split
    · exact ih fun y hy => h y (by simp [hy])
    · exact .pure fun _ hw => hw

theorem addAll (es : List ElementId) : Sustains (A.fails n s) (A n F) (addAll run s es) :=
  anyOf fun e _ => hA.add e

theorem removeAll (qs : List Query) : Sustains (A.fails n s) (A n F) (removeAll run s qs) :=
  anyOf fun q _ => hA.remove q

theorem containsAll (qs : List Query) : Sustains (A.fails n s) (A n F) (containsAll run s qs) := by
  unfold WeakSet.containsAll
  split
  · exact .pure fun _ hw => hw
  · exact allOf fun q _ => hA.contains q

theorem count : Sustains (A.fails n s) (A n F) (count s) :=
  .look fun _ => .left (.foldlM (fun _ _ _ => .bind (hA.guarded (Q := fun _ => A n F)
    (fun _ _ => hA.unlock) (.last (.look fun _ => .pure fun _ hw => hw.1))) fun _ =>
      .pure fun _ hw => hw) _)

theorem length : Sustains (A.fails n s) (A n F) (length run s) :=
  hA.swept hA.count

/-! ## Filtering and clearing -/

omit hA in
theorem rejected {keep : ElementId → Act Bool} (hk : ∀ e, Sustains d (A n F) (keep e))
    (ps : List (SlotKey × ElementId)) : Sustains d (A n F) (rejected keep ps) := by
  induction ps with
  | nil => exact .pure fun _ hw => hw
  | cons p ps ih =>
    refine .bind (hk p.2) fun b => ?_
    split
    · exact ih
    · exact .bind ih fun _ => .pure fun _ hw => hw

theorem retainShard {keep : ElementId → Act Bool} (hk : ∀ F e, Sustains A.panics (A n F) (keep e))
    (k : Nat) : Sustains (A.fails n s) (A n F) (retainShard run s keep k) := by
  refine .bind (hA.guarded (Q := fun ps => A n (pinnedRefs ps + F)) (fun _ _ => hA.unlock)
    (.look fun _ => .left (hA.pinAll _))) fun pinned => ?_
  refine hA.balanced_holding (.bind ((rejected (hk _) pinned).weaken .inl) fun doomed => ?_)
  split
  · exact .pure fun _ hw => hw
  · refine .bind (hA.guarded (Q := fun _ => A n _) (fun _ _ => hA.unlock) (hA.takeOutAll k _))
      fun taken => .bind (.forM fun p _ => ?_) fun _ => .pure fun _ hw => hw
    cases h : taken.contains p.1 with
    | true =>
      simp only [h, ite_true]
      exact .last (.change (fun w hw => hA.unwatch rfl hw) (.pure fun _ hw => hw))
    | false =>
      simp only [h]
      exact .pure fun _ hw => hw

omit hA in
theorem shards : Ensures (A n F) (shards s) (fun _ => A n F) E :=
  .last (.look fun _ => .pure fun _ hw => hw.1)

theorem retain {keep : ElementId → Act Bool} (hk : ∀ F e, Sustains A.panics (A n F) (keep e)) :
    Sustains (A.fails n s) (A n F) (retain run s keep) := by
  refine hA.swept (.look fun kind => .left (.bind shards fun ks => anyOf fun k _ => ?_))
  refine hA.retainShard (fun F e => ?_) k
  split
  · exact hk F e
  · exact .pure fun _ hw => hw

theorem meetsAny (e : ElementId) (qs : List Query) :
    Sustains A.panics (A n F) (meetsAny run e qs) := by
  induction qs with
  | nil => exact .pure fun _ hw => hw
  | cons q qs ih =>
    refine .bind (hA.matchesQuery q e) fun b => ?_
    split
    · exact .pure fun _ hw => hw
    · exact ih

theorem retainAll (qs : List Query) : Sustains (A.fails n s) (A n F) (retainAll run s qs) := by
  unfold WeakSet.retainAll
  split
  · exact hA.swept (.pure fun _ hw => hw)
  · exact hA.retain fun F e => hA.meetsAny e qs

theorem clearShard (k : Nat) : Sustains (A.fails n s) (A n F) (clearShard s k) := by
  have htake : Ensures (A (n.lock s) F) (update (·.takeAll s k))
      (fun xs w => A (n.lock s) F w ∧ ∀ y ∈ xs, y.1.owner = s)
      fun w => A (n.lock s) F w ∧ A.panics := by
    refine .last (.update (fun w hw => ⟨hA.takeAll hw, fun y hy => ?_⟩) fun _ => .pure fun _ hw => hw)
    obtain ⟨x, -, rfl⟩ := List.mem_map.mp hy
    rfl
  exact .bind (hA.guarded (fun _ _ hw => ⟨hA.unlock hw.1, hw.2⟩) htake) fun taken =>
    .fact fun hown => .forM fun y hy => hA.forget (hown y hy) y.2

theorem clear : Sustains (A.fails n s) (A n F) (clear s) :=
  .bind shards fun _ => .bind (.forM fun k _ => hA.clearShard k) fun _ => hA.log rfl

/-! ## Comparing and hashing -/

theorem reachableIn (es : List ElementId) (complete : Bool) (ks : List Nat) :
    Ensures (A n ((es : Multiset ElementId) + F)) (reachableIn run s es complete ks)
      (fun r => A n ((r.1 : Multiset ElementId) + F)) fun w => A n F w ∧ A.fails n s := by
  induction ks generalizing es complete with
  | nil => exact .pure fun _ hw => hw
  | cons k ks ih =>
    refine .attempt (hA.guarded (Q := fun r => A n ((r.1 : Multiset ElementId) + _))
      (fun _ _ => hA.unlock) (.look fun _ => .left (hA.reachAll _))) fun r => ?_
    cases r with
    | error p => exact .fact fun hd => .bind (hA.releaseAll es) fun _ => .throw fun _ hw => ⟨hw, hd⟩
    | ok r =>
      refine .imp (ih _ _) fun w hw => ?_
      rw [← Multiset.coe_add, Multiset.add_comm (es : Multiset ElementId), Multiset.add_assoc]
      exact hw

theorem reachable :
    Ensures (A n F) (reachable run s) (fun r => A n ((r.1 : Multiset ElementId) + F))
      fun w => A n F w ∧ A.fails n s :=
  .bind shards fun ks => .imp (hA.reachableIn [] true ks) fun w hw => by simpa using hw

theorem sameSets {s' : SetId} {T' : Ticket → Prop} (hA' : A.Upheld run s' T' n) :
    Sustains (A.fails n s ∨ A.fails n s') (A n F) (sameSets run s s') := by
  unfold WeakSet.sameSets
  split
  · exact .pure fun _ hw => hw
  · refine .bind (hA.length.weaken .inl) fun m => .bind (hA'.length.weaken .inr) fun m' => ?_
    split
    · exact .pure fun _ hw => hw
    · refine .bind (hA.reachable.weaken .inl) fun r => hA.balanced_holding ?_
      split
      · exact allOf fun e _ => (hA'.contains _).weaken .inr
      · exact .pure fun _ hw => hw

theorem hashOf : Sustains (A.fails n s) (A n F) (hashOf run s) :=
  hA.swept (.bind hA.reachable fun _ => hA.balanced_holding (.last (.look fun _ =>
    .pure fun _ hw => hw.1)))

end Condition.Upheld

/-! ## Cursors -/

namespace Condition.Upheld

open Cursor

variable {A : Condition} {run : Runner} {c : Cursor} {T : Ticket → Prop} {n : Standing}
  (hA : A.Upheld run c.set T n) {F : Multiset ElementId} {E : World → Prop} {α : Type}

include hA

/-- The reference that comes with an element, if there is one. -/
abbrev oneRef (e? : Option ElementId) : Multiset ElementId :=
  (e?.toList : List ElementId)

/-- What is true after a step that panics only if `d`: the references that come with its result are
counted. -/
def Stepped (A : Condition) (d : Prop) (n : Standing) (F : Multiset ElementId)
    (refs : α → Multiset ElementId) (x : Cursor.Step α) : World → Prop :=
  after (fun a => A n (refs a + F)) (fun w => A n F w ∧ d) x.outcome

theorem visit (key : SlotKey) :
    Ensures (A n F) (c.visit run key) (fun e? => A n (oneRef e? + F))
      fun w => A n F w ∧ A.fails n c.set := by
  refine .bind (hA.guarded (Q := fun x => A n (sightRefs x + F)) (fun _ _ => hA.unlock)
    (hA.sight c.set c.shard key)) fun x => ?_
  cases x with
  | element e => exact .pure fun _ hw => hw
  | nothing => exact .pure fun _ hw => hw
  | ended =>
    refine .imp (hA.swept (.pure fun w hw => (Multiset.zero_add F).symm ▸ hw))
      fun w hw => (Multiset.zero_add F) ▸ hw

theorem nextHere (keys : List SlotKey) :
    Ensures (A n F) (c.nextHere run keys) (Stepped A (A.fails n c.set) n F oneRef) E := by
  induction keys with
  | nil =>
    refine .pure fun w hw => ?_
    show A n (0 + F) w
    rwa [Multiset.zero_add]
  | cons key keys ih =>
    refine .attempt (hA.visit key) fun r => ?_
    rcases r with p | _ | e
    · exact .pure fun _ hw => hw
    · exact .imp ih fun w hw => (Multiset.zero_add F) ▸ hw
    · exact .pure fun _ hw => hw

/-- The keys of a shard. -/
theorem keysOf (k : Nat) :
    Sustains (A.fails n c.set) (A n F)
      (Act.guarded c.set (look fun w => (w.shard c.set k).keys)) :=
  hA.guarded (fun _ _ => hA.unlock) (.last (.look fun _ => .pure fun _ hw => hw.1))

theorem nextAhead (ks : List Nat) :
    Ensures (A n F) (c.nextAhead run ks) (Stepped A (A.fails n c.set) n F oneRef) E := by
  induction ks generalizing c with
  | nil => exact nextHere (c := { c with ahead := [] }) hA _
  | cons k ks ih =>
    refine .bind (nextHere (c := { c with ahead := k :: ks }) hA _) fun x => ?_
    unfold Stepped
    rcases hx : x.outcome with p | _ | e
    · exact .pure fun w hw => by simpa [Stepped, after, hx] using hw
    · refine .imp (P := A n F) (.attempt (hA.keysOf k) fun r => ?_)
        fun w hw => (Multiset.zero_add F) ▸ hw
      cases r with
      | error p => exact .pure fun _ hw => hw
      | ok keys => exact ih (c := { c with shard := k, ahead := ks, pending := keys }) hA
    · exact .pure fun w hw => by simpa [Stepped, after, hx] using hw

theorem next :
    Ensures (A n F) (c.next run) (Stepped A (A.fails n c.set) n F oneRef) E :=
  nextAhead (c := { c with current := none }) hA _

theorem removeCurrent :
    Ensures (A n F) c.removeCurrent (Stepped A (A.fails n c.set) n F fun _ => 0) E := by
  have hdone : ∀ w, A n F w → A n (0 + F) w := fun w hw => by rwa [Multiset.zero_add]
  unfold Cursor.removeCurrent
  rcases c.current with _ | key
  · exact .pure hdone
  · refine .attempt (hA.takeOutOne (t := ⟨c.set, c.shard, key⟩) rfl (by simp)) fun r => ?_
    rcases r with p | _ | h
    · exact .pure fun _ hw => hw
    · exact .pure fun w hw => hdone w (n.owe_zero ▸ hw)
    · exact .bind (hA.bookRemoval (t := ⟨c.set, c.shard, key⟩) rfl h) fun _ => .pure hdone

/-- What is true after a walk to the end that panics only if `d`: the references to what it found are
counted. -/
structure Walked (A : Condition) (d : Prop) (n : Standing) (F : Multiset ElementId) (x : Walk)
    (w : World) : Prop where
  holds : A n ((x.found : Multiset ElementId) + F) w
  panic : ∀ p, x.outcome = .error p → d

theorem restHere (keys : List SlotKey) :
    Ensures (A n F) (c.restHere run keys) (Walked A (A.fails n c.set) n F) E := by
  induction keys generalizing F with
  | nil => exact .pure fun w hw => ⟨by simpa using hw, by simp⟩
  | cons key keys ih =>
    refine .attempt (hA.visit key) fun r => ?_
    rcases r with p | _ | e
    · exact .pure fun w hw => ⟨(Multiset.zero_add F).symm ▸ hw.1, fun _ _ => hw.2⟩
    · exact .imp ih fun w hw => (Multiset.zero_add F) ▸ hw
    · refine .bind ih fun x => .pure fun w hw => ⟨?_, hw.panic⟩
      rw [← Multiset.cons_coe, Multiset.cons_add, ← Multiset.add_cons]
      exact hw.holds

theorem restAhead (ks : List Nat) :
    Ensures (A n F) (c.restAhead run ks) (Walked A (A.fails n c.set) n F) E := by
  induction ks generalizing c F with
  | nil => exact restHere (c := { c with ahead := [] }) hA _
  | cons k ks ih =>
    refine .bind (restHere (c := { c with ahead := k :: ks }) hA _) fun x => ?_
    rcases hx : x.outcome with p | _
    · exact .pure fun w hw => ⟨hw.holds, hw.panic⟩
    · refine .imp (P := A n ((x.found : Multiset ElementId) + F)) (.attempt (hA.keysOf k) fun r => ?_)
        fun w hw => hw.holds
      cases r with
      | error p => exact .pure fun _ hw => ⟨hw.1, fun _ _ => hw.2⟩
      | ok keys =>
        refine .bind (ih (c := ⟨c.set, k, ks, keys, none⟩) hA) fun y => .pure fun w hw => ⟨?_, hw.panic⟩
        rw [← Multiset.coe_add, Multiset.add_comm (x.found : Multiset ElementId), Multiset.add_assoc]
        exact hw.holds

theorem rest :
    Ensures (A n F) (c.rest run)
      (Stepped A (A.fails n c.set) n F fun es => (es : Multiset ElementId)) E := by
  refine .bind (hA.restAhead c.ahead) fun x => ?_
  rcases hx : x.outcome with p | _
  · refine .imp (.fact fun hd : A.fails n c.set => .bind (hA.releaseAll x.found) fun _ =>
      .pure fun _ hw => ⟨hw, hd⟩) fun w hw => ⟨hw.holds, hw.panic p hx⟩
  · exact .pure fun _ hw => hw.holds

end Condition.Upheld

namespace Condition.Upheld

variable {A : Condition} {run : Runner} {s : SetId} {T : Ticket → Prop} {n : Standing}
  (hA : A.Upheld run s T n) {F : Multiset ElementId}

include hA

theorem start :
    Ensures (A n F) (Cursor.start run s) (fun c w => A n F w ∧ c.set = s)
      fun w => A n F w ∧ A.fails n s :=
  hA.swept (.look fun _ => .pure fun _ hw => ⟨hw.1, rfl⟩)

theorem toList :
    Ensures (A n F) (toList run s) (fun es => A n ((es : Multiset ElementId) + F))
      fun w => A n F w ∧ A.fails n s := by
  refine .bind hA.start fun c => .fact ?_
  rintro rfl
  refine .bind hA.rest fun x => ?_
  unfold Stepped
  cases x.outcome with
  | ok es => exact .pure fun _ hw => hw
  | error p => exact .throw fun _ hw => hw

end Condition.Upheld

end WeakSet
