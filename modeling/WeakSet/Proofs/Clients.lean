import WeakSet.Proofs.Remits
import WeakSet.Proofs.Shifts

/-!
# Whatever clients do keeps a condition

A condition that every step of a client keeps, also those that make elements, channels and sets or move
names, is kept by every command (`Condition.Total.perform`). If so whatever scripts the commands run,
then every script keeps it, however deep scripts nest (`Runner.obeys`). A condition may also be one that only
commands without scripts keep (`Command.IsScriptless`).
-/

namespace WeakSet

open Act Session

/-- Every script keeps a condition. -/
def Runner.Obeys (run : Runner) (A : Condition) : Prop :=
  ∀ n F role script, Preserves (A n F) (run role script)

/-- References to elements are counted, the destructor of the last one included. -/
theorem Runner.Obeys.lends {A : Condition} {run : Runner} (hr : run.Obeys A)
    (hacquire : ∀ {n F w e}, w.isAlive e → A n F w → A n (e ::ₘ F) (w.acquire e))
    (hrelease : ∀ {n F w e}, A n (e ::ₘ F) w → A n F (w.release e).2) : A.Lends run where
  acquire := hacquire
  release {n F w e} h := by
    have hw := hrelease h
    rw [Act.release, exec_bind, exec_update]
    rcases hx : w.release e with ⟨_ | script, w'⟩ <;> rw [hx] at hw
    · exact hw
    · have hs := (hr n F .destructor script).exec hw
      simp only [exec_discard, exec_attempt]
      exact hs

/-- Nothing is out of bounds, but that there are scripts only if `scripted`. -/
def Remit.all (scripted : Prop) : Remit where
  sets _ := True
  cursorNames _ := True
  scripts _ := scripted

/-- Commands that bring no code of the client's. -/
def Command.IsScriptless : Command → Prop
  | .new _ _ onDrop onEqual => onDrop = none ∧ onEqual = none
  | .build _ plan => ∀ p, plan = .ok p → p.listener.IsPlain
  | .newSet _ listener | .ofOwners _ _ _ listener => listener.IsPlain
  | .retain _ _ _ on | .retainBy _ _ on => on = []
  | _ => True

/-- What is as true of a world in which a set is unmade is as true where it may be unmade. -/
theorem World.retire_keeps {P : World → Prop} {w : World} (s : SetId) (h : P w)
    (hu : P w → P (w.unmake s)) : P (w.retire s) := by
  unfold World.retire
  split
  · exact h
  · exact hu h

theorem World.putCursor_keeps {P : World → Prop} {w : World} {name : String} {c : Cursor}
    (h : P { w with cursors := w.cursors.put name c })
    (hu : ∀ {w' : World} s, P w' → P (w'.unmake s)) : P (w.putCursor name c) := by
  unfold World.putCursor
  split
  · exact h
  · exact retire_keeps _ h (hu _)

/-- Every step of a client that begins where code stands as `n` says keeps a condition. The client brings
scripts only if `scripted`. -/
structure Condition.Total (A : Condition) (run : Runner) (scripted : Prop) (n : Standing) : Prop
    extends A.Unconfined run scripted n where
  predicate : ∀ {F script}, scripted → Preserves (A n F) (run .predicate script)
  borrow : ∀ {F w name e}, w.owners.find? name = some e → A n F w → A n (e ::ₘ F) (w.acquire e)
  own : ∀ {F w name e}, w.owners.find? name = none → A n (e ::ₘ F) w →
    A n F { w with owners := w.owners.put name e }
  disown : ∀ {F w name e}, w.owners.find? name = some e → A n F w →
    A n (e ::ₘ F) { w with owners := w.owners.erase name }
  channels : ∀ {F w} cs, A n F w → A n F { w with channels := cs }
  rename : ∀ {F w} (channelNames : Table ChannelId) (setNames : Table SetId)
    (cursors : Table Cursor) (walking : List SetId) (tickets : Table Ticket), A n F w →
    A n F { w with
      channelNames := channelNames, setNames := setNames, cursors := cursors
      walking := walking, tickets := tickets }
  posted : ∀ {F w} c t, A n F w → A n F (w.note (.posted c t))
  drained : ∀ {F w} c, A n F w → A n F (w.note (.drained c))
  takeRecord : ∀ {F w r hands}, w.hands = some r :: hands → A n F w →
    A n (r.refs + F) { w with hands := none :: hands }

namespace Condition.Total

variable {A : Condition} {run : Runner} {scripted : Prop} {n : Standing} (hA : A.Total run scripted n)
  {F : Multiset ElementId} {E : World → Prop}

include hA

/-! ## Names -/

theorem nameSet {w : World} (h : A n F w) (name : String) (s : SetId) : A n F (w.nameSet name s) := by
  have hput : A n F { w with setNames := w.setNames.put name s } :=
    hA.rename w.channelNames _ w.cursors w.walking w.tickets h
  unfold World.nameSet
  split
  · exact hput
  · exact World.retire_keeps _ hput hA.unmake

theorem putCursor {w : World} (h : A n F w) (name : String) (c : Cursor) :
    A n F (w.putCursor name c) :=
  World.putCursor_keeps (hA.rename w.channelNames w.setNames _ w.walking w.tickets h)
    fun _ h => hA.unmake h

theorem honoured : A.Honoured run (.all scripted) (fun _ _ => True) n where
  toLends := hA.toLends
  upheld _ := hA.upheld _
  borrow := hA.borrow
  remark := hA.remark
  predicate h := .allow hA.panics (hA.predicate h)
  own := hA.own
  save h := hA.rename _ _ _ _ _ h
  takeCursor _ _ h := hA.rename _ _ _ _ _ h
  returnCursor _ _ h := hA.putCursor (hA.rename _ _ _ _ _ h) _ _
  putCursor _ _ h := hA.putCursor h _ _
  dropCursor _ _ h := World.retire_keeps _ (hA.rename _ _ _ _ _ h) hA.unmake

omit hA in
theorem withChannel {name : String} {body : ChannelId → Act Reply}
    (h : ∀ c, Preserves (A n F) (body c)) : Preserves (A n F) (withChannel name body) := by
  refine .get fun v => .left ?_
  split
  · exact Honoured.refuse _
  · exact h _

omit hA in
theorem withTicket {name : String} {body : Ticket → Act Reply}
    (h : ∀ t, Preserves (A n F) (body t)) : Preserves (A n F) (withTicket name body) := by
  refine .get fun v => .left ?_
  split
  · exact Honoured.refuse _
  · exact h _

theorem withOwner {name : String} {body : ElementId → Act Reply}
    (h : ∀ e F, Preserves (A n F) (body e)) : Preserves (A n F) (withOwner run name body) :=
  (hA.honoured.withOwner (d := True) fun e _ => .allow trivial (h e _)).forget

omit hA in
theorem withSet {name : String} {body : SetId → Act Reply}
    (h : ∀ s, Preserves (A n F) (body s)) : Preserves (A n F) (withSet name body) :=
  .imp (Honoured.withSetOf (R := .all True) (d := True) (fun s _ => .allow trivial (h s))
    fun _ hw => hw).forget fun _ hw => ⟨hw, fun _ _ => trivial⟩

theorem withGated (name : String) (f : Channel → Channel) :
    Preserves (A n F) (withGated name f) := by
  refine withChannel fun c => .get fun v => .left ?_
  split
  · exact Honoured.refuse _
  · split
    · exact Honoured.refuse _
    · exact .change (R := A n F) (fun w h => hA.channels _ h) (.pure fun _ h => h)

omit hA in
theorem ifFree {name : String} {a : Act Reply} (ha : Preserves (A n F) a) :
    Preserves (A n F) (do if ← isFreeForSet name then a else Session.refuse .nameTaken) := by
  refine .look fun isFree => .left ?_
  split
  · exact ha
  · exact Honoured.refuse _

/-! ## Elements -/

theorem newElement {onDrop onEqual : Option Script} (owner : String) (v : Value)
    (hx : (onDrop = none ∧ onEqual = none) ∨ scripted) :
    Preserves (A n F) (newElement owner v onDrop onEqual) := by
  refine .get fun v => ?_
  cases hn : v.owners.find? owner with
  | some _ => exact .left (Honoured.refuse _)
  | none =>
    refine .update (R := fun e w => A n (e ::ₘ F) w ∧ w.owners.find? owner = none)
      (fun w hw => ⟨hA.create hx hw.1, ?_⟩) fun e => ?_
    · obtain ⟨rfl⟩ := hw.2
      exact hn
    · refine .bind (R := fun _ => A n F) (.discard (.of_exec fun w hw => ?_)) fun _ =>
        .pure fun _ h => h
      rw [ownAs, exec_update, hw.2]
      exact hA.own hw.2 hw.1

theorem newElements (xs : List (String × Value)) : Preserves (A n F) (newElements xs) := by
  induction xs with
  | nil => exact .pure fun _ h => h
  | cons x xs ih =>
    refine .bind (hA.newElement x.1 x.2 (.inl ⟨rfl, rfl⟩)) fun r => ?_
    split
    · exact ih
    · exact .pure fun _ h => h

/-- One more owner of an element that has one. -/
theorem clone (owner target : String) :
    Preserves (A n F) (Session.withOwner run owner fun e => do
      if ← ownAs target e then
        change (·.acquire e)
        return .done
      else
        Session.refuse .nameTaken) := by
  refine (hA.honoured.withOwner (d := True) fun e F => ?_).forget
  refine .bind (R := fun b w => if b then A n F w ∧ w.owners.find? target = some e else A n (e ::ₘ F) w)
    (fun w h => ?_) fun b => ?_
  · rw [ownAs, exec_update]
    cases hn : w.owners.find? target with
    | none => exact ⟨hA.own hn h, by rw [Table.find?_put, if_pos rfl]⟩
    | some _ => exact h
  · cases b with
    | true =>
      exact .change (R := A n (e ::ₘ F)) (fun w h => hA.borrow h.2 h.1) (.pure fun _ h => h)
    | false => exact Honoured.refuse _

theorem dropOwners (os : List String) : Preserves (A n F) (dropOwners run os) := by
  induction os with
  | nil => exact .pure fun _ h => h
  | cons o os ih =>
    refine .get fun v => ?_
    cases hn : v.owners.find? o with
    | none => exact .left (Honoured.refuse _)
    | some e =>
      refine .change (R := A n (e ::ₘ F)) (fun w hw => ?_) (.bind (hA.releaseOne e) fun _ => ih)
      obtain ⟨rfl⟩ := hw.2
      exact hA.disown hn hw.1

theorem takeOwners (os : List String) :
    Ensures (A n F) (takeOwners os) (fun r => A n ((r.1 : Multiset ElementId) + F)) E := by
  induction os generalizing F with
  | nil => exact .pure fun w h => by simpa using h
  | cons o os ih =>
    refine .get fun v => ?_
    cases hn : v.owners.find? o with
    | none => exact .left (.pure fun w h => by simpa using h)
    | some e =>
      refine .change (R := A n (e ::ₘ F)) (fun w hw => ?_) (.bind ih fun r => .pure fun w h => ?_)
      · obtain ⟨rfl⟩ := hw.2
        exact hA.disown hn hw.1
      · rw [← Multiset.cons_coe, Multiset.cons_add, ← Multiset.add_cons]
        exact h

theorem dropOwnersTogether (os : List String) :
    Preserves (A n F) (dropOwnersTogether run os) := by
  refine .bind (hA.takeOwners os) fun r => .bind (hA.releaseAll _) fun _ => ?_
  split
  · exact .pure fun _ h => h
  · exact Honoured.refuse _

theorem enqueueSaved (c : ChannelId) (names : List String) :
    Preserves (A n F) (enqueueSaved c names) := by
  induction names with
  | nil => exact .pure fun _ h => h
  | cons name names ih =>
    exact withTicket fun t => .change (R := A n F) (fun w h => hA.channels _ (hA.posted c t h)) ih

theorem keepRecord (owner : String) : Preserves (A n F) (keepRecord run owner) := by
  refine .update (R := fun r? => A n (((r?.bind Record.last).toList : List ElementId) + F))
    (fun w h => ?_) fun r? => ?_
  · rcases hw : w.hands with _ | ⟨_ | r, hands⟩
    · exact (Multiset.zero_add F).symm ▸ h
    · exact (Multiset.zero_add F).symm ▸ h
    · exact hA.takeRecord hw h
  · cases r? with
    | none => exact .imp (Honoured.refuse _) fun w h => (Multiset.zero_add F) ▸ h
    | some r =>
      simp only [Option.bind_some]
      cases r.last with
      | none => exact .pure fun w h => (Multiset.zero_add F) ▸ h
      | some e =>
        refine .bind (hA.honoured.ownAs owner e) fun b => ?_
        cases b with
        | true => exact .pure fun _ h => h
        | false => exact .bind (hA.releaseOne e) fun _ => Honoured.refuse _

/-! ## Sets -/

theorem constructNamed {b : Blueprint} (hf : b.settings.fault? = none)
    (hb : b.listener.IsPlain ∨ scripted) (channel : Option ChannelId) (name : String) :
    Preserves (A n F) (do Session.nameSet name (← WeakSet.construct b channel)) :=
  .bind (hA.construct hf hb channel) fun s =>
    .change (R := A n F) (fun _ h => hA.nameSet h name s) (.pure fun _ h => h)

theorem build {plan : Plan Script} (hp : plan.listener.IsPlain ∨ scripted) (name : String) :
    Preserves (A n F) (build name plan) := by
  have hwith (channel : Option ChannelId) : Preserves (A n F) (buildWith name plan channel) := by
    unfold buildWith
    split
    · exact .pure fun _ h => h
    · rename_i hf
      exact hA.constructNamed hf hp _ _
  unfold Session.build
  split
  · exact hwith none
  · exact withChannel fun c => hwith (some c)

theorem ofOwners {listener : Listener Script} (hl : listener.IsPlain ∨ scripted) (name : String)
    (owners : List String) (sized : Bool) :
    Preserves (A n F) (ofOwners run name owners sized listener) := by
  refine (hA.honoured.withOwners (d := True) fun es F => .allow trivial ?_).forget
  have hb : (if !sized && listener.isSilent then .scripted [] none false else listener :
      Listener Script).IsPlain ∨ scripted := by
    refine hl.imp_left fun hl => ?_
    split
    · exact fun _ => rfl
    · exact hl
  have hf : { Settings.standard with
      capacity := if sized then min es.length maxCapacity else 0 }.fault? = none := by
    split
    · exact Settings.fault?_sized _
    · rfl
  exact .bind (hA.constructOf hf hb es) fun s =>
    .change (R := A n F) (fun _ h => hA.nameSet h name s) (.pure fun _ h => h)

theorem dropSet (name : String) : Preserves (A n F) (dropSet name) := by
  refine withSet fun s => .change (R := A n F) (fun w h => hA.rename _ _ _ _ _ h) ?_
  refine .bind hA.destroy fun _ => .change (R := A n F) (fun w h => hA.rename _ _ _ _ _ h) ?_
  exact .pure fun _ h => h

/-! ## Commands and scripts -/

/-- Every command keeps the condition. -/
theorem perform {c : Command} (hscripts : c.IsScriptless ∨ scripted) (inScript : Bool) :
    Preserves (A n F) (Session.perform run inScript c) := by
  have hcover (hc : ∀ w, (Remit.all scripted).Covers c w) :
      Preserves (A n F) (Session.perform run inScript c) :=
    .imp (hA.honoured.perform inScript c).forget fun w hw => ⟨hw, hc w⟩
  have hreply {α : Type} (f : α → Reply) {a : Act α} (ha : Preserves (A n F) a) :
      Preserves (A n F) (f <$> a) := .map ha
  cases c with
  | new owner v onDrop onEqual => exact hA.newElement _ _ hscripts
  | newRange stem n first step => exact hA.newElements _
  | clone owner target => exact hA.clone owner target
  | drop owners => exact hA.dropOwners _
  | dropElsewhere owners => exact hA.dropOwnersTogether _
  | counts owner =>
    refine .get fun v => .left ?_
    split
    · exact Honoured.refuse _
    · exact .last (.look fun _ => .pure fun _ h => h.1)
  | sameElement a b => exact hA.withOwner fun x F => hA.withOwner fun y F => .pure fun _ h => h
  | sameValue a b =>
    exact hA.withOwner fun x F => hA.withOwner fun y F =>
      .map ((hA.upheld 0).sameElements x y).forget
  | forms owner => exact hA.withOwner fun e F => .last (.look fun _ => .pure fun _ h => h.1)
  | hashElement owner => exact hA.withOwner fun e F => .last (.look fun _ => .pure fun _ h => h.1)
  | newChannel name kind =>
    refine .get fun v => .left ?_
    split
    · exact Honoured.refuse _
    · split
      · exact Honoured.refuse _
      · exact .update (R := fun _ => A n F) (fun w h => hA.channels _ h) fun c =>
          .change (R := A n F) (fun w h => hA.rename _ _ _ _ _ h) (.pure fun _ h => h)
  | openChannel name => exact hA.withGated _ _
  | closeChannel name => exact hA.withGated _ _
  | channelLength name => exact withChannel fun c => .last (.look fun _ => .pure fun _ h => h.1)
  | drainChannel name =>
    refine withChannel fun c => .note (R := A n F) (fun w h => hA.drained c h) (hreply _ ?_)
    refine .last (.update (R := fun _ => A n F) (fun w h => ?_) fun _ => .pure fun _ h => h)
    rw [World.drain_eq]
    exact hA.channels _ h
  | forgetChannel name =>
    exact withChannel fun c => .change (R := A n F) (fun w h => hA.rename _ _ _ _ _ h)
      (.pure fun _ h => h)
  | enqueue name tickets => exact withChannel fun c => hA.enqueueSaved c tickets
  | sameTicket a b => exact withTicket fun x => withTicket fun y => .pure fun _ h => h
  | showTicket name => exact withTicket fun t => .pure fun _ h => h
  | constants => exact .pure fun _ h => h
  | validate settings =>
    rw [Session.perform]
    split <;> exact .pure fun _ h => h
  | build name plan =>
    refine ifFree ?_
    split
    · exact Honoured.refuse _
    · exact hA.build (hscripts.imp_left fun h => h _ rfl) _
  | newSet name listener =>
    exact ifFree (hA.constructNamed (b := ⟨name, .standard, .keyed, false, listener⟩) rfl hscripts _ _)
  | ofOwners name owners sized listener =>
    refine ifFree ?_
    split
    · exact Honoured.refuse _
    · exact hA.ofOwners hscripts _ _ sized
  | dropSet name =>
    rw [Session.perform]
    split
    · exact Honoured.refuse _
    · exact hA.dropSet name
  | keep owner => exact hA.keepRecord owner
  | panic set payload =>
    cases set with
    | none => exact Honoured.refuse _
    | some name => exact withSet fun _ => Honoured.refuse _
  | addTogether name v threads =>
    refine withSet fun s => .look fun _ => .left ?_
    split
    · exact hreply _ (hA.asCrew (hA.addTogether v _))
    · exact Honoured.refuse _
  | mixTogether threads count concurrency =>
    rw [Session.perform]
    split
    · exact .pure fun _ h => h
    · rename_i hf
      exact hreply _ (hA.asCrew (hA.mixTogether hf _ _))
  | retain name modulus remainder on | retainBy name keep on =>
    refine hcover fun _ => ⟨fun _ _ => trivial, fun x hx => hscripts.resolve_left fun h => ?_⟩
    rw [show on = [] from h] at hx
    cases hx
  | malformed name set why =>
    cases set with
    | none => exact Honoured.refuse _
    | some name => exact withSet fun _ => Honoured.refuse _
  | _ => exact hcover fun _ => by simp [Remit.Covers, Remit.Finds, Remit.Walks, Remit.all]

omit hA in
/-- A script keeps a condition if its commands do, with their replies noted. -/
theorem play {act : Command → Act Reply} {role : Role}
    (h : ∀ c, Ensures (A n F) (act c) (fun r w => A n F (w.note (.answered c.name r)))
      fun w => ∀ p, A n F (w.note (.answered c.name (.panicked p)))) (cs : Script) :
    Preserves (A n F) (play act role cs) := by
  induction cs with
  | nil => exact .pure fun _ h => h
  | cons c cs ih =>
    unfold Session.play
    split
    · exact .throw fun _ h => h
    · refine .attempt (h c) fun r => .note (R := A n F) (fun w hw => ?_) ih
      cases r with
      | ok r => exact hw
      | error p => exact hw p

end Condition.Total

/-- Conditions that every command of a script keeps, with its reply noted, if all scripts keep them all,
all scripts keep, however deep they nest. -/
theorem Runner.obeys_of {ι : Type} {A : ι → Condition} (hdeep : ∀ {i n F w name}, A i n F w →
    A i n F (w.note (.answered name (.refused .tooDeep))))
    (h : ∀ {run : Runner}, (∀ i, run.Obeys (A i)) → ∀ i n F c,
      Ensures (A i n F) (Session.perform run true c)
        (fun r w => A i n F (w.note (.answered c.name r)))
        fun w => ∀ p, A i n F (w.note (.answered c.name (.panicked p)))) (depth : Nat) (i : ι) :
    (runner depth).Obeys (A i) := by
  induction depth generalizing i with
  | zero => exact fun n F role cs => Condition.Total.play (fun _ => .pure fun _ => hdeep) cs
  | succ depth ih => exact fun n F role cs => Condition.Total.play (h ih i n F) cs

/-- A condition that every step keeps if all scripts do, all scripts keep, however deep they nest. -/
theorem Runner.obeys {A : Condition} (hnote : ∀ {n F w name r}, A n F w →
    A n F (w.note (.answered name r)))
    (h : ∀ {run : Runner} {n : Standing}, run.Obeys A → A.Total run True n) (depth : Nat) :
    (runner depth).Obeys A :=
  Runner.obeys_of (A := fun _ : Unit => A) hnote (fun hr _ _ _ _ =>
    ((h (hr ())).perform (.inr trivial) true).post (fun _ _ => hnote) fun _ hw _ => hnote hw) depth ()

end WeakSet
