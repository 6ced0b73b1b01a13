import WeakSet.Proofs.Batches
import WeakSet.Proofs.Trapping
import Mathlib.Data.List.Infix

/-!
# What a policy decides

The panic policy of a set decides about the result of a sweep, and about nothing else. `Alike σ R a b`
says that act `b` does in world `σ w` what act `a` does in world `w`, with results that are related by
`R`, unless a script meanwhile was answered a command on sets. One rule for each way to make acts of
others. No other command can tell the policy of a set (`Session.blind_perform`), and no script that runs
none (`Session.blind_runner`), and so a sweep whose listener touches no set comes to the same world under
either policy (`world_sweep_withPolicy`).
-/

namespace WeakSet

open Act

/-- The words for commands on sets. -/
def setWords : List String :=
  ["build", "new_set", "from", "drop_set", "eq", "config", "debug", "hash", "insert", "add", "add_all",
    "contains", "remove", "id_of", "contains_all", "remove_all", "retain_all", "retain", "len",
    "is_empty", "sweep", "clear", "to_vec", "into_iter", "iter", "next", "next_element",
    "remove_current", "iter_rest", "iter_drop", "par_add", "par_mix"]

/-- Whether an entry says that a script was answered a command on sets. -/
def Entry.touches : Entry → Bool
  | .answered name _ => setWords.contains name
  | _ => false

/-- On the way from one world to a later one no script was answered a command on sets. -/
def World.Untouched (w w' : World) : Prop :=
  ∀ l, w'.journal.toList = w.journal.toList ++ l → ∀ x ∈ l, x.touches = false

/-- A set gets another policy. -/
def World.withPolicy (w : World) (s : SetId) (p : Policy) : World :=
  { w with sets := w.sets.modify s fun c => { c with settings := { c.settings with policy := p } } }

namespace Act

/-- Two results that are related, or the same panic. -/
def Matches {α β : Type} (R : α → β → Prop) : Except Panic α → Except Panic β → Prop
  | .ok x, .ok y => R x y
  | .error p, .error q => p = q
  | _, _ => False

/-- The second act does in world `σ w` what the first does in world `w`, unless a script is answered a
command on sets. The first only adds to the journal. -/
structure Alike {α β : Type} (σ : World → World) (R : α → β → Prop) (a : Act α) (b : Act β) : Prop where
  adds : ∀ w, w.journal.toList <+: (a.exec w).2.journal.toList
  same : ∀ w, w.Untouched (a.exec w).2 →
    (b.exec (σ w)).2 = σ (a.exec w).2 ∧ Matches R (a.exec w).1 (b.exec (σ w)).1

/-- An act that cannot tell which policy a set has. -/
abbrev Blind {α : Type} (s : SetId) (p : Policy) (a : Act α) : Prop :=
  Alike (·.withPolicy s p) Eq a a

end Act

section Rules

variable {α β γ α' β' : Type} {σ : World → World} {R : α → β → Prop} {R' : α' → β' → Prop}
  {a : Act α} {b : Act β} {w w' w'' : World}

theorem World.Untouched.left (h : w.Untouched w'') (hj : w'.journal.toList <+: w''.journal.toList) :
    w.Untouched w' := by
  obtain ⟨l₂, e₂⟩ := hj
  intro l e x hx
  exact h (l ++ l₂) (by rw [← e₂, e, List.append_assoc]) x (List.mem_append_left _ hx)

theorem World.Untouched.right (h : w.Untouched w'') (hj : w.journal.toList <+: w'.journal.toList) :
    w'.Untouched w'' := by
  obtain ⟨l₁, e₁⟩ := hj
  intro l e x hx
  exact h (l₁ ++ l) (by rw [e, ← e₁, List.append_assoc]) x (List.mem_append_right _ hx)

namespace Act.Alike

theorem bind {f : α → Act α'} {g : β → Act β'} (ha : Alike σ R a b) (hR : ∀ x, ∃ y, R x y)
    (hf : ∀ x y, R x y → Alike σ R' (f x) (g y)) : Alike σ R' (a >>= f) (b >>= g) := by
  have hadds (w : World) : w.journal.toList <+: (a.exec w).2.journal.toList ∧
      (a.exec w).2.journal.toList <+: ((a >>= f).exec w).2.journal.toList := by
    refine ⟨ha.adds w, ?_⟩
    rw [exec_bind]
    rcases a.exec w with ⟨p | x, w₁⟩
    · exact List.prefix_rfl
    · obtain ⟨y, hy⟩ := hR x
      exact (hf x y hy).adds w₁
  refine ⟨fun w => (hadds w).1.trans (hadds w).2, fun w hu => ?_⟩
  obtain ⟨hw, hm⟩ := ha.same w (hu.left (hadds w).2)
  have hu' := hu.right (hadds w).1
  rw [exec_bind] at hu' ⊢
  rw [exec_bind]
  rcases hx : a.exec w with ⟨p | x, w₁⟩ <;> rcases hy : b.exec (σ w) with ⟨q | y, v₁⟩ <;>
    rw [hx, hy] at hm hw
  · exact ⟨hw, hm⟩
  · cases hm
  · cases hm
  · rw [hx] at hu'
    obtain rfl : v₁ = σ w₁ := hw
    exact (hf x y hm).same w₁ hu'

/-- An act that comes to the same, and then others. -/
theorem seq {c : Act γ} {f : γ → Act α'} {g : γ → Act β'} (hc : Alike σ Eq c c)
    (hf : ∀ x, Alike σ R' (f x) (g x)) : Alike σ R' (c >>= f) (c >>= g) :=
  hc.bind (fun x => ⟨x, rfl⟩) (by rintro x _ rfl; exact hf x)

theorem pure {x : α} {y : β} (h : R x y) : Alike σ R (pure x) (pure y) :=
  ⟨fun _ => List.prefix_rfl, fun _ _ => ⟨rfl, h⟩⟩

theorem lookPure {f : World → γ} {g : γ → α} {g' : γ → β} (h : ∀ w, R (g (f w)) (g' (f (σ w)))) :
    Alike σ R (do return g (← look f)) (do return g' (← look f)) :=
  ⟨fun _ => List.prefix_rfl, fun w _ => ⟨rfl, h w⟩⟩

theorem throw {p : Panic} : Alike σ R (throw p : Act α) (throw p : Act β) :=
  ⟨fun _ => List.prefix_rfl, fun _ _ => ⟨rfl, rfl⟩⟩

theorem foldlM {f : α → γ → Act α} {g : β → γ → Act β} (hR : ∀ x, ∃ y, R x y)
    (hf : ∀ x y z, R x y → Alike σ R (f x z) (g y z)) (zs : List γ) {x : α} {y : β} (h : R x y) :
    Alike σ R (zs.foldlM f x) (zs.foldlM g y) := by
  induction zs generalizing x y with
  | nil => exact .pure h
  | cons z zs ih =>
    rw [List.foldlM_cons, List.foldlM_cons]
    exact (hf x y z h).bind hR fun _ _ => ih

end Act.Alike

end Rules

/-! ## Acts that cannot tell a policy -/

section Blind

variable {α β γ : Type} {s : SetId} {p : Policy} {a : Act α}

theorem Act.matches_eq {r r' : Except Panic α} : Matches Eq r r' ↔ r' = r := by
  cases r <;> cases r' <;> simp [Matches, eq_comm]

namespace Act.Blind

/-- What an act does with another policy. -/
theorem exec (h : Blind s p a) {w : World} (hu : w.Untouched (a.exec w).2) :
    a.exec (w.withPolicy s p) = ((a.exec w).1, (a.exec w).2.withPolicy s p) :=
  Prod.ext (matches_eq.mp (h.same w hu).2) (h.same w hu).1

theorem of_exec (hj : ∀ w, w.journal.toList <+: (a.exec w).2.journal.toList)
    (h : ∀ w, w.Untouched (a.exec w).2 →
      a.exec (w.withPolicy s p) = ((a.exec w).1, (a.exec w).2.withPolicy s p)) : Blind s p a :=
  ⟨hj, fun w hu => by rw [h w hu]; exact ⟨rfl, matches_eq.mpr rfl⟩⟩

theorem bind {f : α → Act β} (ha : Blind s p a) (hf : ∀ x, Blind s p (f x)) : Blind s p (a >>= f) :=
  Alike.seq ha hf

theorem pure (x : α) : Blind s p (pure x) :=
  Alike.pure rfl

theorem look {f : World → α} (h : ∀ w, f (w.withPolicy s p) = f w) : Blind s p (look f) :=
  .of_exec (fun _ => List.prefix_rfl) fun w _ => by rw [exec_look, h]; rfl

theorem change {f : World → World} (hj : ∀ w, w.journal.toList <+: (f w).journal.toList)
    (h : ∀ w, f (w.withPolicy s p) = (f w).withPolicy s p) : Blind s p (change f) :=
  .of_exec hj fun w _ => by rw [exec_change, h]; rfl

theorem update {f : World → α × World} (hj : ∀ w, w.journal.toList <+: (f w).2.journal.toList)
    (h : ∀ w, f (w.withPolicy s p) = ((f w).1, (f w).2.withPolicy s p)) : Blind s p (update f) :=
  .of_exec hj fun w _ => by rw [exec_update, h]; rfl

theorem note (x : Entry) : Blind s p (note x) :=
  .change (fun w => World.prefix_push w x) fun _ => rfl

theorem attempt (h : Blind s p a) : Blind s p (attempt a) :=
  .of_exec h.adds fun w hu => by rw [exec_attempt, h.exec hu]; rfl

theorem settle (r : Except Panic α) : Blind s p (settle r) := by
  cases r with
  | ok x => exact .pure x
  | error _ => exact Alike.throw

theorem map (f : α → β) (h : Blind s p a) : Blind s p (f <$> a) := by
  rw [← bind_pure_comp]
  exact .bind h fun x => .pure (f x)

theorem get {g : World → Act α} (hg : ∀ w, g (w.withPolicy s p) = g w) (h : ∀ w, Blind s p (g w)) :
    Blind s p (get >>= g) :=
  .of_exec (fun w => (h w).adds w) fun w hu => by
    change (g (w.withPolicy s p)).exec (w.withPolicy s p) = _
    rw [hg]
    exact (h w).exec hu

end Act.Blind

/-! ## References -/

namespace World

theorem hasChannel_withPolicy (w : World) (c : ChannelId) :
    (w.withPolicy s p).hasChannel c = w.hasChannel c := by
  rw [hasChannel, hasChannel]
  exact congrArg _ (any_modify _ _ fun _ => rfl)

theorem announce_withPolicy (w : World) (x : Watcher) :
    (w.withPolicy s p).announce x = (w.announce x).withPolicy s p := by
  rw [announce, announce, hasChannel_withPolicy]
  split <;> rfl

theorem foldl_announce_withPolicy (xs : List Watcher) (w : World) :
    xs.foldl announce (w.withPolicy s p) = (xs.foldl announce w).withPolicy s p := by
  induction xs generalizing w with
  | nil => rfl
  | cons x xs ih => rw [List.foldl_cons, List.foldl_cons, announce_withPolicy, ih]

theorem release_withPolicy (w : World) (e : ElementId) :
    (w.withPolicy s p).release e = ((w.release e).1, (w.release e).2.withPolicy s p) := by
  have hc : (w.withPolicy s p).cells = w.cells := rfl
  unfold release
  rw [hc]
  rcases w.cells[e]? with _ | c
  · rfl
  · by_cases h1 : c.strong = 1
    · have hann : c.watchers.foldl announce { w.withPolicy s p with
          cells := w.cells.set! e { c with strong := 0, watchers := [] } } =
          (c.watchers.foldl announce (w.expire e c)).withPolicy s p :=
        foldl_announce_withPolicy c.watchers (w.expire e c)
      simp only [h1, ite_true]
      rw [hann]
      cases c.element.onDrop <;> rfl
    · simp only [h1, ite_false]
      rfl

theorem foldl_acquire_withPolicy (es : List ElementId) (w : World) :
    es.foldl acquire (w.withPolicy s p) = (es.foldl acquire w).withPolicy s p := by
  induction es generalizing w with
  | nil => rfl
  | cons e es ih => exact ih (w.acquire e)

end World

namespace Act.Blind

variable {run : Runner} (hb : ∀ role script, Blind s p (run role script))

include hb

theorem release (e : ElementId) : Blind s p (release run e) := by
  refine .bind (.update (fun w => ?_) fun w => World.release_withPolicy w e) fun script => ?_
  · obtain ⟨l, hl, -⟩ := w.journal_release e
    exact hl ▸ List.prefix_append _ _
  · cases script with
    | none => exact .pure ()
    | some script => exact .map _ (hb .destructor script).attempt

theorem releaseAll (es : List ElementId) : Blind s p (releaseAll run es) := by
  induction es with
  | nil => exact .pure ()
  | cons e es ih => exact .bind (.release hb e) fun _ => ih

theorem holding (es : List ElementId) (h : Blind s p a) : Blind s p (holding run es a) :=
  .bind h.attempt fun r => .bind (.releaseAll hb es) fun _ => .settle r

theorem borrowing (es : List ElementId) (h : Blind s p a) : Blind s p (borrowing run es a) :=
  .bind (.change (fun w => by rw [World.foldl_acquire_eq])
    fun w => World.foldl_acquire_withPolicy es w) fun _ => .holding hb es h

end Act.Blind

/-! ## Commands that touch no set -/

namespace Session

open Act.Blind

theorem blind_refuse (r : Refusal) : Blind s p (refuse r) :=
  .pure _

theorem blind_withChannel {name : String} {body : ChannelId → Act Reply}
    (h : ∀ c, Blind s p (body c)) : Blind s p (withChannel name body) := by
  refine .get (fun _ => rfl) fun w => ?_
  split
  · exact blind_refuse _
  · exact h _

theorem blind_withTicket {name : String} {body : Ticket → Act Reply}
    (h : ∀ t, Blind s p (body t)) : Blind s p (withTicket name body) := by
  refine .get (fun _ => rfl) fun w => ?_
  split
  · exact blind_refuse _
  · exact h _

theorem blind_withSet {name : String} {body : SetId → Act Reply}
    (h : ∀ s', Blind s p (body s')) : Blind s p (withSet name body) := by
  refine .get (fun _ => rfl) fun w => ?_
  split
  · exact blind_refuse _
  · exact h _

theorem blind_withGated (name : String) (f : Channel → Channel) : Blind s p (withGated name f) := by
  refine blind_withChannel fun c => .get (fun _ => rfl) fun w => ?_
  split
  · exact blind_refuse _
  · split
    · exact blind_refuse _
    · exact .bind (.change (fun _ => List.prefix_rfl) fun _ => rfl) fun _ => .pure _

theorem blind_ownAs (name : String) (e : ElementId) : Blind s p (ownAs name e) := by
  refine .update (fun w => ?_) fun w => ?_
  · cases w.owners.find? name <;> exact List.prefix_rfl
  · have ho : (w.withPolicy s p).owners = w.owners := rfl
    rw [ho]
    cases w.owners.find? name <;> rfl

theorem blind_newElement (owner : String) (v : Value) (onDrop onEqual : Option Script) :
    Blind s p (newElement owner v onDrop onEqual) := by
  refine .get (fun _ => rfl) fun w => ?_
  split
  · exact blind_refuse _
  · exact .bind (.update (fun _ => List.prefix_rfl) fun _ => rfl) fun e =>
      .bind (.map _ (blind_ownAs owner e)) fun _ => .pure _

theorem blind_newElements (xs : List (String × Value)) : Blind s p (newElements xs) := by
  induction xs with
  | nil => exact .pure _
  | cons x xs ih =>
    refine .bind (blind_newElement x.1 x.2 none none) fun r => ?_
    split
    · exact ih
    · exact .pure _

theorem blind_takeOwners (os : List String) : Blind s p (takeOwners os) := by
  induction os with
  | nil => exact .pure _
  | cons o os ih =>
    refine .get (fun _ => rfl) fun w => ?_
    split
    · exact .pure _
    · exact .bind (.change (fun _ => List.prefix_rfl) fun _ => rfl) fun _ =>
        .bind ih fun r => .pure _

theorem blind_enqueueSaved (c : ChannelId) (names : List String) :
    Blind s p (enqueueSaved c names) := by
  induction names with
  | nil => exact .pure _
  | cons name names ih =>
    exact blind_withTicket fun t =>
      .bind (.change (fun w => World.prefix_push w (.posted c t)) fun _ => rfl) fun _ => ih

variable {run : Runner} (hb : ∀ role script, Blind s p (run role script))

include hb

theorem blind_withOwner {name : String} {body : ElementId → Act Reply}
    (h : ∀ e, Blind s p (body e)) : Blind s p (withOwner run name body) := by
  refine .get (fun _ => rfl) fun w => ?_
  split
  · exact blind_refuse _
  · exact .borrowing hb _ (h _)

theorem blind_compareHook (e : ElementId) : Blind s p (compareHook run e) := by
  refine .bind (.look fun _ => rfl) fun script? => ?_
  cases script? with
  | none => exact .pure _
  | some script => exact .bind (.look fun _ => rfl) fun f => .bind (.note _) fun _ => hb .equality script

theorem blind_sameElements (a b : ElementId) : Blind s p (sameElements run a b) :=
  .bind (blind_compareHook hb a) fun _ => .bind (blind_compareHook hb b) fun _ => .look fun _ => rfl

theorem blind_dropOwners (os : List String) : Blind s p (dropOwners run os) := by
  induction os with
  | nil => exact .pure _
  | cons o os ih =>
    refine .get (fun _ => rfl) fun w => ?_
    split
    · exact blind_refuse _
    · exact .bind (.change (fun _ => List.prefix_rfl) fun _ => rfl) fun _ =>
        .bind (.release hb _) fun _ => ih

theorem blind_dropOwnersTogether (os : List String) : Blind s p (dropOwnersTogether run os) := by
  refine .bind (blind_takeOwners os) fun r => .bind (.releaseAll hb _) fun _ => ?_
  split
  · exact .pure _
  · exact blind_refuse _

theorem blind_keepRecord (owner : String) : Blind s p (keepRecord run owner) := by
  refine .bind (.update (fun w => ?_) fun w => ?_) fun r? => ?_
  · rcases w.hands with _ | ⟨_ | r, hands⟩ <;> exact List.prefix_rfl
  · have hh : (w.withPolicy s p).hands = w.hands := rfl
    rw [hh]
    rcases hw : w.hands with _ | ⟨_ | r, hands⟩ <;> rfl
  · cases r? with
    | none => exact blind_refuse _
    | some r =>
      simp only
      cases r.last with
      | none => exact .pure _
      | some e =>
        refine .bind (blind_ownAs owner e) fun b => ?_
        cases b with
        | true => exact .pure _
        | false => exact .bind (.release hb e) fun _ => blind_refuse _

/-- A command that is not one on sets cannot tell a policy. -/
theorem blind_perform (inScript : Bool) (c : Command) :
    setWords.contains c.name ∨ Blind s p (perform run inScript c) := by
  cases c with
  | new owner v onDrop onEqual => exact .inr (blind_newElement _ _ _ _)
  | newRange stem n first step => exact .inr (blind_newElements _)
  | clone owner target =>
    refine .inr (blind_withOwner hb fun e => .bind (blind_ownAs target e) fun b => ?_)
    cases b with
    | true => exact .bind (.change (fun _ => List.prefix_rfl) fun _ => rfl) fun _ => .pure _
    | false => exact blind_refuse _
  | drop owners => exact .inr (blind_dropOwners hb _)
  | dropElsewhere owners => exact .inr (blind_dropOwnersTogether hb _)
  | counts owner =>
    refine .inr (.get (fun _ => rfl) fun w => ?_)
    split
    · exact blind_refuse _
    · exact .look fun _ => rfl
  | sameElement a b => exact .inr (blind_withOwner hb fun x => blind_withOwner hb fun y => .pure _)
  | sameValue a b =>
    exact .inr (blind_withOwner hb fun x => blind_withOwner hb fun y =>
      .map _ (blind_sameElements hb x y))
  | forms owner => exact .inr (blind_withOwner hb fun e => .look fun _ => rfl)
  | hashElement owner => exact .inr (blind_withOwner hb fun e => .look fun _ => rfl)
  | newChannel name kind =>
    refine .inr (.get (fun _ => rfl) fun w => ?_)
    split
    · exact blind_refuse _
    · split
      · exact blind_refuse _
      · exact .bind (.update (fun _ => List.prefix_rfl) fun _ => rfl) fun c =>
          .bind (.change (fun _ => List.prefix_rfl) fun _ => rfl) fun _ => .pure _
  | openChannel name => exact .inr (blind_withGated _ _)
  | closeChannel name => exact .inr (blind_withGated _ _)
  | channelLength name => exact .inr (blind_withChannel fun c => .look fun _ => rfl)
  | drainChannel name =>
    refine .inr (blind_withChannel fun c => .bind (.note _) fun _ => .map _ (.update (fun w => ?_)
      fun w => ?_))
    · rw [World.drain_eq]
    · have hch : (w.withPolicy s p).channels = w.channels := rfl
      rw [World.drain, World.drain, hch]
      cases w.channels[c]? <;> rfl
  | forgetChannel name =>
    exact .inr (blind_withChannel fun c => .bind (.change (fun _ => List.prefix_rfl) fun _ => rfl)
      fun _ => .pure _)
  | enqueue name tickets => exact .inr (blind_withChannel fun c => blind_enqueueSaved c tickets)
  | sameTicket a b => exact .inr (blind_withTicket fun x => blind_withTicket fun y => .pure _)
  | showTicket name => exact .inr (blind_withTicket fun t => .pure _)
  | constants => exact .inr (.pure _)
  | validate settings =>
    refine .inr ?_
    rw [Session.perform]
    split <;> exact .pure _
  | keep owner => exact .inr (blind_keepRecord hb owner)
  | panic set payload =>
    cases set with
    | none => exact .inr (blind_refuse _)
    | some name => exact .inr (blind_withSet fun _ => blind_refuse _)
  | malformed name set why =>
    cases set with
    | none => exact .inr (blind_refuse _)
    | some name => exact .inr (blind_withSet fun _ => blind_refuse _)
  | _ => exact .inl (by simp [setWords, Command.name])

omit hb

/-- The answer to a command on sets is in the journal. -/
theorem blind_answered {b : Act Reply} {c : Act β} {name : String}
    (hj : ∀ w, w.journal.toList <+: (b.exec w).2.journal.toList) (hn : setWords.contains name)
    (hc : Blind s p c) :
    Blind s p (do Act.note (.answered name (replyOf (← Act.attempt b))); c) := by
  have hadds (w : World) :
      (b.exec w).2.journal.toList ++ [.answered name (replyOf (b.exec w).1)] <+:
        ((do Act.note (.answered name (replyOf (← Act.attempt b))); c).exec w).2.journal.toList := by
    have h := hc.adds ((b.exec w).2.note (.answered name (replyOf (b.exec w).1)))
    rwa [World.note, Array.toList_push] at h
  refine .of_exec (fun w => (hj w).trans ((List.prefix_append _ _).trans (hadds w))) fun w hu => ?_
  obtain ⟨l₁, h₁⟩ := hj w
  obtain ⟨l₂, h₂⟩ := hadds w
  rw [← h₁, List.append_assoc, List.append_assoc] at h₂
  have := hu _ h₂.symm (.answered name (replyOf (b.exec w).1)) (by simp)
  rw [Entry.touches, hn] at this
  cases this

/-- A script cannot tell a policy if each of its commands cannot or is one on sets. -/
theorem blind_play {act : Command → Act Reply} {role : Role}
    (hadds : ∀ c w, w.journal.toList <+: ((act c).exec w).2.journal.toList)
    (h : ∀ c, setWords.contains c.name ∨ Blind s p (act c)) (cs : Script) :
    Blind s p (play act role cs) := by
  induction cs with
  | nil => exact .pure _
  | cons c cs ih =>
    unfold play
    split
    · exact Alike.throw
    · rcases h c with hc | hc
      · exact blind_answered (hadds c) hc ih
      · exact .bind hc.attempt fun r => .bind (.note _) fun _ => ih

/-- No script that runs no command on sets can tell a policy, however deep scripts nest. -/
theorem blind_runner (depth : Nat) (role : Role) (script : Script) :
    Blind s p (runner depth role script) := by
  induction depth generalizing role script with
  | zero =>
    exact blind_play (fun _ _ => List.prefix_rfl) (fun _ => .inr (blind_refuse _)) script
  | succ depth ih =>
    refine blind_play (fun c w => ?_) (fun c => blind_perform ih true c) script
    refine (Act.locking_exec (fun j n F => ?_) w).2
    exact (total_locking (Runner.obeys (A := .locking j True) World.locking_note
      total_locking depth)).perform (.inr trivial) true

end Session

/-! ## Sweeps -/

namespace World

/-- What does not depend on its policy is the same of every set. -/
theorem collection_withPolicy {f : Collection → γ}
    (hf : ∀ c : Collection, f { c with settings := { c.settings with policy := p } } = f c)
    (w : World) (s' : SetId) : f ((w.withPolicy s p).collection s') = f (w.collection s') := by
  by_cases hs : s < w.sets.size
  · rw [withPolicy, collection_modify hs]
    split
    · subst_vars
      exact hf _
    · rfl
  · rw [withPolicy, modify_sets_of_size_le (Nat.le_of_not_lt hs)]

theorem modify_modify_comm (xs : Array Collection) (i j : Nat) {f g : Collection → Collection}
    (h : ∀ x, f (g x) = g (f x)) : (xs.modify i f).modify j g = (xs.modify j g).modify i f := by
  refine Array.ext_getElem? fun n => ?_
  simp only [Array.getElem?_modify]
  split <;> split <;> cases xs[n]? <;> simp [h]

/-- What is done to one set otherwise does not depend on policies. -/
theorem modify_withPolicy {f : Collection → Collection}
    (hf : ∀ c : Collection, f { c with settings := { c.settings with policy := p } } =
      { f c with settings := { (f c).settings with policy := p } }) (w : World) (s' : SetId) :
    { w.withPolicy s p with sets := (w.withPolicy s p).sets.modify s' f } =
      withPolicy { w with sets := w.sets.modify s' f } s p :=
  congrArg (fun sets => { w with sets := sets }) (modify_modify_comm w.sets s s' fun c => (hf c).symm)

theorem shard_withPolicy (w : World) (s' : SetId) (k : Nat) :
    (w.withPolicy s p).shard s' k = w.shard s' k :=
  collection_withPolicy (f := fun c => c.shards.getD k {}) (fun _ => rfl) w s'

theorem takeOut_withPolicy (w : World) (t : Ticket) (d : Departure) :
    (w.withPolicy s p).takeOut t d = ((w.takeOut t d).1, (w.takeOut t d).2.withPolicy s p) := by
  have hset (sh : Shard) : (w.withPolicy s p).setShard t.owner t.shard sh =
      (w.setShard t.owner t.shard sh).withPolicy s p :=
    modify_withPolicy (f := fun c => { c with shards := c.shards.set! t.shard sh }) (fun _ => rfl) w _
  unfold takeOut
  rw [shard_withPolicy]
  rcases (w.shard t.owner t.shard).remove t.key with ⟨_ | h, sh⟩
  · rfl
  · simp only [hset]
    rfl

theorem unwatch_withPolicy (w : World) (e : ElementId) (t : Ticket) :
    (w.withPolicy s p).unwatch e t = (w.unwatch e t).withPolicy s p := by
  have ha : (w.withPolicy s p).isAlive e = w.isAlive e := rfl
  unfold unwatch
  simp only [ha, hasChannel_withPolicy]
  split <;> rfl

theorem takeNotices_withPolicy (w : World) (s' : SetId) :
    (w.withPolicy s p).takeNotices s' = ((w.takeNotices s').1, (w.takeNotices s').2.withPolicy s p) := by
  have hc : ((w.withPolicy s p).collection s').channel = (w.collection s').channel :=
    collection_withPolicy (f := Collection.channel) (fun _ => rfl) w s'
  have hch : (w.withPolicy s p).channels = w.channels := rfl
  rw [takeNotices, takeNotices, hc, drain, drain, hch]
  cases w.channels[(w.collection s').channel]? <;> rfl

theorem countCall_withPolicy (w : World) (s' : SetId) :
    (w.withPolicy s p).countCall s' = ((w.countCall s').1, (w.countCall s').2.withPolicy s p) :=
  Prod.ext (collection_withPolicy (f := Collection.calls) (fun _ => rfl) w s')
    (modify_withPolicy (f := fun c => { c with calls := c.calls + 1 }) (fun _ => rfl) w s')

theorem prefix_summed (w : World) (n : Nat) :
    w.journal.toList <+: (w.summed n).journal.toList := by
  unfold summed
  split
  · exact w.prefix_push _
  · exact List.prefix_rfl

theorem summed_withPolicy (w : World) (n : Nat) :
    (w.withPolicy s p).summed n = (w.summed n).withPolicy s p := by
  unfold summed
  split <;> rfl

end World

/-- Two batches took out as many handles. -/
def Batch.Tallies (b b' : Batch) : Prop :=
  b'.reclaimed = b.reclaimed

namespace Act.Blind

/-- A reading that the act goes on with does not tell the policy. -/
theorem lookThen {f : World → γ} {g : γ → Act α} (hg : ∀ w, g (f (w.withPolicy s p)) = g (f w))
    (h : ∀ x, Blind s p (g x)) : Blind s p (Act.look f >>= g) :=
  .of_exec (fun w => (h (f w)).adds w) fun w hu => by
    change (g (f (w.withPolicy s p))).exec (w.withPolicy s p) = _
    rw [hg]
    exact (h (f w)).exec hu

theorem guarded (s' : SetId) (h : Blind s p a) : Blind s p (guarded s' a) := by
  refine .bind (.bind (.look fun _ => rfl) fun entered => ?_) fun _ => .bind h.attempt fun r =>
    .bind (.change (fun _ => List.prefix_rfl) fun _ => rfl) fun _ => .settle r
  split
  · exact .bind (.note _) fun _ => Alike.throw
  · exact .change (fun _ => List.prefix_rfl) fun _ => rfl

theorem takeOut (t : Ticket) (d : Departure) : Blind s p (takeOut t d) := by
  refine .guarded _ (.update (fun w => ?_) fun w => World.takeOut_withPolicy w t d)
  rcases World.takeOut_cases w t d with ⟨-, e⟩ | ⟨x, -, e⟩ <;> rw [e]
  exact World.prefix_push w _

theorem reach (h : Handle) : Blind s p (reach h) := by
  unfold Act.reach
  split
  · refine .update (fun w => ?_) fun w => ?_
    · split <;> exact List.prefix_rfl
    · change (if w.isAlive h.element then _ else _) = _
      split <;> rfl
  · exact .pure _

theorem closeBooks (t : Ticket) (h : Handle) : Blind s p (closeBooks t h) := by
  refine .bind (.look fun _ => rfl) fun ended => .bind (.change (fun w => ?_)
    fun w => World.unwatch_withPolicy w _ t) fun _ => .bind (.note _) fun _ =>
      .bind (.reach h) fun _ => .pure _
  rw [World.unwatch_eq]

variable {run : Runner} (hb : ∀ role script, Blind s p (run role script))

include hb

theorem listen (s' : SetId) (n : Nat) : Blind s p (listen run s' n) := by
  refine .bind (.attempt (.lookThen (fun w => ?_) fun c => ?_)) fun r =>
    .bind (.update (fun _ => List.prefix_rfl) fun _ => rfl) fun left => ?_
  · rw [World.collection_withPolicy (f := Collection.listener) fun _ => rfl]
  · split
    · exact .pure ()
    · exact hb .listener _
  cases left.bind Record.last with
  | none => exact .settle r
  | some e => exact .bind (.release hb e) fun _ => .settle r

theorem report (s' : SetId) (r : Record) : Blind s p (report run s' r) :=
  .bind (.update (fun _ => List.prefix_rfl) fun w => World.countCall_withPolicy w s') fun n =>
    .bind (.look fun _ => rfl) fun _ => .bind (.look fun _ => rfl) fun _ => .bind (.note _) fun _ =>
      .bind (.change (fun _ => List.prefix_rfl) fun _ => rfl) fun _ => .listen hb s' n

end Act.Blind

variable {run : Runner} (hb : ∀ role script, Blind s p (run role script))

include hb

/-- A ticket of a batch is dealt with in the same way, and counts the same. -/
theorem alike_sweepOne (s' : SetId) {b b' : Batch} (h : b.Tallies b') (t : Ticket) :
    Alike (·.withPolicy s p) Batch.Tallies (sweepOne run s' b t) (sweepOne run s' b' t) := by
  have hforeign (w : World) : (w.withPolicy s p).isForeign s' t = w.isForeign s' t := by
    rw [World.isForeign, World.isForeign, World.shardCount,
      World.collection_withPolicy (f := fun c => c.shards.size) fun _ => rfl]
    rfl
  -- the policy is read when a listener call is over, and changes no count
  have hend (o : Except Panic Unit) : Alike (·.withPolicy s p) Batch.Tallies
      (do return b.reportEnded (← look (·.collection s')).settings.policy o)
      (do return b'.reportEnded (← look (·.collection s')).settings.policy o) := by
    refine .lookPure fun w => ?_
    unfold Batch.reportEnded
    split <;> split <;> exact congrArg (· + 1) h
  refine .seq (Blind.look hforeign) fun foreign => ?_
  split
  · exact .seq (Blind.note _) fun _ => .pure h
  · refine .seq (Blind.takeOut t .swept) fun h? => ?_
    cases h? with
    | none => exact .pure h
    | some x =>
      refine .seq (Blind.closeBooks t x) fun r => .seq (Blind.report hb s' r).attempt fun o => ?_
      cases o with
      | ok _ => exact hend (.ok ())
      | error q => exact .seq (Blind.note _) fun _ => hend (.error q)

theorem alike_batch (s' : SetId) :
    Alike (·.withPolicy s p) Batch.Tallies
      (do (← update (·.takeNotices s')).foldlM (sweepOne run s') {})
      (do (← update (·.takeNotices s')).foldlM (sweepOne run s') {}) := by
  refine .seq (Blind.update (fun w => ?_) fun w => World.takeNotices_withPolicy w s') fun ts =>
    Alike.foldlM (R := Batch.Tallies) (fun b => ⟨b, rfl⟩) (fun b b' t h => alike_sweepOne hb s' h t) ts
      rfl
  rw [World.takeNotices_eq]

/-- The policy of a set makes no difference to what a sweep does to the world, unless a script is
answered a command on sets meanwhile. -/
theorem world_sweep_withPolicy (s' : SetId) {w : World} (hu : w.Untouched ((sweep run s').exec w).2) :
    ((sweep run s').exec (w.withPolicy s p)).2 = ((sweep run s').exec w).2.withPolicy s p := by
  have hx (w : World) : (sweep run s').exec w =
      ((do (← update (·.takeNotices s')).foldlM (sweepOne run s') {}) >>= closeBatch).exec w := by
    rw [sweep, bind_assoc]
  have hbatch := alike_batch (p := p) (s := s) hb s'
  rw [hx] at hu ⊢
  rw [hx]
  generalize (do (← update (·.takeNotices s')).foldlM (sweepOne run s') {} : Act Batch) = batch
    at hu hbatch
  have hsame := hbatch.same w
  rw [exec_bind] at hu ⊢
  rw [exec_bind]
  rcases h₁ : batch.exec w with ⟨q | b, w₁⟩ <;> rcases h₂ : batch.exec (w.withPolicy s p) with
    ⟨q' | b', v₁⟩ <;> rw [h₁, h₂] at hsame <;> rw [h₁] at hu
  · exact (hsame hu).1
  · exact (hsame hu).2.elim
  all_goals
    simp only [exec_closeBatch] at hu ⊢
    obtain ⟨rfl, hm⟩ := hsame (hu.left (w₁.prefix_summed b.reclaimed))
  · cases hm
  · rw [show b'.reclaimed = b.reclaimed from hm]
    exact w₁.summed_withPolicy b.reclaimed

end Blind

end WeakSet
