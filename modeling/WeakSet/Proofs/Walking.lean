import WeakSet.Proofs.Balance
import WeakSet.Proofs.Naming

/-!
# Cursors and sets that come and go

A step of a cursor holds the element that it comes to, and stays a step through the same set
(`Cursor.leads_next`, `Cursor.yields_next`). A set is made before anything is put into it, and is
unmade if that fails (`balanced_constructOf`).
-/

namespace WeakSet

open Act Duties

variable {L : Scene} {run : Runner} (hr : run.Sound) {w : World} {D E : Duties} {s : SetId}

namespace Cursor

/-- What comes with the result of a step. -/
def Step.due {α : Type} (G : α → Duties) (x : Step α) : Duties :=
  match x.outcome with
  | .ok a => G a
  | .error _ => 0

theorem Step.due_zero {α : Type} (x : Step α) : x.due (fun _ => 0) = 0 := by
  unfold Step.due; split <;> rfl

/-- The element that a step comes to is held. -/
abbrev oneHeld (e? : Option ElementId) : Duties :=
  holds e?.toList

def Sight.due : Sight → Duties
  | element e => .hold e ::ₘ 0
  | _ => 0

theorem leads_sight (k : Nat) (key : SlotKey) :
    Leads L (sight s k key) w D (fun x => x.due + D) E := by
  refine .look ?_
  split
  · exact .pure (Multiset.zero_add D).symm
  · rename_i h _
    refine .bind (leads_reach h) fun e? w' _ _ => ?_
    cases e? with
    | some e => exact .pure (by simp [Sight.due])
    | none =>
      rw [holds_toList_none]
      refine .look ?_
      split
      · exact .pure (Multiset.zero_add D).symm
      · exact .pure (Multiset.zero_add D).symm

/-- Only a weak handle lets a cursor see its element. -/
theorem weak_of_sight {k : Nat} {key : SlotKey} {e : ElementId} {w' : World}
    (hx : (sight s k key).exec w = (.ok (.element e), w')) :
    ∃ h, w.handle? ⟨s, k, key⟩ = some h ∧ h.kind = .weak := by
  rw [sight, exec_bind_ok (exec_look _ w)] at hx
  rcases hh : (w.shard s k).get? key with _ | h <;> rw [hh] at hx
  · cases (exec_pure_eq_ok.mp hx).1
  · obtain ⟨e?, w₁, h₁, hx⟩ := exec_bind_eq_ok.mp hx
    refine ⟨h, hh, ?_⟩
    cases e? with
    | some e => exact (yields_reach h _ _ _ h₁ e rfl).2
    | none =>
      obtain ⟨a, w₂, -, hx⟩ := exec_bind_eq_ok.mp hx
      split at hx <;> cases (exec_pure_eq_ok.mp hx).1

/-- What a cursor sees under a key. -/
theorem exec_sight {t : Ticket} {k : Nat} {key : SlotKey} (hn : s ∉ w.entered)
    (hk : ∀ h, w.handle? t = some h → h.kind = .weak) (ht : t = ⟨s, k, key⟩) :
    (guarded s (sight s k key)).exec w =
      match w.handle? t with
      | none => (.ok .nothing, w)
      | some h =>
        if w.isAlive h.element then (.ok (.element h.element), w.acquire h.element)
        else (.ok .ended, w) := by
  have hget : ((w.lock s).shard s k).get? key = w.handle? t := by rw [ht]; rfl
  rcases hh : w.handle? t with _ | h <;> simp only
  · refine exec_guarded_lock hn ?_
    rw [sight, exec_bind_ok (exec_look _ _), hget, hh]
    rfl
  · have hr := exec_reach (w := w.lock s) (hk h hh)
    by_cases ha : w.isAlive h.element
    · rw [if_pos (show (w.lock s).isAlive h.element from ha)] at hr
      rw [if_pos ha]
      refine exec_guarded_lock hn ?_
      rw [sight, exec_bind_ok (exec_look _ _), hget, hh]
      exact exec_bind_ok hr _
    · rw [if_neg (show ¬ (w.lock s).isAlive h.element from ha)] at hr
      rw [if_neg ha]
      refine exec_guarded_lock hn ?_
      rw [sight, exec_bind_ok (exec_look _ _), hget, hh]
      refine (exec_bind_ok hr _).trans ?_
      rw [exec_bind_ok (exec_look _ _), show (w.lock s).isAlive h.element = false from
        Bool.eq_false_iff.mpr ha]
      rfl

include hr

theorem leads_visit (c : Cursor) (hc : c.set < w.sets.size) (key : SlotKey) :
    Leads L (c.visit run key) w D (fun e? => holds e?.toList + D) D := by
  refine .bind (leads_guarded_add fun _ => leads_sight _ _) fun x w' _ hl => ?_
  cases x with
  | element e => exact .pure (by simp [Sight.due])
  | nothing => exact .pure (by simp [Sight.due])
  | ended =>
    simp only [Sight.due, Multiset.zero_add]
    exact leads_swept hr (hc.trans_le hl.sets) fun _ _ => .pure (by simp)

omit hr in
/-- A visit comes to nothing where handles do not let their elements be reached. -/
theorem visit_none {c : Cursor} {key : SlotKey} {e? : Option ElementId} {w' : World}
    (hw : w.Point D) (hk : (w.collection c.set).settings.kind ≠ .weak)
    (hx : (c.visit run key).exec w = (.ok e?, w')) : e? = none := by
  obtain ⟨x, w₁, h₁, hx⟩ := exec_bind_eq_ok.mp hx
  cases x with
  | nothing => exact (exec_pure_eq_ok.mp hx).1.symm
  | ended =>
    obtain ⟨_, w₂, -, hx⟩ := exec_bind_eq_ok.mp hx
    exact (exec_pure_eq_ok.mp hx).1.symm
  | element e =>
    obtain ⟨-, w₂, h₂, -⟩ := exec_guarded_eq_ok.mp h₁
    obtain ⟨h, hh, hweak⟩ := weak_of_sight h₂
    exact absurd ((hw.formed.fits ⟨c.set, c.shard, key⟩ h hh).kind.symm.trans hweak) hk

theorem leads_nextHere (c : Cursor) (hc : c.set < w.sets.size) (keys : List SlotKey) :
    Leads L (c.nextHere run keys) w D (fun x => x.due oneHeld + D) E := by
  induction keys generalizing w with
  | nil => exact .pure (Multiset.zero_add D).symm
  | cons key keys ih =>
    refine .attempt (leads_visit hr c hc key) fun r w' _ hl => ?_
    rcases r with p | e?
    · exact .pure (Multiset.zero_add D).symm
    · cases e? with
      | none =>
        change Leads L (c.nextHere run keys) w' (holds (none : Option ElementId).toList + D) _ E
        rw [holds_toList_none]
        exact ih (hc.trans_le hl.sets)
      | some e => exact .pure rfl

omit hr in
theorem yields_nextHere (c : Cursor) (keys : List SlotKey) :
    Yields (c.nextHere run keys) fun x => x.cursor.set = c.set := by
  induction keys with
  | nil => exact .pure rfl
  | cons key keys ih =>
    refine .seq fun r => ?_
    rcases r with p | _ | e
    · exact .pure rfl
    · exact ih
    · exact .pure rfl

theorem current_nextHere {c : Cursor} {keys : List SlotKey} {x : Step (Option ElementId)}
    {w' : World} (hw : w.Point D) (hc : c.set < w.sets.size)
    (hk : (w.collection c.set).settings.kind ≠ .weak)
    (hx : (c.nextHere run keys).exec w = (.ok x, w')) : x.cursor.current = c.current := by
  induction keys generalizing w with
  | nil =>
    obtain ⟨rfl, -⟩ := exec_pure_eq_ok.mp hx
    rfl
  | cons key keys ih =>
    obtain ⟨r, w₁, h₁, hx⟩ := exec_bind_eq_ok.mp hx
    rw [exec_attempt_eq_ok] at h₁
    rcases r with p | e?
    · obtain ⟨rfl, -⟩ := exec_pure_eq_ok.mp hx
      rfl
    · obtain rfl := visit_none hw hk h₁
      have c₁ := (leads_visit hr c hc key).ok h₁ hw (.idle w)
      rw [holds_toList_none] at c₁
      have hl := c₁.later hw.sane
      exact ih (c₁.point hw) (hc.trans_le hl.sets) (hl.settings hc ▸ hk) hx

theorem leads_nextAhead (c : Cursor) (hc : c.set < w.sets.size) (ks : List Nat) :
    Leads L (c.nextAhead run ks) w D (fun x => x.due oneHeld + D) E := by
  induction ks generalizing w c with
  | nil => exact leads_nextHere hr { c with ahead := [] } hc _
  | cons k ks ih =>
    refine .bind (leads_nextHere hr { c with ahead := k :: ks } hc c.pending) fun x w' _ hl => ?_
    split
    · rename_i ho
      rw [Step.due, ho, holds_toList_none]
      have hk : Balanced L (guarded c.set (look fun w => (w.shard c.set k).keys)) w' D :=
        balanced_guarded fun _ => .last (.look (.pure rfl))
      refine .attempt hk fun r w'' _ hl' => ?_
      rcases r with p | keys
      · exact .pure (Multiset.zero_add D).symm
      · exact ih _ (hc.trans_le (hl.trans hl').sets)
    · exact .pure rfl

omit hr in
theorem yields_nextAhead (c : Cursor) (ks : List Nat) :
    Yields (c.nextAhead run ks) fun x => x.cursor.set = c.set := by
  induction ks generalizing c with
  | nil => exact yields_nextHere _ _
  | cons k ks ih =>
    refine .bind (yields_nextHere { c with ahead := k :: ks } c.pending) fun x hx => ?_
    split
    · refine .seq fun r => ?_
      rcases r with p | keys
      · exact .pure rfl
      · exact ih _
    · exact .pure hx

theorem current_nextAhead {c : Cursor} {ks : List Nat} {x : Step (Option ElementId)}
    {w' : World} (hw : w.Point D) (hc : c.set < w.sets.size)
    (hk : (w.collection c.set).settings.kind ≠ .weak)
    (hx : (c.nextAhead run ks).exec w = (.ok x, w')) : x.cursor.current = c.current := by
  induction ks generalizing w c with
  | nil => exact current_nextHere hr (c := { c with ahead := [] }) hw hc hk hx
  | cons k ks ih =>
    obtain ⟨y, w₁, h₁, hx⟩ := exec_bind_eq_ok.mp hx
    have c₁ := (leads_nextHere hr (E := D) { c with ahead := k :: ks } hc _).ok h₁ hw (.idle w)
    split at hx
    · rename_i ho
      rw [Step.due, ho, holds_toList_none] at c₁
      have hw₁ := c₁.point hw
      obtain ⟨r, w₂, h₂, hx⟩ := exec_bind_eq_ok.mp hx
      rw [exec_attempt_eq_ok] at h₂
      have hkeys : Balanced .idle (guarded c.set (look fun w => (w.shard c.set k).keys)) w₁ D :=
        balanced_guarded fun _ => .last (.look (.pure rfl))
      rcases r with p | keys
      · obtain ⟨rfl, -⟩ := exec_pure_eq_ok.mp hx
        rfl
      · have c₂ := hkeys.ok h₂ hw₁ (.idle w₁)
        have hl := (c₁.later hw.sane).trans (c₂.later hw₁.sane)
        exact ih (c := { c with shard := k, ahead := ks, pending := keys }) (c₂.point hw₁)
          (hc.trans_le hl.sets) (hl.settings hc ▸ hk) hx
    · obtain ⟨rfl, -⟩ := exec_pure_eq_ok.mp hx
      exact current_nextHere hr (c := { c with ahead := k :: ks }) hw hc hk h₁

/-- A cursor comes to no element of a set whose handles do not let their elements be reached. -/
theorem current_next {c : Cursor} {x : Step (Option ElementId)} {w' : World} (hw : w.Point D)
    (hc : c.set < w.sets.size) (hk : (w.collection c.set).settings.kind ≠ .weak)
    (hx : (c.next run).exec w = (.ok x, w')) : x.cursor.current = none :=
  current_nextAhead hr (c := { c with current := none }) hw hc hk hx

theorem leads_next (c : Cursor) (hc : c.set < w.sets.size) :
    Leads L (c.next run) w D (fun x => x.due oneHeld + D) E :=
  leads_nextAhead hr { c with current := none } hc _

omit hr in
theorem yields_next (c : Cursor) : Yields (c.next run) fun x => x.cursor.set = c.set :=
  yields_nextAhead _ _

omit hr in
theorem leads_removeCurrent {c : Cursor} (hc : w.Suits c) :
    Leads L c.removeCurrent w D (fun x => x.due (fun _ => 0) + D) E := by
  refine .intro fun hw _ => ?_
  simp only [Step.due_zero, Multiset.zero_add]
  unfold removeCurrent
  split
  · exact .pure rfl
  · rename_i key hcur
    have ht : Leads L (takeOut ⟨c.set, c.shard, key⟩ .removed) w D
        (fun h? => (h?.elim 0 fun h => .unwatch ⟨c.set, c.shard, key⟩ h.element ::ₘ 0) + D) D := by
      refine leads_guarded_add fun hL => .last (.update ?_ (.pure rfl))
      rw [World.takeOut_fst]
      rcases hh : (w.lock c.set).handle? ⟨c.set, c.shard, key⟩ with _ | h
      · rw [World.takeOut_none hh]
        simpa using Relation.ReflTransGen.refl
      · have hk : h.kind = .weak :=
          (hw.formed.fits ⟨c.set, c.shard, key⟩ h hh).kind.trans (hc.current (by simp [hcur]))
        have hm : Course L (w.lock c.set, .leave c.set ::ₘ D) (((w.lock c.set).takeOut
            ⟨c.set, c.shard, key⟩ .removed).2, _) := .single (.takeOut hL hh hk)
        rw [Multiset.cons_swap] at hm
        simpa using hm
    refine .attempt ht fun r w' _ _ => ?_
    rcases r with p | _ | h
    · exact .pure rfl
    · exact .pure (by simp [due])
    · simp only [due, Option.elim, Multiset.cons_add, Multiset.zero_add]
      exact .bind (leads_bookRemoval _ h) fun _ _ _ _ => .pure rfl

omit hr in
theorem yields_removeCurrent (c : Cursor) :
    Yields c.removeCurrent fun x => x.cursor = { c with current := none } := by
  unfold removeCurrent
  split
  · exact .pure rfl
  · refine .seq fun r => ?_
    rcases r with p | _ | h
    · exact .pure rfl
    · exact .pure rfl
    · exact .seq fun _ => .pure rfl

omit hr in
theorem sweepsFirst_start : SweepsFirst run s L (start run s) w D (fun _ => D) :=
  ⟨_, rfl, fun _ _ => .look (.pure rfl)⟩

theorem balanced_start (hs : s < w.sets.size) : Balanced L (start run s) w D :=
  sweepsFirst_start.leads hr hs

omit hr in
theorem yields_start (s : SetId) :
    Yields (start run s) fun c => c.set = s ∧ c.current = none :=
  .seq fun _ => .seq fun _ => .pure ⟨rfl, rfl⟩

theorem leads_restHere (c : Cursor) (hc : c.set < w.sets.size) (keys : List SlotKey) :
    Leads L (c.restHere run keys) w D (fun x => holds x.found + D) E := by
  induction keys generalizing w D with
  | nil => exact .pure (Multiset.zero_add D).symm
  | cons key keys ih =>
    refine .attempt (leads_visit hr c hc key) fun r w' _ hl => ?_
    rcases r with p | _ | e
    · exact .pure (Multiset.zero_add D).symm
    · change Leads L (c.restHere run keys) w' (holds (none : Option ElementId).toList + D) _ E
      rw [holds_toList_none]
      exact ih (hc.trans_le hl.sets)
    · refine .bind (ih (hc.trans_le hl.sets)) fun x _ _ _ => .pure ?_
      simp [due]

omit hr in
theorem yields_restHere (c : Cursor) (keys : List SlotKey) :
    Yields (c.restHere run keys) fun x => x.cursor.set = c.set ∧ x.cursor.current = none := by
  induction keys with
  | nil => exact .pure ⟨rfl, rfl⟩
  | cons key keys ih =>
    refine .seq fun r => ?_
    rcases r with p | _ | e
    · exact .pure ⟨rfl, rfl⟩
    · exact ih
    · exact .bind ih fun x hx => .pure hx

theorem leads_restAhead (c : Cursor) (hc : c.set < w.sets.size) (ks : List Nat) :
    Leads L (c.restAhead run ks) w D (fun x => holds x.found + D) E := by
  induction ks generalizing w D c with
  | nil => exact leads_restHere hr { c with ahead := [] } hc _
  | cons k ks ih =>
    refine .bind (leads_restHere hr { c with ahead := k :: ks } hc c.pending) fun x w' _ hl => ?_
    split
    · exact .pure rfl
    · have hk : Balanced L (guarded c.set (look fun w => (w.shard c.set k).keys)) w'
          (holds x.found + D) := balanced_guarded fun _ => .last (.look (.pure rfl))
      refine .attempt hk fun r w'' _ hl' => ?_
      rcases r with p | keys
      · exact .pure rfl
      · refine .bind (ih _ (hc.trans_le (hl.trans hl').sets)) fun y _ _ _ => .pure ?_
        rw [holds_append, Multiset.add_comm (holds x.found) (holds y.found), Multiset.add_assoc]
        rfl

omit hr in
theorem yields_restAhead (c : Cursor) (ks : List Nat) :
    Yields (c.restAhead run ks) fun x => x.cursor.set = c.set ∧ x.cursor.current = none := by
  induction ks generalizing c with
  | nil => exact yields_restHere _ _
  | cons k ks ih =>
    refine .bind (yields_restHere { c with ahead := k :: ks } c.pending) fun x hx => ?_
    split
    · exact .pure hx
    · refine .seq fun r => ?_
      rcases r with p | keys
      · exact .pure ⟨rfl, rfl⟩
      · exact .bind (ih _) fun y hy => .pure hy

theorem leads_rest (c : Cursor) (hc : c.set < w.sets.size) :
    Leads L (c.rest run) w D (fun x => x.due holds + D) E := by
  refine .bind (leads_restAhead hr c hc _) fun x w' _ _ => ?_
  split
  · exact .pure rfl
  · exact .bind (leads_releaseAll hr _) fun _ _ _ _ => .pure (Multiset.zero_add D).symm

omit hr in
theorem yields_rest (c : Cursor) :
    Yields (c.rest run) fun x => x.cursor.set = c.set ∧ x.cursor.current = none := by
  refine .bind (yields_restAhead c _) fun x hx => ?_
  split
  · exact .pure hx
  · exact .seq fun _ => .pure hx

end Cursor

theorem sweepsFirst_toList (hr : run.Sound) (hs : s < w.sets.size) :
    SweepsFirst run s L (toList run s) w D (fun es => holds es + D) := by
  refine ⟨_, bind_assoc .., fun w' hl => .look (.bind (Cursor.leads_rest hr _ (hs.trans_le hl.sets))
    fun x _ _ _ => .settle ?_)⟩
  rcases h : x.outcome with p | es
  · simp [Cursor.Step.due, h, due]
  · simp [Cursor.Step.due, h, due]

theorem leads_toList (hr : run.Sound) (hs : s < w.sets.size) :
    Leads L (toList run s) w D (fun es => holds es + D) D :=
  (sweepsFirst_toList hr hs).leads hr hs

/-! ## What a cursor has before it -/

/-- The element of a ticket, if its set lets it be reached. -/
def World.reachable? (w : World) (t : Ticket) : Option ElementId :=
  (w.handle? t).bind fun h =>
    if h.kind = .weak ∧ w.isAlive h.element then some h.element else none

theorem World.reachable?_congr {w w' : World} (hs : w'.sets = w.sets)
    (ha : ∀ e, w'.isAlive e = w.isAlive e) : w'.reachable? = w.reachable? := funext fun t => by
  simp only [reachable?, handle?_congr hs, ha]

namespace Cursor

/-- The tickets of the keys that a cursor has yet to look at. -/
def before (c : Cursor) (w : World) : List Ticket :=
  c.pending.map (fun key => ⟨c.set, c.shard, key⟩) ++
    c.ahead.flatMap fun k => (w.ticketsIn c.set k).map Prod.fst

/-- The elements that a cursor has yet to return. -/
def remaining (c : Cursor) (w : World) : List ElementId :=
  (c.before w).filterMap w.reachable?

theorem remaining_congr (c : Cursor) {w w' : World} (hs : w'.sets = w.sets)
    (ha : ∀ e, w'.isAlive e = w.isAlive e) : c.remaining w' = c.remaining w := by
  have ht (k : Nat) : w'.ticketsIn c.set k = w.ticketsIn c.set k := by
    rw [World.ticketsIn, World.ticketsIn, World.shard, World.shard, World.collection_congr hs]
  simp only [remaining, before, ht, World.reachable?_congr hs ha]

end Cursor

/-! ## Making sets -/

theorem leads_construct (b : Blueprint) {channel : Option ChannelId}
    (hc : ∀ c ∈ channel, c < w.channels.size) : Balanced L (construct b channel) w D :=
  .note rfl (.last (.update (.single (.newSet b hc)) (.pure rfl)))

/-- A set that was made is new, and nobody has it yet. -/
theorem serves_of_construct (hn : w.Named) {b : Blueprint} {channel : Option ChannelId} {w' : World}
    (h : (construct b channel).exec w = (.ok s, w')) : s = w.sets.size ∧ w'.Serves (none, s) := by
  obtain ⟨_, w₁, h₁, h⟩ := exec_bind_eq_ok.mp h
  obtain ⟨-, rfl⟩ := Prod.mk.injEq .. ▸ h₁
  rw [exec_update] at h
  obtain ⟨hs, rfl⟩ := Prod.mk.injEq .. ▸ h
  have hs : s = w.sets.size := by
    obtain rfl := Except.ok.inj hs
    cases channel <;> rfl
  have hlive (v : World) (c : ChannelId) (hv : v.sets = w.sets) :
      World.isLive { v with sets := v.sets.push (b.toCollection c) } s := by
    rw [World.isLive, World.collection_push, hs, hv, if_pos rfl]
    rfl
  refine ⟨hs, ?_, ?_, ?_⟩
  · cases channel with
    | none => exact hlive _ _ rfl
    | some c => exact hlive _ _ rfl
  · rw [World.newSet_eq]
    refine List.any_eq_false.mpr fun x hx => ?_
    rw [decide_eq_true_eq, hs]
    exact Nat.ne_of_lt (hn.sets x hx)
  · rw [World.newSet_eq]
    intro x hx
    rw [hs]
    exact Nat.ne_of_lt (hn.cursors x hx).set

theorem balanced_constructOf (hr : run.Sound) (b : Blueprint) {es : List ElementId}
    (he : ∀ e ∈ es, .hold e ∈ D) : Balanced L (constructOf run b es) w D := by
  refine .intro fun hw ho => .bind (leads_construct b (by simp)) fun s w₁ hx _ => ?_
  obtain ⟨rfl, hs⟩ := serves_of_construct hw.formed.named hx
  refine .intro fun _ ho₁ => .attemptIn (L.le_use none _) (ho₁.use hs)
    (balanced_addAll hr (L.uses_use none _) he) fun r w₂ _ ho₂ => ?_
  rw [due_same]
  cases r with
  | ok _ => exact .pure rfl
  | error p =>
    have hn := (ho₂.used _ List.mem_cons_self).2.1
    exact .change (.single (.unmake hn ho.not_uses_size)) (.throw rfl)

/-- A set that was made of some elements is new, and nobody has it yet. -/
theorem serves_of_constructOf (hr : run.Sound) {b : Blueprint} {es : List ElementId}
    (hw : w.Point D) (he : ∀ e ∈ es, .hold e ∈ D) {w' : World}
    (h : (constructOf run b es).exec w = (.ok s, w')) :
    s = w.sets.size ∧ w'.Serves (none, s) := by
  obtain ⟨s', w₁, h₁, h⟩ := exec_bind_eq_ok.mp h
  obtain ⟨hsize, hs⟩ := serves_of_construct hw.formed.named h₁
  have hw₁ := ((leads_construct b (by simp)).ok (L := .idle) h₁ hw (.idle _)).point hw
  obtain ⟨r, w₂, h₂, h⟩ := exec_bind_eq_ok.mp h
  rw [exec_attempt_eq_ok] at h₂
  rcases r with p | _
  · obtain ⟨_, _, _, h⟩ := exec_bind_eq_ok.mp h
    cases h
  · obtain ⟨rfl, rfl⟩ := exec_pure_eq_ok.mp h
    have hon := (Scene.On.idle w₁).use hs
    have hc := (balanced_addAll hr (Scene.idle.uses_use none s') he).ok h₂ hw₁ hon
    exact ⟨hsize, (hc.on hon).used _ List.mem_cons_self⟩

end WeakSet
