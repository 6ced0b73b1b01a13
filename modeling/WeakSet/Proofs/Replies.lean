import WeakSet.Proofs.Founding

/-!
# What commands answer

In a steady world a command answers, and the world is steady after it. What it answers and what a
client has to know then (`Answers`) is known for what it does with the set and the elements that it
names, also while references are lent to it (`answers_borrowing`).
-/

namespace WeakSet

open Act Duties World Session

/-- An act comes to a reply and leaves a steady world, and both are as `P` says. -/
def Answers (a : Act Reply) (w : World) (D : Duties) (P : Reply → Registry → Prop) : Prop :=
  ∃ r w', a.exec w = (.ok r, w') ∧ w'.Steady D ∧ P r w'.registry

variable {run : Runner} {w w' : World} {D : Duties} {s : SetId} {name : String}
  {es : List ElementId} {a : Act Reply} {P Q : Reply → Registry → Prop}

theorem Answers.mono (h : Answers a w D P) (hP : ∀ r g, P r g → Q r g) : Answers a w D Q := by
  obtain ⟨r, w', hx, hs, hp⟩ := h
  exact ⟨r, w', hx, hs, hP r _ hp⟩

/-- A reply that needs nothing to be done. -/
theorem answers_pure {r : Reply} (h : w.Steady D) (hP : P r w.registry) :
    Answers (pure r) w D P :=
  ⟨r, w, rfl, h, hP⟩

/-- An act in front. -/
theorem Answers.after {α : Type} {b : Act α} {f : α → Act Reply} {x : α}
    (hx : b.exec w = (.ok x, w')) (h : Answers (f x) w' D P) : Answers (b >>= f) w D P := by
  obtain ⟨r, w'', hx', hs, hp⟩ := h
  exact ⟨r, w'', (exec_bind_ok hx f).trans hx', hs, hp⟩

/-- The world is looked at first. -/
theorem Answers.get {f : World → Act Reply} (h : Answers (f w) w D P) :
    Answers (MonadState.get >>= f) w D P :=
  h

/-- What is refused. -/
theorem answers_refuse {why : Refusal} (h : w.Steady D) (hP : P (.refused why) w.registry) :
    Answers (refuse why) w D P :=
  answers_pure h hP

/-! ## What is named -/

theorem answers_withSet {body : SetId → Act Reply} {P : SetId → Reply → Registry → Prop}
    (h : w.Steady D)
    (hb : ∀ s, w.registry.sets.find? name = some s → Answers (body s) w D (P s)) :
    Answers (withSet name body) w D fun a g => w.registry.WithSet a g name fun s => P s a g := by
  refine .get ?_
  rcases hn : w.setNames.find? name with _ | s
  · exact answers_refuse h (.of_none hn ⟨rfl, rfl⟩)
  · exact (hb s hn).mono fun a g hp => .of_some hn hp

/-- Elements of owners are lent, and given back when the reply is known. -/
theorem answers_borrowing (run : Runner)
    (ho : ∀ e ∈ es, ∃ name, w.owners.find? name = some e)
    (hb : Answers a (es.foldl World.acquire w) (holds es + D) P)
    (hP : ∀ r g, P r g → ∀ x ∈ w.owners, x ∈ g.owners) : Answers (borrowing run es a) w D P := by
  obtain ⟨r, w₁, hx, hs₁, hp⟩ := hb
  have hspare : ∀ e ∈ es, es.count e < w₁.strong e := fun e he => by
    obtain ⟨name, hn⟩ := ho e he
    have hown : 0 < w₁.ownersOf e :=
      List.countP_pos_iff.mpr ⟨_, hP r _ hp _ (Table.mem_of_find? hn), by simp⟩
    have hheld : es.count e ≤ (holds es + D).count (.hold e) := by
      rw [Multiset.count_add, holds, Multiset.coe_count, List.count_map_of_injective]
      · omega
      · exact fun a b hab => Duty.hold.inj hab
    rw [hs₁.sane.counted.strong]
    omega
  obtain ⟨w₂, hx₂, hc₂, hn₂⟩ := exec_releaseAll_spare run hspare
  obtain ⟨w₃, hx₃, hs₃, -⟩ := hs₁.exec_releaseAll run
  obtain rfl : w₂ = w₃ := (Prod.mk.injEq .. ▸ hx₂.symm.trans hx₃).2
  have halive : ∀ e, w₂.isAlive e = w₁.isAlive e := fun e => by
    have hn := hn₂ e
    rw [World.isAlive, World.isAlive, decide_eq_decide]
    by_cases he : e ∈ es
    · have := hspare e he
      omega
    · rw [List.count_eq_zero.mpr he] at hn
      omega
  refine ⟨r, w₂, ?_, hs₃, ?_⟩
  · rw [borrowing, exec_bind_ok (exec_change _ w), holding, exec_bind_ok (exec_attempt a _), hx]
    rw [exec_bind_ok hx₂, exec_settle]
  · rwa [hc₂.registry hs₁.quiet hs₃.quiet halive]

theorem answers_withOwners {names : List String} {body : List ElementId → Act Reply}
    {P : List ElementId → Reply → Registry → Prop} (h : w.Steady D)
    (hb : ∀ es, (∀ e ∈ es, w.isAlive e) → (es.foldl World.acquire w).Steady (holds es + D) →
      (es.foldl World.acquire w).registry = w.registry →
      Answers (body es) (es.foldl World.acquire w) (holds es + D) (P es))
    (hP : ∀ es r g, P es r g → ∀ x ∈ w.owners, x ∈ g.owners) :
    Answers (withOwners run names body) w D fun a g =>
      w.registry.WithOwners a g names fun es => P es a g := by
  refine .get ?_
  rcases hn : findAll w.owners names with _ | es
  · exact answers_refuse h (.of_none hn ⟨rfl, rfl⟩)
  · have ho := find?_of_mem_findAll hn
    have ha : ∀ e ∈ es, w.isAlive e := fun e he => by
      obtain ⟨n, hn⟩ := ho e he
      exact h.sane.counted.isAlive_of_owner hn
    exact (answers_borrowing run ho (hb es ha (h.lend ha) (registry_lend h ha)) (hP es)).mono
      fun a g hp => .of_some hn hp

theorem answers_withOwner {body : ElementId → Act Reply}
    {P : ElementId → Reply → Registry → Prop} (h : w.Steady D)
    (hb : ∀ e, w.isAlive e → (w.acquire e).Steady (.hold e ::ₘ D) →
      (w.acquire e).registry = w.registry → Answers (body e) (w.acquire e) (.hold e ::ₘ D) (P e))
    (hP : ∀ e r g, P e r g → ∀ x ∈ w.owners, x ∈ g.owners) :
    Answers (withOwner run name body) w D fun a g =>
      w.registry.WithOwner a g name fun e => P e a g := by
  refine .get ?_
  rcases hn : w.owners.find? name with _ | e
  · exact answers_refuse h (.of_none hn ⟨rfl, rfl⟩)
  · have ha : w.isAlive e := h.sane.counted.isAlive_of_owner hn
    have hb' : Answers (body e) ([e].foldl World.acquire w) (holds [e] + D) (P e) := by
      rw [holds_cons, holds_nil, Multiset.cons_add, Multiset.zero_add]
      exact hb e ha (h.acquire ha) (registry_acquire h ha)
    refine (answers_borrowing run (fun e' he => ?_) hb' (hP e)).mono fun a g hp => .of_some hn hp
    rw [List.mem_singleton.mp he]
    exact ⟨name, hn⟩

/-- A value is asked for, or that of the element of an owner, which is lent. -/
theorem answers_withWanted {wanted : Wanted} {body : Query → Act Reply}
    {P : Value → Reply → Registry → Prop} (h : w.Steady D)
    (hb : ∀ q w₁ D₁, w₁.Steady D₁ → w₁.registry = w.registry →
      Answers (body q) w₁ D₁ (P (q.target w₁)))
    (hP : ∀ v r g, P v r g → g.owners = w.owners) :
    Answers (withWanted run wanted body) w D fun a g =>
      w.registry.WithWanted a g wanted fun v => P v a g := by
  cases wanted with
  | value v => exact hb (.value v) w D h rfl
  | owner o =>
    refine answers_withOwner (P := fun e a g => P (w.value e) a g) h (fun e ha h₁ hreg => ?_)
      fun e r g hp x hx => by rwa [hP _ r g hp]
    have hv : w.value e = (Query.element e).target (w.acquire e) :=
      (value_congr (element?_acquire w e e)).symm
    rw [hv]
    exact hb (.element e) _ _ h₁ hreg

/-- Values are asked for, or those of the elements of owners, which are lent. -/
theorem answers_withAllWanted {wanted : WantedAll} {body : List Query → Act Reply}
    {P : List Value → Reply → Registry → Prop} (h : w.Steady D)
    (hb : ∀ qs w₁ D₁, w₁.Steady D₁ → w₁.registry = w.registry →
      Answers (body qs) w₁ D₁ (P (qs.map fun q => q.target w₁)))
    (hP : ∀ vs r g, P vs r g → g.owners = w.owners) :
    Answers (withAllWanted run wanted body) w D fun a g =>
      w.registry.WithAllWanted a g wanted fun vs => P vs a g := by
  cases wanted with
  | values vs =>
    have hvs : (vs.map Query.value).map (fun q => q.target w) = vs := by
      rw [List.map_map]
      exact List.map_id vs
    have := hb (vs.map .value) w D h rfl
    rwa [hvs] at this
  | owners os =>
    refine answers_withOwners (P := fun es a g => P (es.map w.value) a g) h
      (fun es ha h₁ hreg => ?_) fun e r g hp x hx => by rwa [hP _ r g hp]
    have hv : es.map w.value = (es.map Query.element).map fun q =>
        q.target (es.foldl World.acquire w) := by
      rw [List.map_map]
      refine List.map_congr_left fun e _ => ?_
      have hf : (es.foldl World.acquire w).face e = w.face e :=
        congrFun (congrArg Registry.face hreg) e
      show w.value e = (es.foldl World.acquire w).value e
      rw [World.value, World.value, hf]
    rw [hv]
    exact hb (es.map .element) _ _ h₁ hreg

end WeakSet
