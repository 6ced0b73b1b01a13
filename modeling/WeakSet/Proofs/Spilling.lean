import WeakSet.Proofs.Locks
import WeakSet.Proofs.Probing

/-!
# Where a probe lets go of its references

A probe takes a reference to each element that it compares with. It lets go of none of them while the
set is locked, with one exception: if a comparison panics, the reference to the element under comparison
goes at once, and if it was the last one its destructor runs under the lock.

* `Misses` and `Ends` are the course of a probe, `exists_misses` says that each has one;
* `Spills` says how the references stand when the set is unlocked again (`spills_insertSection` and so
  on).
-/

namespace WeakSet

open Act Duties

/-! ## The course of a probe -/

/-- The misses of a probe for `q`. From world `w` to world `v` it goes through `cs` and compares with
`es`, of which none is what it looks for. All that happens is that it takes references and compares. -/
inductive Misses (run : Runner) (q : Query) :
    World → List (SlotKey × Handle) → List ElementId → World → Prop where
  | nil {w : World} : Misses run q w [] [] w
  | skip {w v : World} {key : SlotKey} {h : Handle} {cs : List (SlotKey × Handle)}
      {es : List ElementId} (hn : ¬ (h.kind = .weak ∧ w.isAlive h.element))
      (hm : Misses run q w cs es v) : Misses run q w ((key, h) :: cs) es v
  | miss {w u v : World} {key : SlotKey} {h : Handle} {cs : List (SlotKey × Handle)}
      {es : List ElementId} (hk : h.kind = .weak) (ha : w.isAlive h.element)
      (hq : (matchesQuery run q h.element).exec (w.acquire h.element) = (.ok false, u))
      (hm : Misses run q u cs es v) : Misses run q w ((key, h) :: cs) (h.element :: es) v

/-- How a probe ends that has missed `es`: it has seen all, or its next comparison is a hit or panics. -/
inductive Ends (run : Runner) (q : Query) (w : World) (es : List ElementId) :
    List (SlotKey × Handle) → Probe → World → Prop where
  | all : Ends run q w es [] ⟨es, .ok none⟩ w
  | hit {v : World} {key : SlotKey} {h : Handle} {cs : List (SlotKey × Handle)}
      (hk : h.kind = .weak) (ha : w.isAlive h.element)
      (hq : (matchesQuery run q h.element).exec (w.acquire h.element) = (.ok true, v)) :
      Ends run q w es ((key, h) :: cs) ⟨es ++ [h.element], .ok (some key)⟩ v
  | panic {v : World} {key : SlotKey} {h : Handle} {cs : List (SlotKey × Handle)} {p : Panic}
      (hk : h.kind = .weak) (ha : w.isAlive h.element)
      (hq : (matchesQuery run q h.element).exec (w.acquire h.element) = (.error p, v)) :
      Ends run q w es ((key, h) :: cs) ⟨es, .error p⟩ ((release run h.element).exec v).2

variable {run : Runner} {q : Query} {w v : World} {s : SetId} {D : Duties}

/-- What a probe is asked to do takes a course, for as far as it gets. -/
theorem exists_misses (run : Runner) (q : Query) (cs : List (SlotKey × Handle)) (w : World) :
    ∃ pre post es u p v, cs = pre ++ post ∧ Misses run q w pre es u ∧ Ends run q u es post p v ∧
      (probe run q cs).exec w = (.ok p, v) := by
  induction cs generalizing w with
  | nil => exact ⟨[], [], [], w, _, w, rfl, .nil, .all, rfl⟩
  | cons c cs ih =>
    obtain ⟨key, h⟩ := c
    by_cases hr : h.kind = .weak ∧ w.isAlive h.element
    · have hreach : (reach h).exec w = (.ok (some h.element), w.acquire h.element) := by
        rw [exec_reach hr.1, if_pos hr.2]
      rcases hq : (matchesQuery run q h.element).exec (w.acquire h.element) with ⟨p | b, u⟩
      · obtain ⟨v, hv⟩ := exec_release run h.element u
        refine ⟨[], (key, h) :: cs, [], w, ⟨[], .error p⟩, v, rfl, .nil, ?_, ?_⟩
        · have : Ends run q w [] ((key, h) :: cs) ⟨[], .error p⟩ ((release run h.element).exec u).2 :=
            .panic hr.1 hr.2 hq
          rwa [hv] at this
        · rw [probe, exec_bind_ok hreach, exec_bind_ok (exec_attempt _ _), hq]
          exact exec_bind_ok hv _
      · cases b with
        | true =>
          have : Ends run q w [] ((key, h) :: cs) ⟨[h.element], .ok (some key)⟩ u :=
            .hit hr.1 hr.2 hq
          refine ⟨[], (key, h) :: cs, [], w, ⟨[h.element], .ok (some key)⟩, u, rfl, .nil, this, ?_⟩
          rw [probe, exec_bind_ok hreach, exec_bind_ok (exec_attempt _ _), hq]
          rfl
        | false =>
          obtain ⟨pre, post, es, u', p, v, rfl, hm, he, hx⟩ := ih u
          refine ⟨(key, h) :: pre, post, h.element :: es, u', { p with held := h.element :: p.held }, v,
            rfl, .miss hr.1 hr.2 hq hm, ?_, ?_⟩
          · cases he with
            | all => exact .all
            | hit hk ha hq =>
              rw [← List.cons_append]
              exact .hit hk ha hq
            | panic hk ha hq => exact .panic hk ha hq
          · rw [probe, exec_bind_ok hreach, exec_bind_ok (exec_attempt _ _), hq]
            exact exec_bind_ok hx _
    · have hreach : (reach h).exec w = (.ok none, w) := by
        cases hk : h.kind with
        | weak => rw [exec_reach hk, if_neg fun ha => hr ⟨hk, ha⟩]
        | phantom => rw [reach, hk]; rfl
      obtain ⟨pre, post, es, u, p, v, rfl, hm, he, hx⟩ := ih w
      refine ⟨(key, h) :: pre, post, es, u, p, v, rfl, .skip hr hm, he, ?_⟩
      rw [probe, exec_bind_ok hreach]
      exact hx

/-! ## The locked parts of operations -/

/-- The handles that a probe of a set for `q` goes through. -/
def World.candidates (w : World) (s : SetId) (q : Query) : List (SlotKey × Handle) :=
  let hash := (w.collection s).scheme.hash (q.target w)
  (w.shard s (shardOf (w.shardCount s) hash)).candidates hash

/-- How the locked part of an operation that probes set `s` for `q` treats references. It unlocks the
set, and then all references that its probe took are counted still, but for the one with which a
comparison panicked. Up to the end of the probe none was let go of before, and none was after it. -/
def Spills {α : Type} (run : Runner) (s : SetId) (q : Query) (D : Duties) (sec : Act (Section α))
    (w : World) : Prop :=
  ∃ x v, sec.exec w = (.ok x, v) ∧ v.entered = w.entered ∧ v.Counted (holds x.held + D) ∧
    ∃ pre post es u p v₀, w.candidates s q = pre ++ post ∧ Misses run q (w.lock s) pre es u ∧
      Ends run q u es post p v₀ ∧ x.held = p.held ∧
      (∀ e, p.found = .error e ↔ x.result = .error e) ∧ ∀ e, v.strong e = v₀.strong e

section Sections

variable {α : Type} {L : Scene} {go : UInt64 → Nat → Option SlotKey → Act α} {G : α → Duties}

/-- A probe and what follows it under the same lock, which takes no reference and lets go of none. -/
theorem spills_probeThen
    (hgo : ∀ hash k found v, ∃ r v', (go hash k found).exec v = (.ok r, v') ∧ v'.entered = v.entered ∧
      ∀ e, v'.strong e = v.strong e)
    (hG : ∀ r e, (G r).count (.hold e) = 0) (hr : ∀ j, run.Returns j True)
    (hl : Leads L (probeThen run s q go) w D (fun x => x.due G + D) D) (hw : w.Point D) (ho : L.On w)
    (hs : s ∉ w.entered) : Spills run s q D (probeThen run s q go) w := by
  obtain ⟨pre, post, es, u, p, v₀, hc, hm, he, hx⟩ :=
    exists_misses run q (w.candidates s q) (w.lock s)
  have hshard : (probeShard run s (shardOf (w.shardCount s) ((w.collection s).scheme.hash (q.target w)))
      ((w.collection s).scheme.hash (q.target w)) q).exec (w.lock s) = (.ok p, v₀) :=
    (exec_probeShard s _ _ q _).trans hx
  have hlock : v₀.entered = s :: w.entered := by
    have h := (kept_locking (hr []) s).probe (n := { locks := s :: w.entered }) (F := 0) (E := fun _ => False)
      q (w.candidates s q) (w.lock s) ⟨rfl, List.nil_prefix⟩
    rw [hx] at h
    exact h.1.1
  have hcount {x : Section α} {v : World} (hv : v.Point (x.due G + D)) :
      v.Counted (holds x.held + D) := by
    refine hv.counted.congr rfl rfl (fun _ => rfl) fun e => ?_
    rw [Section.due, Multiset.count_add, Multiset.count_add, Multiset.count_add]
    cases x.result with
    | ok r => rw [hG, Nat.add_zero]
    | error _ => rw [Multiset.count_zero, Nat.add_zero]
  cases hf : p.found with
  | error e =>
    have hsec : (probeThen run s q go).exec w = (.ok ⟨p.held, .error e⟩, v₀.unlock s) := by
      rw [exec_probeThen hs rfl hshard, hf]
    refine ⟨_, _, hsec, ?_, hcount ((hl.ok hsec hw ho).point hw), pre, post, es, u, p, v₀, hc, hm, he,
      rfl, by simp [hf], fun _ => rfl⟩
    rw [World.unlock, hlock]
    exact swapRemove_cons_self ..
  | ok found =>
    obtain ⟨r, v₁, hg, hg₁, hg₂⟩ := hgo ((w.collection s).scheme.hash (q.target w))
      (shardOf (w.shardCount s) ((w.collection s).scheme.hash (q.target w))) found v₀
    have hsec : (probeThen run s q go).exec w = (.ok ⟨p.held, .ok r⟩, v₁.unlock s) := by
      rw [exec_probeThen hs rfl hshard, hf]
      simp only
      rw [hg]
      rfl
    refine ⟨_, _, hsec, ?_, hcount ((hl.ok hsec hw ho).point hw), pre, post, es, u, p, v₀, hc, hm, he,
      rfl, by simp [hf], hg₂⟩
    rw [World.unlock, hg₁, hlock]
    exact swapRemove_cons_self ..

variable (hsound : run.Sound) (hr : ∀ j, run.Returns j True) (hw : w.Point D) (hs : s ∉ w.entered)

include hsound hr hw hs

theorem spills_insertSection {e : ElementId} (ho : L.On w) (hu : L.Uses s) (he : .hold e ∈ D) :
    Spills run s (.element e) D (insertSection run s e) w := by
  refine spills_probeThen (fun hash k found v => ?_) (fun _ _ => Multiset.count_zero _) hr
    (leads_insertSection hsound hu he) hw ho hs
  cases found with
  | some key => exact ⟨_, v, rfl, rfl, fun _ => rfl⟩
  | none =>
    exact ⟨_, (v.store s k _).2, by rw [exec_map, exec_update]; rfl, rfl, World.strong_store _⟩

theorem spills_findSection : Spills run s q D (findSection run s q) w :=
  spills_probeThen (fun _ _ _ v => ⟨_, v, rfl, rfl, fun _ => rfl⟩)
    (fun _ _ => Multiset.count_zero _) hr (leads_findSection (L := .idle) hsound q) hw (.idle w) hs

theorem spills_removeSection : Spills run s q D (removeSection run s q) w := by
  refine spills_probeThen (fun hash k found v => ?_) (fun r e => ?_) hr
    (leads_removeSection (L := .idle) hsound q) hw (.idle w) hs
  · cases found with
    | none => exact ⟨_, v, rfl, rfl, fun _ => rfl⟩
    | some key =>
      rcases World.takeOut_cases v ⟨s, k, key⟩ .removed with ⟨-, h⟩ | ⟨x, -, h⟩
      · exact ⟨none, v, by simp only [exec_update, h], rfl, fun _ => rfl⟩
      · refine ⟨some (⟨s, k, key⟩, x), (v.takeOut ⟨s, k, key⟩ .removed).2,
          by simp only [exec_update, h], ?_, fun _ => ?_⟩ <;> rw [h]
        · rfl
        · rfl
  · cases r with
    | none => exact Multiset.count_zero _
    | some y => simp [removedDue]

end Sections

end WeakSet
