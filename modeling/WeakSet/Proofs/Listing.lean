import WeakSet.Proofs.Steady
import Mathlib.Data.List.Nodup

/-!
# Counting and walking through a quiet world

A cursor that goes through a set holds what it finds and changes nothing else, except that it has
the set swept when it comes upon a handle whose element ended (`Finds`). In a set that was just swept
there is none, so a walk finds everything (`finds_rest`), and the number of handles is the number of
entries (`World.IsFresh.lists`).
-/

namespace WeakSet

open Act Duties World

/-- An act takes references to elements of set `s`, and lets no handle of a living element go. It
changes no set if the handles of set `s` are all of living elements. -/
structure Finds {α : Type} (s : SetId) (a : Act α) (w : World) (D : Duties) (x : α)
    (es : List ElementId) (w' : World) : Prop where
  exec : a.exec w = (.ok x, w')
  framed : Framed s es w w'
  trims : Trims s (fun _ => True) w w'
  steady : w'.Steady (holds es + D)
  fresh : w.IsFresh s → w'.sets = w.sets
  known : ∀ e ∈ es, ∃ t, w.dict s (w.value e) = some (e, t)

variable {α β : Type} {run : Runner} {w w' w'' : World} {D : Duties} {s : SetId} {k : Nat}
  {es es' : List ElementId}

theorem World.IsFresh.congr (h : w.IsFresh s) (hf : Framed s es w w') (hs : w'.sets = w.sets) :
    w'.IsFresh s := fun t x ho hx => by
  rw [hf.isAlive]
  exact h t x ho (by rwa [handle?_congr hs] at hx)

namespace Finds

variable {x : α} {y : β}

theorem pure (h : w.Steady D) (x : α) : Finds s (pure x) w D x [] w :=
  ⟨rfl, .refl s w, .of_handles fun _ => rfl, by rwa [holds_nil, Multiset.zero_add], fun _ => rfl,
    by simp⟩

/-- Whatever was found, the entries are what they were. -/
theorem dict {a : Act α} (ha : Finds s a w D x es w') (h : w.Steady D) : w'.dict s = w.dict s :=
  ha.trims.dict_same ha.framed h.quiet ha.steady.quiet

theorem bind {a : Act α} {f : α → Act β} (h : w.Steady D) (ha : Finds s a w D x es w')
    (hf : Finds s (f x) w' (holds es + D) y es' w'') :
    Finds s (a >>= f) w D y (es ++ es') w'' where
  exec := (exec_bind_ok ha.exec f).trans hf.exec
  framed := ha.framed.trans hf.framed
  trims := ha.trims.after ha.framed hf.trims
  steady := by
    rw [holds_append, Multiset.add_comm (holds es), Multiset.add_assoc]
    exact hf.steady
  fresh h := (hf.fresh (h.congr ha.framed (ha.fresh h))).trans (ha.fresh h)
  known e he := by
    refine (List.mem_append.mp he).elim (ha.known e) fun he => ?_
    have hm := hf.known e he
    rwa [ha.dict h, ha.framed.value] at hm

/-- What remains to be done is to put a result together. -/
theorem andThen {a : Act α} {f : α → Act β} (h : w.Steady D) (ha : Finds s a w D x es w')
    (hf : f x = Pure.pure y) : Finds s (a >>= f) w D y es w' := by
  have hlast : Finds s (f x) w' (holds es + D) y [] w' := by
    rw [hf]
    exact .pure ha.steady y
  have hb := ha.bind h hlast
  rwa [List.append_nil] at hb

theorem attempt {a : Act α} (ha : Finds s a w D x es w') :
    Finds s (attempt a) w D (.ok x) es w' :=
  ⟨exec_attempt_eq_ok.mpr ha.exec, ha.framed, ha.trims, ha.steady, ha.fresh, ha.known⟩

end Finds

/-! ## Counting -/

/-- Of a set whose handles are all of living elements, the handles are the entries. -/
theorem World.IsFresh.has_iff (h : w.IsFresh s) {v : Value} {e : ElementId} {t : Ticket} :
    w.Has s v e t ↔ ∃ x, (t, x) ∈ w.ticketsOf s ∧ x.element = e ∧ w.value e = v := by
  constructor
  · rintro ⟨ho, ⟨x, hx, rfl⟩, -, hv⟩
    exact ⟨x, mem_ticketsOf.mpr ⟨ho, hx⟩, rfl, hv⟩
  · rintro ⟨x, hx, rfl, hv⟩
    obtain ⟨ho, hx⟩ := mem_ticketsOf.mp hx
    exact ⟨ho, ⟨x, hx, rfl⟩, h t x ho hx, hv⟩

/-- The values of a set are those of the living elements of its handles. -/
theorem World.Quiet.lists (hq : w.Quiet) (s : SetId) : (w.dict s).Lists
    (((w.ticketsOf s).filter fun x => w.isAlive x.2.element).map fun x => w.value x.2.element) := by
  have hhas : ∀ x ∈ (w.ticketsOf s).filter fun x => w.isAlive x.2.element,
      w.Has s (w.value x.2.element) x.2.element x.1 := fun x hx => by
    obtain ⟨hm, ha⟩ := List.mem_filter.mp hx
    obtain ⟨ho, hh⟩ := mem_ticketsOf.mp hm
    exact ⟨ho, ⟨x.2, hh, rfl⟩, ha, rfl⟩
  refine ⟨?_, fun v => ?_⟩
  · have hn : (w.ticketsOf s).Nodup := .of_map Prod.fst (w.nodup_ticketsOf s)
    refine (hn.filter _).map_on ?_
    rintro ⟨t, x⟩ hx ⟨t', x'⟩ hx' hv
    have h' := hhas _ hx'
    rw [← hv] at h'
    obtain rfl := ((hhas _ hx).unique h' hq.distinct hq.weak).2
    have hxx := (mem_ticketsOf.mp (List.mem_of_mem_filter hx)).2.symm.trans
      (mem_ticketsOf.mp (List.mem_of_mem_filter hx')).2
    rw [Option.some.inj hxx]
  · rw [Option.isSome_iff_exists, List.mem_map]
    constructor
    · rintro ⟨x, hx, rfl⟩
      exact ⟨_, hq.dict_eq_some.mpr (hhas x hx)⟩
    · rintro ⟨⟨e, t⟩, hd⟩
      obtain ⟨ho, ⟨x, hx, rfl⟩, ha, hv⟩ := hq.dict_eq_some.mp hd
      exact ⟨(t, x), List.mem_filter.mpr ⟨mem_ticketsOf.mpr ⟨ho, hx⟩, ha⟩, hv⟩

theorem World.IsFresh.lists (h : w.IsFresh s) (hq : w.Quiet) :
    (w.dict s).Lists ((w.ticketsOf s).map fun x => w.value x.2.element) := by
  have hall : (w.ticketsOf s).filter (fun x => w.isAlive x.2.element) = w.ticketsOf s :=
    List.filter_eq_self.mpr fun x hx => by
      obtain ⟨ho, hh⟩ := mem_ticketsOf.mp hx
      exact h x.1 x.2 ho hh
  have hl := hq.lists s
  rwa [hall] at hl

theorem does_length (hr : run.Sound) (h : w.Steady D) (hs : s < w.sets.size) (hl : w.isLive s) :
    ∃ n w', Does s (length run s) w D n w' ∧ w'.dict s = w.dict s ∧
      ∃ vs, (w.dict s).Lists vs ∧ n = vs.length := by
  obtain ⟨w₁, h₁, hm, hc⟩ := does_swept hr h hs
  have hx : (count s).exec w₁ = (.ok (w₁.size s), w₁) := exec_count (by simp [h₁.steady.quiet.unlocked])
  refine ⟨_, w₁, h₁.bind ⟨hx, h₁.steady, .refl s w₁, .refl w₁⟩, hm, _,
    hm ▸ (hc hl).lists h₁.steady.quiet, ?_⟩
  rw [List.length_map, World.length_ticketsOf]

theorem Dict.Lists.eq_nil_iff {m : Dict} {vs : List Value} (h : m.Lists vs) :
    vs = [] ↔ m = Dict.empty := by
  rw [List.eq_nil_iff_forall_not_mem]
  simp only [h.2, Option.not_isSome_iff_eq_none]
  exact ⟨funext, fun h v => congrFun h v⟩

/-! ## Walking -/

theorem World.reachable?_of_not_isAlive {t : Ticket} {h : Handle} (hh : w.handle? t = some h)
    (hd : ¬ w.isAlive h.element) : w.reachable? t = none := by
  simp [reachable?, hh, hd]

theorem World.reachable?_of_isAlive {t : Ticket} {h : Handle} (hk : w.IsWeak)
    (hh : w.handle? t = some h) (ha : w.isAlive h.element) :
    w.reachable? t = some h.element := by
  simp [reachable?, hh, ha, hk t h hh]

/-- What can be reached under a ticket is an entry of its set. -/
theorem World.Quiet.dict_of_reachable {t : Ticket} {e : ElementId} (hq : w.Quiet)
    (h : w.reachable? t = some e) : w.dict t.owner (w.value e) = some (e, t) := by
  obtain ⟨x, hx, he⟩ := Option.bind_eq_some_iff.mp h
  split at he
  · rename_i hk
    obtain rfl := Option.some.inj he
    exact hq.dict_eq_some.mpr ⟨rfl, ⟨x, hx, rfl⟩, hk.2, rfl⟩
  · cases he

/-- The handle of a ticket goes, and its entry if that was there. -/
theorem World.Framed.dict_without {t : Ticket} (hf : Framed s es w w') (hq : w.Quiet)
    (hq' : w'.Quiet) (hh : ∀ t', w'.handle? t' = if t' = t then none else w.handle? t') :
    w'.dict s = (w.dict s).without (some t) := by
  refine dict_ext hq'.distinct hq'.weak fun v e t' => ?_
  rw [Dict.without_eq_some, hq.dict_eq_some, Ne, Option.some.injEq]
  constructor
  · rintro ⟨ho, ⟨x, hx, he⟩, ha, hv⟩
    rw [hh] at hx
    split at hx
    · cases hx
    · rename_i hne
      exact ⟨⟨ho, ⟨x, hx, he⟩, by rwa [hf.isAlive] at ha, by rwa [hf.value] at hv⟩, hne⟩
  · rintro ⟨⟨ho, ⟨x, hx, he⟩, ha, hv⟩, hne⟩
    exact ⟨ho, ⟨x, by rwa [hh, if_neg hne], he⟩, by rwa [hf.isAlive], by rwa [hf.value]⟩

/-- The world after a handle was removed. -/
def World.removal (w : World) (t : Ticket) (h : Handle) : World :=
  ((w.takeOut t .removed).2.unwatch h.element t).note (.line (.removed t))

namespace Cursor

/-- A visit finds what can be reached. -/
theorem finds_visit (hr : run.Sound) (h : w.Steady D) (c : Cursor) (hs : c.set < w.sets.size)
    (key : SlotKey) :
    ∃ w', Finds c.set (c.visit run key) w D (w.reachable? ⟨c.set, c.shard, key⟩)
      (w.reachable? ⟨c.set, c.shard, key⟩).toList w' := by
  obtain ⟨t, ht⟩ : ∃ t : Ticket, t = ⟨c.set, c.shard, key⟩ := ⟨_, rfl⟩
  have hsteady : ∀ {e? w'}, (c.visit run key).exec w = (.ok e?, w') →
      Framed c.set e?.toList w w' → w'.Steady (holds e?.toList + D) := fun hx hf =>
    h.course ((leads_visit hr c hs key).ok (L := .idle) hx h.point (.idle _)) hf fun t hm =>
      (Multiset.mem_add.mp hm).elim (deal_not_mem_holds t _) (h.dealt t)
  have hsight := exec_sight (by simp [h.quiet.unlocked]) (h.quiet.weak t) ht
  rw [← ht]
  rcases hh : w.handle? t with _ | x <;> simp only [hh] at hsight
  · have hx : (c.visit run key).exec w = (.ok none, w) := exec_bind_ok hsight _
    have hnone : w.reachable? t = none := by simp [World.reachable?, hh]
    rw [hnone]
    exact ⟨w, hx, .refl _ w, .of_handles fun _ => rfl, hsteady hx (.refl _ w), fun _ => rfl, by simp⟩
  · by_cases ha : w.isAlive x.element
    · rw [if_pos ha] at hsight
      have hx : (c.visit run key).exec w = (.ok (some x.element), w.acquire x.element) :=
        exec_bind_ok hsight _
      obtain ⟨hs₁, hc₁⟩ := World.foldl_acquire [x.element] (w := w) fun e he => by
        rw [List.mem_singleton.mp he]
        exact World.lt_size_of_strong (World.isAlive_iff.mp ha)
      have hf : Framed c.set [x.element] w (w.acquire x.element) := .of_counts hs₁ (by simpa) hc₁
      have hreach := World.reachable?_of_isAlive h.quiet.weak hh ha
      have hm := h.quiet.dict_of_reachable hreach
      rw [ht] at hm
      rw [hreach]
      exact ⟨_, hx, hf, .of_handles hs₁.handle?, hsteady hx hf, fun _ => rfl, by simpa using ⟨_, hm⟩⟩
    · rw [if_neg ha] at hsight
      obtain ⟨n, w₁, h₁, hf₁, ht₁, -⟩ := exec_sweep run h.quiet hs
      have hx : (c.visit run key).exec w = (.ok none, w₁) := by
        refine (exec_bind_ok hsight _).trans ?_
        exact exec_bind_ok ((exec_discard _ _).trans (by rw [h₁]; rfl)) _
      rw [World.reachable?_of_not_isAlive hh ha]
      exact ⟨w₁, hx, hf₁, ht₁, hsteady hx hf₁, fun hfr => absurd (hfr t x (by rw [ht]) hh) ha, by simp⟩

/-- The keys of a shard that a cursor goes to next. -/
theorem finds_keys (h : w.Steady D) (s : SetId) (k : Nat) :
    Finds s (guarded s (look fun w => (w.shard s k).keys)) w D (w.shard s k).keys [] w :=
  ⟨exec_guarded_lock (by simp [h.quiet.unlocked]) rfl, .refl s w, .of_handles fun _ => rfl,
    by simpa using h, fun _ => rfl, by simp⟩

theorem finds_restHere (hr : run.Sound) (h : w.Steady D) (c : Cursor) (hs : c.set < w.sets.size)
    (keys : List SlotKey) :
    ∃ x w', Finds c.set (c.restHere run keys) w D x x.found w' ∧ x.outcome = .ok () ∧
      (w.IsFresh c.set →
        x.found = keys.filterMap fun key => w.reachable? ⟨c.set, c.shard, key⟩) := by
  induction keys generalizing w D with
  | nil => exact ⟨_, w, .pure h _, rfl, fun _ => rfl⟩
  | cons key keys ih =>
    obtain ⟨w₁, h₁⟩ := finds_visit hr h c hs key
    obtain ⟨x, w₂, h₂, ho, hfound⟩ := ih h₁.steady (h₁.framed.sets.symm ▸ hs)
    have hsame : w.IsFresh c.set → w₁.reachable? = w.reachable? := fun hf =>
      World.reachable?_congr (h₁.fresh hf) h₁.framed.isAlive
    have hlater : ∀ e?, e? = w.reachable? ⟨c.set, c.shard, key⟩ → w.IsFresh c.set →
        e?.toList ++ x.found =
          (key :: keys).filterMap fun key => w.reachable? ⟨c.set, c.shard, key⟩ := by
      rintro _ rfl hf
      rw [hfound (hf.congr h₁.framed (h₁.fresh hf)), hsame hf]
      rcases hk : w.reachable? ⟨c.set, c.shard, key⟩ with _ | e <;> simp [hk]
    rcases hk : w.reachable? ⟨c.set, c.shard, key⟩ with _ | e <;> rw [hk] at h₁ h₂ hlater
    · exact ⟨x, w₂, h₁.attempt.bind h h₂, ho, hlater none rfl⟩
    · exact ⟨{ x with found := e :: x.found }, w₂, h₁.attempt.bind h (h₂.andThen h₁.steady rfl), ho,
        hlater (some e) rfl⟩

theorem finds_restAhead (hr : run.Sound) (h : w.Steady D) (c : Cursor) (hs : c.set < w.sets.size)
    (ks : List Nat) :
    ∃ x w', Finds c.set (c.restAhead run ks) w D x x.found w' ∧ x.outcome = .ok () ∧
      (w.IsFresh c.set → x.found = { c with ahead := ks }.remaining w) := by
  induction ks generalizing w D c with
  | nil =>
    obtain ⟨x, w', hx, ho, hfound⟩ := finds_restHere hr h { c with ahead := [] } hs c.pending
    refine ⟨x, w', hx, ho, fun hf => ?_⟩
    simp [hfound hf, remaining, before, List.filterMap_map]
  | cons k ks ih =>
    obtain ⟨x, w₁, h₁, ho₁, hfound₁⟩ := finds_restHere hr h { c with ahead := k :: ks } hs c.pending
    have hs₁ : c.set < w₁.sets.size := h₁.framed.sets.symm ▸ hs
    obtain ⟨y, w₂, h₂, ho₂, hfound₂⟩ := ih (finds_keys h₁.steady c.set k).steady
      ⟨c.set, k, ks, (w₁.shard c.set k).keys, none⟩ hs₁
    have hkeyed := finds_keys h₁.steady c.set k
    refine ⟨{ y with found := x.found ++ y.found }, w₂, h₁.bind h ?_, ho₂, fun hf => ?_⟩
    · rw [ho₁]
      exact hkeyed.attempt.bind h₁.steady (h₂.andThen hkeyed.steady rfl)
    have hsets := h₁.fresh hf
    have hkeys : (w₁.shard c.set k).keys.map (fun key => (⟨c.set, k, key⟩ : Ticket)) =
        (w.ticketsIn c.set k).map Prod.fst := by
      rw [World.shard, World.collection_congr hsets, World.ticketsIn, List.map_map]
      exact List.map_map
    have hx : x.found = (c.pending.map fun key => (⟨c.set, c.shard, key⟩ : Ticket)).filterMap
        w.reachable? := by
      rw [hfound₁ hf, List.filterMap_map]
      rfl
    rw [hx, hfound₂ (hf.congr h₁.framed hsets), remaining_congr _ hsets h₁.framed.isAlive]
    simp only [remaining, before, hkeys, List.flatMap_cons, List.filterMap_append]

/-- A walk to the end comes there, and finds all that the cursor has before it in a set that was
just swept. -/
theorem finds_rest (hr : run.Sound) (h : w.Steady D) (c : Cursor) (hs : c.set < w.sets.size) :
    ∃ c' es w', Finds c.set (c.rest run) w D ⟨c', .ok es⟩ es w' ∧
      (w.IsFresh c.set → es = c.remaining w) := by
  obtain ⟨x, w', hx, ho, hfound⟩ := finds_restAhead hr h c hs c.ahead
  exact ⟨x.cursor, x.found, w', hx.andThen h (by rw [ho]), hfound⟩

/-- An act of a cursor comes to an element of its set, whose ticket it keeps, or to the end. -/
def FindsNext (s : SetId) (a : Act (Step (Option ElementId))) (w : World) (D : Duties) : Prop :=
  ∃ x e? w', Finds s a w D x e?.toList w' ∧ x.outcome = .ok e? ∧
    (e? = none → x.cursor.last? = none) ∧
    ∀ e ∈ e?, ∃ v t, x.cursor.last? = some t ∧ w.dict s v = some (e, t)

/-- First nothing is found. -/
theorem FindsNext.after {a : Act α} {x : α} {f : α → Act (Step (Option ElementId))}
    (ha : Finds s a w D x [] w') (h : w.Steady D) (hf : FindsNext s (f x) w' (holds [] + D)) :
    FindsNext s (a >>= f) w D := by
  obtain ⟨y, e?, w'', hy, ho, hn, he⟩ := hf
  refine ⟨y, e?, w'', ha.bind h hy, ho, hn, ?_⟩
  rwa [ha.dict h] at he

theorem findsNext_nextHere (hr : run.Sound) (h : w.Steady D) (c : Cursor)
    (hs : c.set < w.sets.size) (hc : c.current = none) (keys : List SlotKey) :
    FindsNext c.set (c.nextHere run keys) w D := by
  induction keys generalizing w D with
  | nil => exact ⟨_, none, w, .pure h _, rfl, fun _ => by simp [last?, hc], by simp⟩
  | cons key keys ih =>
    obtain ⟨w₁, h₁⟩ := finds_visit hr h c hs key
    rcases hk : w.reachable? ⟨c.set, c.shard, key⟩ with _ | e <;> rw [hk] at h₁
    · exact .after h₁.attempt h (ih h₁.steady (h₁.framed.sets.symm ▸ hs))
    · refine ⟨_, some e, w₁, h₁.attempt.andThen h rfl, rfl, nofun, ?_⟩
      rintro _ ⟨⟩
      exact ⟨_, _, rfl, h.quiet.dict_of_reachable hk⟩

theorem findsNext_nextAhead (hr : run.Sound) (h : w.Steady D) (c : Cursor)
    (hs : c.set < w.sets.size) (hc : c.current = none) (ks : List Nat) :
    FindsNext c.set (c.nextAhead run ks) w D := by
  induction ks generalizing w D c with
  | nil => exact findsNext_nextHere hr h { c with ahead := [] } hs hc c.pending
  | cons k ks ih =>
    obtain ⟨x, e?, w₁, h₁, ho₁, hn₁, he₁⟩ :=
      findsNext_nextHere hr h { c with ahead := k :: ks } hs hc c.pending
    have hs₁ : c.set < w₁.sets.size := h₁.framed.sets.symm ▸ hs
    cases e? with
    | some e => exact ⟨x, some e, w₁, h₁.andThen h (by rw [ho₁]), ho₁, hn₁, he₁⟩
    | none =>
      refine .after h₁ h ?_
      rw [ho₁]
      exact .after (finds_keys h₁.steady c.set k).attempt h₁.steady
        (ih (finds_keys h₁.steady c.set k).steady
          { c with shard := k, ahead := ks, pending := (w₁.shard c.set k).keys } hs₁ hc)

theorem findsNext_next (hr : run.Sound) (h : w.Steady D) (c : Cursor)
    (hs : c.set < w.sets.size) : FindsNext c.set (c.next run) w D :=
  findsNext_nextAhead hr h { c with current := none } hs rfl c.ahead

/-- What a removal does with the key that a cursor keeps. -/
theorem exec_removeCurrent {c : Cursor} {key : SlotKey} {t : Ticket} (hn : c.set ∉ w.entered)
    (hc : c.current = some key) (ht : t = ⟨c.set, c.shard, key⟩) :
    c.removeCurrent.exec w =
      match w.handle? t with
      | none => (.ok ⟨{ c with current := none }, .ok false⟩, w)
      | some h => (.ok ⟨{ c with current := none }, .ok true⟩,
          w.removal t h) := by
  have htake := exec_takeOut (w := w) (t := t) (by rwa [ht]) .removed
  rw [World.takeOut_fst] at htake
  rw [removeCurrent, hc]
  simp only
  rw [← ht, exec_bind_ok (exec_attempt_eq_ok.mpr htake)]
  rcases hh : w.handle? t with _ | h
  · rw [World.takeOut_none hh]
    rfl
  · rfl

/-- The handle whose element was returned last goes, and its entry if that was still there. -/
theorem does_removeCurrent (h : w.Steady D) (c : Cursor) (hs : c.set < w.sets.size) :
    ∃ x b w', WeakSet.Does c.set c.removeCurrent w D x w' ∧ x.outcome = .ok b ∧
      w'.dict c.set = (w.dict c.set).without c.last? ∧
      (w'.dict c.set ≠ w.dict c.set → b = true) ∧ (b = true → c.last?.isSome) := by
  have hsuits : w.Suits c := ⟨hs, fun _ => h.quiet.weakSets _ hs⟩
  have hb : Balanced .idle c.removeCurrent w D := by
    simpa [Step.due_zero] using leads_removeCurrent (L := .idle) (D := D) (E := D) hsuits
  rcases hc : c.current with _ | key
  · have hx : c.removeCurrent.exec w = (.ok ⟨{ c with current := none }, .ok false⟩, w) := by
      rw [removeCurrent, hc]
      rfl
    have hlast : c.last? = none := by rw [last?, hc, Option.map_none]
    rw [hlast]
    exact ⟨_, false, w, .of_balanced h hb hx (.refl _ w), rfl, (Dict.without_none _).symm,
      fun hn => absurd rfl hn, nofun⟩
  · obtain ⟨t, ht⟩ : ∃ t : Ticket, t = ⟨c.set, c.shard, key⟩ := ⟨_, rfl⟩
    have ho : t.owner = c.set := by rw [ht]
    have hlast : c.last? = some t := by rw [last?, hc, Option.map_some, ht]
    have hx := exec_removeCurrent (w := w) (by simp [h.quiet.unlocked]) hc ht
    rw [hlast]
    rcases hh : w.handle? t with _ | x <;> simp only [hh] at hx
    · refine ⟨_, false, w, .of_balanced h hb hx (.refl _ w), rfl, ?_, fun hn => absurd rfl hn, nofun⟩
      refine (World.Framed.refl c.set w).dict_without h.quiet h.quiet fun t' => ?_
      by_cases he : t' = t
      · rw [if_pos he, he, hh]
      · rw [if_neg he]
    · have hf := (World.Framed.takeOut w t .removed).trans (.bookRemoval _ _ x.element t)
      rw [ho] at hf
      have hdo := WeakSet.Does.of_balanced h hb hx hf
      refine ⟨_, true, _, hdo, rfl, ?_, fun _ => rfl, fun _ => rfl⟩
      exact hf.dict_without h.quiet hdo.steady.quiet fun t' => by
        rw [World.handle?_bookRemoval, World.handle?_takeOut hh]

end Cursor

/-- All elements of a set. -/
theorem exec_toList (hr : run.Sound) (h : w.Steady D) (hs : s < w.sets.size) (hl : w.isLive s) :
    ∃ es w', (toList run s).exec w = (.ok es, w') ∧ Framed s es w w' ∧ w'.Steady (holds es + D) ∧
      w'.dict s = w.dict s ∧ (w.dict s).Lists (es.map w.value) ∧
      ∀ e ∈ es, ∃ t, w.dict s (w.value e) = some (e, t) := by
  obtain ⟨w₁, h₁, hm, hc⟩ := does_swept hr h hs
  have hfresh := hc hl
  have hq := h₁.steady.quiet
  have hstart : (Cursor.start run s).exec w =
      (.ok { set := s, ahead := List.range (w₁.shardCount s) }, w₁) :=
    (exec_bind_ok h₁.exec _).trans rfl
  obtain ⟨c', es, w₂, h₂, hes⟩ := Cursor.finds_rest hr h₁.steady
    { set := s, ahead := List.range (w₁.shardCount s) } (h₁.size hs)
  have hall : es = (w₁.ticketsOf s).map fun x => x.2.element := by
    have hreach : ∀ x ∈ w₁.ticketsOf s, w₁.reachable? x.1 = some x.2.element := by
      rintro ⟨t, x⟩ hx
      obtain ⟨ho, hx⟩ := mem_ticketsOf.mp hx
      exact World.reachable?_of_isAlive hq.weak hx (hfresh t x ho hx)
    rw [hes hfresh, Cursor.remaining, Cursor.before, List.map_nil, List.nil_append,
      ← List.map_flatMap, List.filterMap_map, ← List.filterMap_eq_map]
    exact List.filterMap_congr hreach
  have hvalue : ∀ e, w₁.value e = w.value e := h₁.framed.value
  refine ⟨es, w₂, ?_, h₁.framed.trans h₂.framed, h₂.steady, ?_, ?_, fun e he => ?_⟩
  · rw [toList, exec_bind_ok hstart, exec_bind_ok h₂.exec, exec_settle]
  · exact (h₂.trims.dict_same h₂.framed hq h₂.steady.quiet).trans hm
  · have hlists := hfresh.lists hq
    rw [hm] at hlists
    rw [hall, List.map_map]
    simp only [hvalue] at hlists
    exact hlists
  · rw [hall] at he
    obtain ⟨⟨t, x⟩, hx, rfl⟩ := List.mem_map.mp he
    refine ⟨t, ?_⟩
    rw [← hm, hq.dict_eq_some]
    exact hfresh.has_iff.mpr ⟨x, hx, rfl, hvalue _⟩

end WeakSet
