import WeakSet.Proofs.Clients
import WeakSet.Proofs.LastReturned

/-!
# Every shard that is asked for exists

A set has the shards that its settings ask for, and these are without fault (`World.Sharded`), whatever
code runs. So what leads to a shard leads to one that exists: the hash of a query, the ticket of a handle,
a ticket that is not foreign, and a cursor (`Cursor.Within`), which in a step only goes to shards that it
has ahead.
-/

namespace WeakSet

open Act

variable {run : Runner} {w w' : World} {D : Duties} {s : SetId} {n : Standing}
  {F : Multiset ElementId}

namespace World

/-- Every set has the shards that its settings ask for, and these are without fault. -/
def Sharded (w : World) : Prop :=
  ∀ s < w.sets.size, (w.collection s).settings.fault? = none ∧
    w.shardCount s = (w.collection s).settings.shardCount

namespace Sharded

theorem empty : World.empty.Sharded := fun s hs => absurd hs (Nat.not_lt_zero s)

theorem of_sets (h : w.Sharded) (hs : w'.sets = w.sets) : w'.Sharded := fun s hlt => by
  rw [shardCount, collection_congr hs]
  exact h s (hs ▸ hlt)

/-- A set changes, but for its settings and the number of its shards. -/
theorem modify (h : w.Sharded) (s : SetId) (f : Collection → Collection)
    (hf : ∀ c, (f c).settings = c.settings ∧ (f c).shards.size = c.shards.size) :
    Sharded { w with sets := w.sets.modify s f } := by
  intro s' hs'
  have hlt : s' < w.sets.size := by simpa using hs'
  by_cases hs : s < w.sets.size
  · rw [shardCount, collection_modify hs]
    split
    · rw [(hf _).1, (hf _).2]
      exact h s hs
    · exact h s' hlt
  · exact h.of_sets (modify_sets_of_size_le (Nat.le_of_not_lt hs) f) s' hs'

theorem setShard (h : w.Sharded) (s : SetId) (k : Nat) (sh : Shard) : (w.setShard s k sh).Sharded :=
  h.modify s _ fun _ => ⟨rfl, Array.size_setIfInBounds ..⟩

theorem endSet (h : w.Sharded) (s : SetId) : (w.endSet s).Sharded :=
  h.modify s _ fun _ => ⟨rfl, rfl⟩

theorem call (h : w.Sharded) (r : Record) : (w.call r).Sharded :=
  (h.modify r.ticket.owner (fun c => { c with calls := c.calls + 1 }) fun _ => ⟨rfl, rfl⟩).of_sets rfl

theorem newSet (h : w.Sharded) {b : Blueprint} (hb : b.settings.fault? = none)
    (channel : Option ChannelId) : (w.newSet b channel).2.Sharded := by
  obtain ⟨c, v, hv, he⟩ := w.newSet_snd b channel
  have hsets : v.sets = w.sets := by rcases hv with ⟨-, rfl⟩ | ⟨-, -, rfl⟩ <;> rfl
  intro s hs
  rw [he] at hs ⊢
  have hlt : s < v.sets.size + 1 := by simpa using hs
  rw [shardCount, collection_push]
  split
  · exact ⟨hb, Array.size_replicate ..⟩
  · rename_i hne
    exact h.of_sets hsets s (Nat.lt_of_le_of_ne (Nat.le_of_lt_succ hlt) hne)

end Sharded

end World

open World

/-- Every set has the shards that its settings ask for. Code may panic and be refused entry. -/
def Condition.sharded : Condition where
  Holds _ _ w := w.Sharded
  panics := True
  bars _ _ := True

theorem total_sharded (hr : run.Obeys .sharded) : Condition.sharded.Total run True n where
  toLends := hr.lends (fun _ h => h.of_sets rfl) fun h => h.of_sets (by rw [release_eq])
  panics := trivial
  indebted s _ :=
    { toLends := hr.lends (fun _ h => h.of_sets rfl) fun h => h.of_sets (by rw [release_eq])
      note := fun _ h => h.of_sets rfl
      tell := fun _ h => h.of_sets rfl
      lock := fun _ h => h.of_sets rfl
      unlock := fun h => h.of_sets rfl
      equality := .left (.allow trivial (hr _ _ _ _))
      listener := .left (.allow trivial (hr _ _ _ _))
      takeNotices := fun h => ⟨h.of_sets (by rw [takeNotices_eq]), fun _ _ => trivial⟩
      takeOut := fun {_ _ w t d} _ _ h => by
        rcases takeOut_cases w t d with ⟨-, e⟩ | ⟨x, -, e⟩ <;> rw [e]
        · exact h
        · exact Sharded.of_sets (Sharded.setShard h _ _ _) rfl
      takeAll := fun {_ _ w k} h => by
        rw [takeAll_snd]
        exact Sharded.of_sets (Sharded.setShard h _ _ _) rfl
      unwatch := fun _ h => h.of_sets (by rw [unwatch_eq])
      call := fun _ _ h => Sharded.call h _
      putDown := fun h => h.of_sets rfl
      store := fun h => Sharded.of_sets (Sharded.setShard h _ _ _) rfl
      barred := fun _ h => ⟨h.of_sets rfl, trivial⟩ }
  remark _ h := h.of_sets rfl
  create _ h := h.of_sets rfl
  newSet hf _ h := h.newSet hf _
  unmake h := by
    rw [unmake_eq]
    exact (Sharded.endSet h _).of_sets rfl
  predicate _ := hr _ _ _ _
  borrow _ h := h.of_sets rfl
  own _ h := h.of_sets rfl
  disown _ h := h.of_sets rfl
  channels _ h := h.of_sets rfl
  rename _ _ _ _ _ h := h.of_sets rfl
  posted _ _ h := h.of_sets rfl
  drained _ h := h.of_sets rfl
  takeRecord _ h := h.of_sets rfl

/-! ## Cursors -/

namespace Cursor

variable {c d e : Cursor} {last : Option (ElementId × World)}

/-- A cursor that has come no further than to the shards that another has ahead. -/
structure Within (c d : Cursor) : Prop where
  set : d.set = c.set
  shard : d.shard ∈ c.shard :: c.ahead
  ahead : ∀ k ∈ d.ahead, k ∈ c.ahead

/-- Where it was, with other keys. -/
theorem within_keys (c : Cursor) (keys : List SlotKey) (o : Option SlotKey) :
    Within c { c with pending := keys, current := o } :=
  ⟨rfl, List.mem_cons_self, fun _ => id⟩

theorem Within.trans (h : Within c d) (h' : Within d e) : Within c e where
  set := h'.set.trans h.set
  shard := by
    rcases List.mem_cons.mp h'.shard with hd | hd
    · exact hd ▸ h.shard
    · exact List.mem_cons_of_mem _ (h.ahead _ hd)
  ahead k hk := h.ahead k (h'.ahead k hk)

/-- To the next shard. -/
theorem within_list (c : Cursor) (k : Nat) (ks : List Nat) (keys : List SlotKey) (o : Option SlotKey) :
    Within { c with ahead := k :: ks } ⟨c.set, k, ks, keys, o⟩ :=
  ⟨rfl, by simp, fun _ => List.mem_cons_of_mem k⟩

theorem within_nextHere (c : Cursor) (keys : List SlotKey) :
    Yields (c.nextHere run keys) fun x => Within c x.cursor := by
  induction keys with
  | nil => exact .pure (within_keys ..)
  | cons key keys ih =>
    refine .seq fun r => ?_
    rcases r with p | _ | e
    · exact .pure (within_keys ..)
    · exact ih
    · exact .pure (within_keys ..)

theorem within_nextAhead (c : Cursor) (ks : List Nat) :
    Yields (c.nextAhead run ks) fun x => Within { c with ahead := ks } x.cursor := by
  induction ks generalizing c with
  | nil => exact within_nextHere _ _
  | cons k ks ih =>
    refine .bind (within_nextHere { c with ahead := k :: ks } c.pending) fun x hx => ?_
    split
    · refine .seq fun r => ?_
      rcases r with p | keys
      · exact .pure (within_list ..)
      · exact (ih _).imp fun y hy => (within_list c k ks keys c.current).trans hy
    · exact .pure hx

theorem within_next (c : Cursor) : Yields (c.next run) fun x => Within c x.cursor :=
  (within_nextAhead { c with current := none } c.ahead).imp fun _ hx => (within_keys ..).trans hx

theorem within_restHere (c : Cursor) (keys : List SlotKey) :
    Yields (c.restHere run keys) fun x => Within c x.cursor := by
  induction keys with
  | nil => exact .pure (within_keys ..)
  | cons key keys ih =>
    refine .seq fun r => ?_
    rcases r with p | _ | e
    · exact .pure (within_keys ..)
    · exact ih
    · exact .bind ih fun x hx => .pure hx

theorem within_restAhead (c : Cursor) (ks : List Nat) :
    Yields (c.restAhead run ks) fun x => Within { c with ahead := ks } x.cursor := by
  induction ks generalizing c with
  | nil => exact within_restHere _ _
  | cons k ks ih =>
    refine .bind (within_restHere { c with ahead := k :: ks } c.pending) fun x hx => ?_
    split
    · exact .pure hx
    · refine .seq fun r => ?_
      rcases r with p | keys
      · exact .pure (within_list ..)
      · exact .bind (ih _) fun y hy => .pure ((within_list c k ks keys none).trans hy)

theorem within_rest (c : Cursor) : Yields (c.rest run) fun x => Within c x.cursor := by
  refine .bind (within_restAhead c c.ahead) fun x hx => ?_
  split
  · exact .pure hx
  · exact .seq fun _ => .pure hx

theorem within_removeCurrent (c : Cursor) :
    Yields c.removeCurrent fun x => Within c x.cursor :=
  (yields_removeCurrent c).imp fun _ hx => hx ▸ within_keys c _ _

/-- The shard that a cursor is in and those that it has ahead exist. -/
def InRange (c : Cursor) (w : World) : Prop :=
  ∀ k ∈ c.shard :: c.ahead, w.HasShard c.set k

theorem InRange.within (h : c.InRange w) (hd : Within c d) : d.InRange w := fun k hk => by
  rw [hd.set]
  rcases List.mem_cons.mp hk with rfl | hk
  · exact h _ hd.shard
  · exact h k (List.mem_cons_of_mem _ (hd.ahead k hk))

theorem InRange.later (h : c.InRange w) (hl : World.Later w w') : c.InRange w' := fun k hk =>
  hl.hasShard (h k hk)

/-- Whatever was done with a cursor and meanwhile, it is in a shard that exists, and so are those that it has
ahead. -/
theorem Life.inRange (hr : run.Sound) (h : Life run s w D c last) : c.InRange w := by
  induction h with
  | @start w w' D c hw hs hx =>
    have hcourse := (balanced_start hr hs).ok (L := .idle) hx hw (.idle w)
    have hs' : s < w'.sets.size := hs.trans_le (hcourse.later hw.sane).sets
    obtain ⟨_, w₁, -, hx⟩ := exec_bind_eq_ok.mp hx
    obtain ⟨n, w₂, hn, hx⟩ := exec_bind_eq_ok.mp hx
    obtain ⟨rfl, rfl⟩ := exec_pure_eq_ok.mp hx
    obtain ⟨rfl, rfl⟩ : w₁.shardCount s = n ∧ w₁ = w₂ := by simpa [exec_look] using hn
    intro k hk
    rcases List.mem_cons.mp hk with rfl | hk
    · exact ⟨hs', (hcourse.point hw).formed.roomy s hs'⟩
    · exact ⟨hs', List.mem_range.mp hk⟩
  | meanwhile h hc ih => exact ih.later (hc.later (h.aimed hr).point.sane)
  | @next w w' D c _ x h hx ih =>
    have ha := h.aimed hr
    have hcourse := (leads_next hr (E := D) c ha.suits.set).ok (L := .idle) hx ha.point (.idle w)
    exact (ih.within (within_next c _ _ _ hx)).later (hcourse.later ha.point.sane)
  | @removeCurrent w w' D c _ x h hx ih =>
    have ha := h.aimed hr
    have hcourse := (leads_removeCurrent (L := .idle) (E := D) ha.suits).ok hx ha.point (.idle w)
    exact (ih.within (within_removeCurrent c _ _ _ hx)).later (hcourse.later ha.point.sane)
  | @rest w w' D c _ x h hx ih =>
    have ha := h.aimed hr
    have hcourse := (leads_rest hr (E := D) c ha.suits.set).ok (L := .idle) hx ha.point (.idle w)
    exact (ih.within (within_rest c _ _ _ hx)).later (hcourse.later ha.point.sane)

end Cursor

/-! ## Runs -/

namespace World

/-- All that leads to a shard of a set leads to one that the set has. -/
structure Reaches (w : World) (s : SetId) : Prop where
  count : w.shardCount s = (w.collection s).settings.shardCount
  /-- Where a query belongs. -/
  query : ∀ q, ∃ hash k, (locus s q).exec w = (.ok (hash, k), w) ∧ w.HasShard s k
  /-- What a sweep takes up. -/
  notice : ∀ t, w.isForeign s t = false → t.owner = s ∧ w.HasShard s t.shard
  /-- Where a filter, a count and the like go. -/
  every : (shards s).exec w = (.ok (List.range (w.shardCount s)), w)
  /-- What a ticket keeps of its shard is the shard. -/
  ticket : ∀ t, w.Issued t → t.owner = s → w.HasShard s t.shard ∧ (UInt32.ofNat t.shard).toNat = t.shard

theorem hasShard_of_issued {t : Ticket} (h : w.Issued t) : w.HasShard t.owner t.shard := by
  refine hasShard_of_lt ?_
  by_contra hlt
  obtain ⟨slot, hs, -⟩ := h
  rw [shard, Array.getD_eq_getD_getElem?, Array.getElem?_eq_none (Nat.le_of_not_lt hlt)] at hs
  cases hs

theorem Sharded.reaches (h : w.Sharded) (hs : s < w.sets.size) : w.Reaches s := by
  obtain ⟨hf, hcount⟩ := h s hs
  refine ⟨hcount, fun q => ⟨_, _, rfl, hs, ?_⟩, fun t ht => ?_, rfl, ?_⟩
  · rw [hcount]
    exact Settings.shardOf_lt _ _
  · simp only [isForeign, Bool.or_eq_false_iff, decide_eq_false_iff_not, not_not, not_le] at ht
    exact ⟨ht.1, hs, ht.2⟩
  · rintro t ht rfl
    have hk := hasShard_of_issued ht
    exact ⟨hk, (Settings.fitTogether hf).narrow _ (hcount ▸ hk.2)⟩

end World

namespace Session

theorem obeys_sharded (depth : Nat) : (runner depth).Obeys .sharded :=
  Runner.obeys (A := .sharded) (fun h => h.of_sets rfl) total_sharded depth

/-- Settings without fault, and those of a set that is made for any number of elements, give a number of
shards and a capacity that fit together. In every run all sets have such settings and as many shards as
they say: between commands, and wherever client code runs, as each command and each script only has to
keep it so. And there all that leads to a shard leads to one that the set has, also a cursor whatever was
done with it. -/
theorem shards_fit_together (depth : Nat) :
    (∀ c : Settings, c.fault? = none → c.FitTogether) ∧
    (∀ n, { Settings.standard with capacity := min n maxCapacity }.FitTogether) ∧
    (∀ cs, (carryOutAll depth .empty cs).Sharded) ∧
    (∀ (w : World) role script, w.Sharded → ((runner depth role script).exec w).2.Sharded) ∧
    (∀ (w : World) (run : Runner) inScript c,
      (∀ role script (v : World), v.Sharded → ((run role script).exec v).2.Sharded) →
      w.Sharded → ((perform run inScript c).exec w).2.Sharded) ∧
    (∀ w : World, w.Sharded → ∀ s < w.sets.size, w.Reaches s) ∧
    ∀ s (w : World) D c last, Cursor.Life (runner depth) s w D c last → c.InRange w := by
  have hperform (run : Runner) (hr : run.Obeys .sharded) (w : World) (inScript : Bool) (c : Command)
      (hw : w.Sharded) : ((perform run inScript c).exec w).2.Sharded :=
    ((total_sharded (n := {}) hr).perform (F := 0) (.inr trivial) inScript).exec hw
  refine ⟨fun c => Settings.fitTogether, fun n => Settings.fitTogether (Settings.fault?_sized n),
    fun cs => ?_, fun w role script => (obeys_sharded depth {} 0 role script).exec,
    fun w run b c hr hw => hperform run (fun _ _ role script v hv => ?_) w b c hw,
    fun w hw s hs => hw.reaches hs, fun s w D c last h => h.inRange (sound_runner depth)⟩
  · exact List.foldlRecOn (motive := World.Sharded) cs _ .empty fun w hw c _ =>
      hperform _ (obeys_sharded depth) w false c hw
  · rw [after_same]
    exact hr role script v hv

/-- Five threads and a hundred elements: eight shards with room for thirteen each, and a set that has
them. -/
theorem shards_fit_together_five :
    let c : Settings := { capacity := 100, concurrency := 5 }
    let w := carryOutAll 0 .empty [.build "s" (.ok ⟨c, none, .fnv, .silent⟩)]
    c.shardCount = 8 ∧ c.shardCapacity = 13 ∧ c.FitTogether ∧ w.shardCount 0 = 8 ∧ w.Reaches 0 := by
  intro c w
  have h := shards_fit_together 0
  exact ⟨by decide +kernel, by decide +kernel, h.1 c (by decide +kernel), by decide +kernel,
    h.2.2.2.2.2.1 w (h.2.2.1 _) 0 (by decide +kernel)⟩

end Session

end WeakSet
