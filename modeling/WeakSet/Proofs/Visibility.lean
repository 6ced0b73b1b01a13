import WeakSet.Proofs.Quiet

/-!
# What operations see

A handle shows its element if it is weak and the element is alive. Where no element has code that runs
in comparisons and no set is locked, lookups and sweeps come to what can be read off the world, whatever
the kind of the set and of its channel:

* `exec_lookup`: a lookup comes to the first handle of its hash that shows an element of the value, and
  changes nothing;
* `exec_sweep_plain`: a sweep leaves the handles whose tickets were not delivered (`World.left?`), if the
  listener of the set has no script;
* `exec_reachable`: what is held of a set are the elements that its handles show (`World.sights`).
-/

namespace WeakSet

open Act

namespace World

/-- No element has code that runs in comparisons. -/
def Unhooked (w : World) : Prop :=
  ∀ e, w.onEqual e = none

/-- Whether a handle shows its element. -/
def shows (w : World) (h : Handle) : Bool :=
  h.kind = .weak && w.isAlive h.element

/-- Whether a handle shows an element of a value. -/
def suits (w : World) (v : Value) (x : SlotKey × Handle) : Bool :=
  w.shows x.2 && w.value x.2.element = v

variable {w w' : World} {s : SetId} {v : Value} {e : ElementId} {es : List ElementId}

theorem onEqual_eq (w : World) (e : ElementId) : w.onEqual e = (w.element? e).bind Element.onEqual := by
  rw [onEqual, element?]
  cases w.cells[e]? <;> rfl

theorem onEqual_acquire (w : World) (e e' : ElementId) : (w.acquire e).onEqual e' = w.onEqual e' := by
  rw [onEqual_eq, element?_acquire, ← onEqual_eq]

theorem unhooked_iff : w.Unhooked ↔ w.cells.all fun c => c.element.onEqual.isNone := by
  simp only [Array.all_eq_true', Option.isNone_iff_eq_none]
  constructor
  · intro h c hc
    obtain ⟨e, he⟩ := Array.mem_iff_getElem?.mp hc
    have := h e
    rwa [onEqual, he] at this
  · intro h e
    rw [onEqual]
    rcases he : w.cells[e]? with _ | c
    · rfl
    · exact h c (Array.mem_of_getElem? he)

instance (w : World) : Decidable w.Unhooked :=
  decidable_of_iff _ unhooked_iff.symm

theorem Unhooked.congr (h : w.Unhooked) (he : ∀ e, w'.element? e = w.element? e) : w'.Unhooked :=
  fun e => by rw [onEqual_eq, he, ← onEqual_eq, h]

theorem SameButCounts.value (h : w.SameButCounts w') (e : ElementId) : w'.value e = w.value e :=
  value_congr (h.element e)

theorem SameButCounts.target (h : w.SameButCounts w') (q : Query) : q.target w' = q.target w :=
  target_congr h.element q

/-- A reference to a living element more brings none to life. -/
theorem isAlive_acquire (he : w.isAlive e) (e' : ElementId) :
    (w.acquire e).isAlive e' = w.isAlive e' := by
  have hp := isAlive_iff.mp he
  rw [isAlive, isAlive, strong_acquire (lt_size_of_strong hp)]
  split
  · subst_vars
    simp only [decide_eq_decide]
    omega
  · rfl

theorem shows_acquire (he : w.isAlive e) : (w.acquire e).shows = w.shows := by
  funext h
  rw [shows, shows, isAlive_acquire he]

theorem suits_acquire (he : w.isAlive e) (v : Value) : (w.acquire e).suits v = w.suits v := by
  funext x
  rw [suits, suits, shows_acquire he, (sameButCounts_acquire w e).value]

theorem Framed.shows (h : Framed s es w w') (x : Handle) : w'.shows x = w.shows x := by
  rw [World.shows, World.shows, h.isAlive]

theorem Framed.unhooked (h : Framed s es w w') (hw : w.Unhooked) : w'.Unhooked :=
  hw.congr h.element

theorem isAlive_of_shows {h : Handle} (hs : w.shows h) : w.isAlive h.element := by
  rw [World.shows, Bool.and_eq_true] at hs
  exact hs.2

theorem foldl_acquire_lock (es : List ElementId) (w : World) (s : SetId) :
    es.foldl acquire (w.lock s) = (es.foldl acquire w).lock s := by
  induction es generalizing w with
  | nil => rfl
  | cons e es ih => exact ih (w.acquire e)

end World

open World

section

variable {run : Runner} {w w' : World} {s : SetId} {q : Query} {e : ElementId} {es : List ElementId}

/-! ## Lookups -/

theorem exec_reach_eq (h : Handle) (w : World) :
    (reach h).exec w =
      if w.shows h then (.ok (some h.element), w.acquire h.element) else (.ok none, w) := by
  cases hk : h.kind with
  | weak =>
    rw [exec_reach hk]
    simp [World.shows, hk]
  | phantom =>
    rw [reach, hk, if_neg (by simp [World.shows, hk])]
    rfl

theorem exec_compareHook (hn : w.onEqual e = none) : (compareHook run e).exec w = (.ok (), w) := by
  rw [compareHook, exec_bind_ok (exec_look _ w), hn]
  rfl

theorem exec_compareHook_script {script : Script} {tag : String} (h : w.onEqual e = some script)
    (ht : (w.face e).tag = tag) :
    (compareHook run e).exec w = (run .equality script).exec (w.note (.compared tag)) := by
  subst ht
  rw [compareHook, exec_bind_ok (exec_look _ w), h]
  rfl

theorem exec_matchesQuery (hw : w.Unhooked) (q : Query) (e : ElementId) :
    (matchesQuery run q e).exec w = (.ok (w.value e = q.target w), w) := by
  cases q with
  | value v => rfl
  | element e' =>
    rw [matchesQuery, sameElements, exec_bind_ok (exec_compareHook (hw e)),
      exec_bind_ok (exec_compareHook (hw e')), exec_look]
    rfl

/-- A probe for an element that has a comparison of its own reaches one that has none. If they are equal
when the script is done, the probe ends there. -/
theorem exec_probe_compared {w' : World} {key : SlotKey} {h : Handle} {cs : List (SlotKey × Handle)}
    {script : Script} {tag : String} (hk : h.kind = .weak) (ha : w.isAlive h.element)
    (hn : w.onEqual h.element = none) (hq : w.onEqual e = some script) (ht : (w.face e).tag = tag)
    (hx : (run .equality script).exec ((w.acquire h.element).note (.compared tag)) = (.ok (), w'))
    (hv : w'.value h.element = w'.value e) :
    (probe run (.element e) ((key, h) :: cs)).exec w = (.ok ⟨[h.element], .ok (some key)⟩, w') := by
  have hr : (reach h).exec w = (.ok (some h.element), w.acquire h.element) := by
    rw [exec_reach hk, if_pos ha]
  have hface := (congrArg Face.tag (face_congr (w.element?_acquire h.element e))).trans ht
  have hplain : (compareHook run h.element).exec (w.acquire h.element) =
      (.ok (), w.acquire h.element) :=
    exec_compareHook ((w.onEqual_acquire h.element _).trans hn)
  have hscript := (exec_compareHook_script ((w.onEqual_acquire h.element _).trans hq) hface).trans hx
  have hm : (matchesQuery run (.element e) h.element).exec (w.acquire h.element) =
      (.ok true, w') := by
    rw [matchesQuery, sameElements, exec_bind_ok hplain, exec_bind_ok hscript, exec_look, hv,
      decide_eq_true rfl]
  rw [probe, exec_bind_ok hr, exec_bind_ok (exec_attempt_eq_ok.mpr hm)]
  rfl

variable (run) in
/-- A probe comes to the first handle that shows an element of the value. -/
theorem exec_probe_eq (q : Query) (cs : List (SlotKey × Handle)) (hw : w.Unhooked) :
    ∃ es, (∀ e ∈ es, w.isAlive e) ∧ (probe run q cs).exec w =
      (.ok ⟨es, .ok ((cs.find? (w.suits (q.target w))).map Prod.fst)⟩, es.foldl acquire w) := by
  induction cs generalizing w with
  | nil => exact ⟨[], by simp, rfl⟩
  | cons x cs ih =>
    obtain ⟨key, h⟩ := x
    have hreach := exec_reach_eq h w
    by_cases hv : w.shows h
    · have ha := isAlive_of_shows hv
      have hs := sameButCounts_acquire w h.element
      have hw' := hw.congr hs.element
      rw [if_pos hv] at hreach
      rw [probe, exec_bind_ok hreach]
      simp only
      rw [exec_bind_ok (exec_attempt _ _), exec_matchesQuery hw', hs.value, hs.target]
      by_cases he : w.value h.element = q.target w
      · refine ⟨[h.element], by simpa using ha, ?_⟩
        simp [he, suits, hv, exec_pure]
      · obtain ⟨es, hes, hx⟩ := ih hw'
        refine ⟨h.element :: es, fun e he => ?_, ?_⟩
        · rcases List.mem_cons.mp he with rfl | he
          · exact ha
          · rw [← isAlive_acquire ha]
            exact hes e he
        · rw [hs.target, suits_acquire ha] at hx
          simp only [he, decide_false]
          rw [exec_bind_ok hx, List.find?_cons_of_neg (by simp [suits, he])]
          rfl
    · rw [if_neg hv] at hreach
      obtain ⟨es, hes, hx⟩ := ih hw
      refine ⟨es, hes, ?_⟩
      rw [probe, exec_bind_ok hreach]
      simp only
      rw [hx, List.find?_cons_of_neg (by simp [suits, hv])]

/-- Where a value belongs. -/
def World.hashOf (w : World) (s : SetId) (v : Value) : UInt64 :=
  (w.collection s).scheme.hash v

/-- The shard where a value belongs. -/
def World.shardFor (w : World) (s : SetId) (v : Value) : Nat :=
  shardOf (w.shardCount s) (w.hashOf s v)

theorem World.hasShard_shardFor (hf : w.Formed) (hs : s < w.sets.size) (v : Value) :
    w.HasShard s (w.shardFor s v) :=
  ⟨hs, shardOf_lt (hf.roomy s hs) _⟩

/-- The key of the first handle that a lookup in a set comes upon and that shows an element of a
value. -/
def World.hit (w : World) (s : SetId) (v : Value) : Option SlotKey :=
  (((w.shard s (w.shardFor s v)).candidates (w.hashOf s v)).find? (w.suits v)).map Prod.fst

/-- A lookup comes to a handle exactly if the set has one that shows an element of the value. -/
theorem World.hit_isSome (hf : w.Formed) {s : SetId} {v : Value} :
    (w.hit s v).isSome ↔
      ∃ t h, t.owner = s ∧ w.handle? t = some h ∧ w.shows h ∧ w.value h.element = v := by
  rw [World.hit, Option.isSome_map, List.find?_isSome]
  constructor
  · rintro ⟨⟨key, h⟩, hx, hv⟩
    simp only [World.suits, Bool.and_eq_true, decide_eq_true_eq] at hv
    exact ⟨⟨s, _, key⟩, h, rfl, ((hf.shards s _).mem_candidates.mp hx).1, hv.1, hv.2⟩
  · rintro ⟨t, h, rfl, hh, hs, rfl⟩
    have hfit := hf.fits t h hh
    have hplace : t.shard = w.shardFor t.owner (w.value h.element) := by
      rw [hfit.place, hfit.hash]
      rfl
    refine ⟨(t.key, h), (hf.shards _ _).mem_candidates.mpr ⟨?_, hfit.hash⟩, ?_⟩
    · rw [← hplace]
      exact hh
    · simp [World.suits, hs]

variable (run) in
/-- A probe under the lock of its set, and what follows it there. -/
theorem exec_probeThen_eq (hw : w.Unhooked) (hn : s ∉ w.entered) :
    ∃ es w₁, Framed s es w w₁ ∧ w.SameButCounts w₁ ∧
      ∀ {α : Type} {go : UInt64 → Nat → Option SlotKey → Act α} x w₂,
        (go (w.hashOf s (q.target w)) (w.shardFor s (q.target w)) (w.hit s (q.target w))).exec
          (w₁.lock s) = (.ok x, w₂.lock s) →
        (probeThen run s q go).exec w = (.ok ⟨es, .ok x⟩, w₂) := by
  obtain ⟨es, hes, he⟩ := exec_probe_eq run (w := w.lock s) q
    ((w.shard s (w.shardFor s (q.target w))).candidates (w.hashOf s (q.target w))) hw
  obtain ⟨hs, hc⟩ := World.foldl_acquire es (w := w) fun e he =>
    World.lt_size_of_strong (World.isAlive_iff.mp (hes e he))
  rw [World.foldl_acquire_lock] at he
  refine ⟨es, _, .of_counts hs hes hc, hs, fun {α go} x w₂ hx => ?_⟩
  have hprobe : (probeShard run s (w.shardFor s (q.target w)) (w.hashOf s (q.target w)) q).exec
      (w.lock s) = (.ok ⟨es, .ok (w.hit s (q.target w))⟩, (es.foldl World.acquire w).lock s) := by
    rw [exec_probeShard]
    exact he
  have hlocus : (locus s q).exec w =
      (.ok (w.hashOf s (q.target w), w.shardFor s (q.target w)), w) := rfl
  rw [exec_probeThen hn hlocus hprobe]
  simp only
  rw [hx, World.unlock_lock]
  rfl

/-- A lookup comes to what its probe finds, and lets go of what the probe held. -/
theorem exec_find_probed {w' : World} {hash : UInt64} {k : Nat} {p : Probe} {found : Option SlotKey}
    (hn : s ∉ w.entered) (hh : w.hashOf s (q.target w) = hash) (hk : w.shardFor s (q.target w) = k)
    (hp : (probeShard run s k hash q).exec (w.lock s) = (.ok p, w')) (hf : p.found = .ok found) :
    (find run s q).exec w = (.ok (found.map fun key => ⟨s, k, key⟩),
      ((releaseAll run p.held).exec (w'.unlock s)).2) := by
  have hsection : (findSection run s q).exec w =
      (.ok ⟨p.held, .ok (found.map fun key => ⟨s, k, key⟩)⟩, w'.unlock s) := by
    subst hh hk
    rw [findSection, exec_probeThen hn rfl hp, hf]
    rfl
  obtain ⟨v, h⟩ := exec_releaseAll run p.held (w'.unlock s)
  rw [find, exec_bind_ok hsection, Section.close, exec_bind_ok h, h]
  rfl

variable (run) in
/-- A lookup changes nothing. -/
theorem exec_lookup (hw : w.Unhooked) (hn : s ∉ w.entered) (q : Query) :
    (find run s q).exec w = (.ok ((w.hit s (q.target w)).map fun key =>
      (⟨s, w.shardFor s (q.target w), key⟩ : Ticket)), w) := by
  obtain ⟨es, w₁, hf₁, hs₁, hx⟩ := exec_probeThen_eq run (s := s) (q := q) hw hn
  obtain ⟨w₂, h₂, hf₂, hs₂⟩ := hf₁.giveBack run
  have he : w₂ = w := (hs₁.trans hs₂).eq hf₂.strong
  rw [find, findSection, exec_bind_ok (hx _ w₁ rfl), Section.close, exec_bind_ok h₂, he]
  rfl

/-! ## Sweeping -/

theorem World.takeOut_lock (w : World) (t : Ticket) (d : Departure) :
    (w.lock s).takeOut t d = ((w.takeOut t d).1, (w.takeOut t d).2.lock s) := by
  unfold World.takeOut
  have hsh : (w.lock s).shard t.owner t.shard = w.shard t.owner t.shard := rfl
  rw [hsh]
  rcases (w.shard t.owner t.shard).remove t.key with ⟨_ | h, sh⟩ <;> rfl

theorem exec_takeOut {t : Ticket} (hn : t.owner ∉ w.entered) (d : Departure) :
    (takeOut t d).exec w = (.ok (w.takeOut t d).1, (w.takeOut t d).2) := by
  rw [takeOut, exec_guarded_of_not_mem hn, exec_update, World.takeOut_lock, World.unlock_lock]

/-- What a sweep tells of a handle that it takes out. The record has the element if the handle shows
it. -/
def World.recordOf (w : World) (t : Ticket) (h : Handle) : Record :=
  ⟨t, h.hash, if w.shows h then some h.element else none⟩

/-- The books are closed on a handle: its element is watched no longer for it, the log says so, and the
record has a reference. -/
def World.close (w : World) (t : Ticket) (h : Handle) : World :=
  let u := (w.unwatch h.element t).note (.line (.reclaimed t (!w.isAlive h.element)))
  if w.shows h then u.acquire h.element else u

theorem World.shows_unwatch (w : World) (e : ElementId) (t : Ticket) (h : Handle) :
    (w.unwatch e t).shows h = w.shows h := by
  rw [World.shows, World.shows, World.isAlive, World.isAlive, World.strong_unwatch]

/-- Only cells and the journal change when the books are closed. -/
theorem World.close_eq (w : World) (t : Ticket) (h : Handle) :
    w.close t h =
      { w with
        cells := (w.close t h).cells
        journal := w.journal.push (.line (.reclaimed t (!w.isAlive h.element))) } := by
  unfold World.close
  rw [World.unwatch_eq]
  split <;> rfl

theorem exec_closeBooks_eq (t : Ticket) (h : Handle) (w : World) :
    (closeBooks t h).exec w = (.ok (w.recordOf t h), w.close t h) := by
  have hreach := exec_reach_eq h
    ((w.unwatch h.element t).note (.line (.reclaimed t (!w.isAlive h.element))))
  have hs : World.shows ((w.unwatch h.element t).note (.line (.reclaimed t (!w.isAlive h.element)))) h =
      w.shows h := World.shows_unwatch w h.element t h
  rw [hs] at hreach
  rw [closeBooks, exec_bind_ok (exec_look _ w), forget, exec_bind_ok (exec_change _ w), Act.log,
    Act.note, exec_bind_ok (exec_change _ _), World.recordOf, World.close]
  split at hreach <;> rw [exec_bind_ok hreach] <;> simp only [*] <;> rfl

theorem World.Framed.close (s : SetId) (w : World) (t : Ticket) (h : Handle) :
    Framed s (w.recordOf t h).last.toList w (w.close t h) := by
  obtain ⟨u, hu⟩ : ∃ u, u = (w.unwatch h.element t).note
    (.line (.reclaimed t (!w.isAlive h.element))) := ⟨_, rfl⟩
  have hf : Framed s [] w u := hu ▸ (Framed.unwatch s w h.element t).trans (.note rfl s _)
  rw [World.recordOf, World.close, ← hu]
  by_cases hs : w.shows h
  · have ha : u.isAlive h.element :=
      World.isAlive_of_shows (hu ▸ (World.shows_unwatch w h.element t h).trans hs)
    simp only [hs, ite_true]
    refine hf.trans (.of_counts (World.sameButCounts_acquire _ h.element) (by simpa using ha) fun e => ?_)
    rw [World.strong_acquire (World.lt_size_of_strong (World.isAlive_iff.mp ha))]
    by_cases he : e = h.element
    · subst he; simp
    · simp [he, Ne.symm he]
  · simp only [hs, Bool.false_eq_true, ite_false]
    exact hf

variable (run) in
/-- A listener without scripts is called, and lets go of what the record holds. -/
theorem exec_report_eq {r : Record} (hl : (w.collection r.ticket.owner).listener.IsPlain) {w₀ : World}
    (hf : Framed s r.last.toList w₀ w) :
    ∃ w', (report run r.ticket.owner r).exec w = (.ok (), w') ∧ Framed s [] w₀ w' ∧
      w'.channels = w.channels ∧ ∀ t, w'.handle? t = w.handle? t := by
  let u : World := { w.call r with hands := w.hands }
  have hcall := Framed.call s w r
  have hp : ((w.call r).collection r.ticket.owner).listener.IsPlain := by
    have he : ((w.call r).collection r.ticket.owner).listener =
        (w.collection r.ticket.owner).listener :=
      Collection.listener_eq (hcall.mould r.ticket.owner)
    rwa [he]
  have hx : (report run r.ticket.owner r).exec w = (releaseAll run r.last.toList).exec u := by
    refine (exec_report run r w).trans ?_
    rw [listen, exec_bind_ok (exec_attempt _ _), exec_bind_ok (exec_look _ _), hp]
    rw [exec_bind_ok (exec_update _ _)]
    change Act.exec _ u = _
    have hlast : ((w.call r).hands.head?.join.bind Record.last) = r.last := rfl
    rw [exec_pure, hlast]
    cases r.last with
    | none => rfl
    | some e => rfl
  have hu := hf.trans hcall
  rw [List.append_nil] at hu
  obtain ⟨w', h', hf', hs'⟩ := hu.giveBack run
  refine ⟨w', hx.trans h', hf', by rw [hs'.rest]; rfl, fun t => ?_⟩
  have hsets : w'.sets = u.sets := by rw [hs'.rest]
  rw [World.handle?_congr hsets]
  exact World.handle?_call w r t

/-- How a listener call ended is said in the log, if it panicked. -/
def World.noteEnd (w : World) (t : Ticket) : Except Panic Unit → World
  | .ok _ => w
  | .error p => w.note (.line (.listenerPanicked t p))

variable (run) in
/-- A ticket that is not one of the set is logged. -/
theorem exec_sweepOne_foreign {t : Ticket} (hf : w.isForeign s t) (b : Batch) :
    (sweepOne run s b t).exec w = (.ok b, w.note (.line (.foreign t))) := by
  rw [sweepOne, exec_bind_ok (exec_look _ w), hf]
  rfl

variable (run) in
/-- A ticket whose handle is gone has no effect. -/
theorem exec_sweepOne_stale {t : Ticket} (hf : ¬ w.isForeign s t) (hn : s ∉ w.entered)
    (hh : w.handle? t = none) (b : Batch) : (sweepOne run s b t).exec w = (.ok b, w) := by
  obtain rfl := owner_of_not_isForeign hf
  have htake := exec_takeOut hn .swept
  rw [World.takeOut_fst, hh, World.takeOut_none hh] at htake
  rw [sweepOne, exec_bind_ok (exec_look _ w), Bool.eq_false_iff.mpr hf]
  exact exec_bind_ok htake _

variable (run) in
/-- A handle is taken out and reported. -/
theorem exec_sweepOne_reap {t : Ticket} {h : Handle} (hn : t.owner ∉ w.entered)
    (hh : w.handle? t = some h) {o : Except Panic Unit}
    (hx : (report run t.owner ((w.takeOut t .swept).2.recordOf t h)).exec
      ((w.takeOut t .swept).2.close t h) = (o, w')) (b : Batch) :
    (sweepOne run t.owner b t).exec w =
      (.ok (b.reportEnded ((w'.noteEnd t o).collection t.owner).settings.policy o), w'.noteEnd t o) := by
  have hf : ¬ w.isForeign t.owner t := fun hf => by
    rw [World.handle?_of_isForeign hf rfl] at hh
    cases hh
  have htake := exec_takeOut hn .swept
  rw [World.takeOut_fst, hh] at htake
  rw [sweepOne, exec_bind_ok (exec_look _ w), Bool.eq_false_iff.mpr hf]
  simp only [Bool.false_eq_true, ite_false]
  rw [exec_bind_ok htake]
  simp only
  rw [exec_bind_ok (exec_closeBooks_eq t h _), exec_bind_ok (exec_attempt _ _), hx]
  cases o <;> rfl

variable (run) in
/-- One ticket of a batch: its handle goes. -/
theorem exec_sweepOne_plain (b : Batch) (t : Ticket) (hl : (w.collection s).listener.IsPlain)
    (hn : s ∉ w.entered) :
    ∃ b' w', (sweepOne run s b t).exec w = (.ok b', w') ∧ b'.failure = b.failure ∧
      w'.channels = w.channels ∧ Framed s [] w w' ∧
      ∀ t', t'.owner = s → w'.handle? t' = if t' = t then none else w.handle? t' := by
  have hgone (hh : t.owner = s → w.handle? t = none) (t' : Ticket) (ht' : t'.owner = s) :
      w.handle? t' = if t' = t then none else w.handle? t' := by
    split
    · subst_vars; exact hh rfl
    · rfl
  by_cases hf : w.isForeign s t
  · exact ⟨b, _, exec_sweepOne_foreign run hf b, rfl, rfl, .note rfl s w,
      hgone (World.handle?_of_isForeign hf)⟩
  · rcases hh : w.handle? t with _ | h
    · exact ⟨b, w, exec_sweepOne_stale run hf hn hh b, rfl, rfl, .refl s w, hgone fun _ => hh⟩
    · obtain rfl := owner_of_not_isForeign hf
      have he := World.takeOut_snd hh .swept
      have hce := (w.takeOut t .swept).2.close_eq t h
      have hf₁ := (Framed.takeOut w t .swept).trans (.close t.owner _ t h)
      have hl₁ : (((w.takeOut t .swept).2.close t h).collection t.owner).listener.IsPlain := by
        rwa [Collection.listener_eq (hf₁.mould t.owner)]
      obtain ⟨w₂, hrep, hf₂, hc₂, hh₂⟩ :=
        exec_report_eq run (r := (w.takeOut t .swept).2.recordOf t h) hl₁ hf₁
      refine ⟨_, _, exec_sweepOne_reap run hn hh hrep b, rfl, ?_, hf₂, fun t' _ => ?_⟩
      · rw [World.noteEnd, hc₂, hce, he]
        rfl
      · rw [World.noteEnd, hh₂, World.handle?_congr (w := (w.takeOut t .swept).2) (by rw [hce])]
        exact World.handle?_takeOut hh .swept t'

variable (run) in
/-- A batch of tickets: their handles go. -/
theorem exec_batch_plain (ts : List Ticket) (b : Batch) (hl : (w.collection s).listener.IsPlain)
    (hn : s ∉ w.entered) :
    ∃ b' w', (ts.foldlM (sweepOne run s) b).exec w = (.ok b', w') ∧ b'.failure = b.failure ∧
      w'.channels = w.channels ∧ Framed s [] w w' ∧
      ∀ t, t.owner = s → w'.handle? t = if t ∈ ts then none else w.handle? t := by
  induction ts generalizing b w with
  | nil => exact ⟨b, w, rfl, rfl, rfl, .refl s w, fun _ _ => rfl⟩
  | cons t ts ih =>
    obtain ⟨b₁, w₁, h₁, hb₁, hc₁, hf₁, hh₁⟩ := exec_sweepOne_plain run b t hl hn
    have hl₁ : (w₁.collection s).listener = (w.collection s).listener :=
      Collection.listener_eq (hf₁.mould s)
    obtain ⟨b₂, w₂, h₂, hb₂, hc₂, hf₂, hh₂⟩ := ih b₁ (hl₁ ▸ hl) (by rw [hf₁.rest]; exact hn)
    rw [List.foldlM_cons, exec_bind_ok h₁]
    refine ⟨b₂, w₂, h₂, hb₂.trans hb₁, hc₂.trans hc₁, hf₁.trans hf₂, fun t' ht' => ?_⟩
    rw [hh₂ t' ht', hh₁ t' ht']
    by_cases he : t' = t <;> by_cases hm : t' ∈ ts <;> simp [he, hm]

/-- A sweep that took handles out says how many. -/
def World.summed (w : World) (n : Nat) : World :=
  if 0 < n then w.note (.line (.swept n)) else w

section Summed

variable (w : World) (n : Nat)

@[simp] theorem World.sets_summed : (w.summed n).sets = w.sets := by
  unfold World.summed
  split <;> rfl

@[simp] theorem World.channels_summed : (w.summed n).channels = w.channels := by
  unfold World.summed
  split <;> rfl

@[simp] theorem World.entered_summed : (w.summed n).entered = w.entered := by
  unfold World.summed
  split <;> rfl

end Summed

theorem exec_closeBatch (b : Batch) (w : World) :
    (closeBatch b).exec w =
      (match b.failure with
        | none => .ok b.reclaimed
        | some p => .error p, w.summed b.reclaimed) := by
  unfold closeBatch World.summed
  by_cases hb : 0 < b.reclaimed <;> simp only [hb, ite_true, ite_false] <;> cases b.failure <;> rfl

/-- A batch without a panic. -/
theorem exec_closeBatch_calm {b : Batch} (hb : b.failure = none) (s : SetId) :
    ∃ w', (closeBatch b).exec w = (.ok b.reclaimed, w') ∧ w'.channels = w.channels ∧
      Framed s [] w w' ∧ ∀ t, w'.handle? t = w.handle? t := by
  rw [exec_closeBatch, hb, World.summed]
  by_cases hp : 0 < b.reclaimed
  · rw [if_pos hp]
    exact ⟨_, rfl, rfl, .note (x := .line (.swept b.reclaimed)) rfl s w, fun _ => rfl⟩
  · rw [if_neg hp]
    exact ⟨w, rfl, rfl, .refl s w, fun _ => rfl⟩

/-- The notices of a set are taken out of its channel. -/
theorem World.Framed.takeNotices (s s' : SetId) (w : World) :
    Framed s' [] w (w.takeNotices s).2 := by
  have he := w.takeNotices_eq s
  exact
    { rest := by rw [he]
      cells := by rw [he]
      sets := by rw [he]
      element e := by
        rw [he]
        rfl
      lent := by simp
      strong e := by
        rw [he]
        rfl
      mould s' := by
        rw [he]
        rfl
      live s' := by
        rw [he]
        rfl
      kinds c := by
        rw [World.kind?, World.takeNotices, World.getElem?_channels_drain, World.kind?]
        rcases w.channels[c]? with _ | ch
        · rfl
        · simp only [Option.map_some]
          split
          · unfold Channel.drain
            split <;> rfl
          · rfl
      pending c t ht := World.mem_of_mem_pending_drain ht
      journal x hx := by
        rw [he] at hx
        exact .inl hx
      handles t _ := by
        rw [he]
        rfl }

/-- The handle that a sweep of its set leaves under a ticket. -/
def World.left? (w : World) (t : Ticket) : Option Handle :=
  if t ∈ (w.takeNotices t.owner).1 then none else w.handle? t

/-- The channel of a set has nothing to deliver. -/
def World.Drained (w : World) (s : SetId) : Prop :=
  (w.takeNotices s).1 = []

theorem World.Drained.left? (h : w.Drained s) {t : Ticket} (ht : t.owner = s) :
    w.left? t = w.handle? t := by
  rw [World.left?, ht, h, if_neg List.not_mem_nil]

theorem World.takeNotices_fst (w : World) (s : SetId) :
    (w.takeNotices s).1 = ((w.channels[w.channelOf s]?).map fun ch => ch.drain.1).getD [] := by
  rw [World.takeNotices, World.drain, World.channelOf]
  cases w.channels[(w.collection s).channel]? <;> rfl

/-- What a set was delivered once it is not delivered again. -/
theorem World.drained_of_channels (hm : w'.channelOf s = w.channelOf s)
    (hc : w'.channels = (w.takeNotices s).2.channels) : w'.Drained s := by
  have hempty : ∀ ch : Channel, ch.drain.2.drain.1 = [] := fun ch => by
    by_cases hd : ch.delivers
    · have h' : Channel.delivers { ch with pending := [] } := hd
      simp [Channel.drain, hd, h']
    · simp [Channel.drain, hd]
  have hch : w'.channels[w'.channelOf s]? = (w.channels[w.channelOf s]?).map fun ch => ch.drain.2 := by
    rw [hm, hc, World.takeNotices, World.getElem?_channels_drain]
    exact congrArg (fun f => (w.channels[w.channelOf s]?).map f) (funext fun _ => if_pos rfl)
  rw [World.Drained, World.takeNotices_fst, hch]
  cases w.channels[w.channelOf s]? with
  | none => rfl
  | some ch => exact hempty ch

/-- Other sets are delivered what they were. -/
theorem World.takeNotices_fst_of_ne {s' : SetId} (hm : w'.channelOf s' = w.channelOf s')
    (hne : w.channelOf s' ≠ w.channelOf s) (hc : w'.channels = (w.takeNotices s).2.channels) :
    (w'.takeNotices s').1 = (w.takeNotices s').1 := by
  have hch : w'.channels[w'.channelOf s']? = w.channels[w.channelOf s']? := by
    rw [hm, hc, World.takeNotices, World.getElem?_channels_drain]
    refine Eq.trans ?_ Option.map_id'
    exact congrArg (fun f => (w.channels[w.channelOf s']?).map f) (funext fun _ => if_neg hne)
  rw [World.takeNotices_fst, World.takeNotices_fst, hch]

variable (run) in
/-- A sweep takes out the handles whose tickets the channel delivers. -/
theorem exec_sweep_plain (hl : (w.collection s).listener.IsPlain) (hn : s ∉ w.entered) :
    ∃ n w', (sweep run s).exec w = (.ok n, w') ∧ Framed s [] w w' ∧
      (∀ t, t.owner = s → w'.handle? t = w.left? t) ∧
      w'.channels = (w.takeNotices s).2.channels := by
  have hf₀ := Framed.takeNotices s s w
  have hh₀ : ∀ t, (w.takeNotices s).2.handle? t = w.handle? t :=
    World.handle?_congr (World.sets_takeNotices w s)
  have hl₀ : ((w.takeNotices s).2.collection s).listener = (w.collection s).listener :=
    Collection.listener_eq (hf₀.mould s)
  obtain ⟨b₁, w₁, h₁, hb₁, hc₁, hf₁, hh₁⟩ := exec_batch_plain run (w := (w.takeNotices s).2)
    (w.takeNotices s).1 {} (hl₀ ▸ hl) (by rw [hf₀.rest]; exact hn)
  obtain ⟨w₂, h₂, hc₂, hf₂, hh₂⟩ := exec_closeBatch_calm (w := w₁) hb₁ s
  refine ⟨b₁.reclaimed, w₂, ?_, (hf₀.trans hf₁).trans hf₂, fun t ht => ?_, hc₂.trans hc₁⟩
  · rw [sweep, exec_bind_ok (exec_update _ w), exec_bind_ok h₁, h₂]
  · rw [hh₂, hh₁ t ht, hh₀, World.left?, ht]

/-! ## Counting -/

theorem exec_count (hn : s ∉ w.entered) : (count s).exec w = (.ok (w.size s), w) := by
  have hloop : ∀ (ks : List Nat) (n : Nat),
      (ks.foldlM (fun n k => return n + (← guarded s (look fun w => (w.shard s k).size))) n).exec w =
        (.ok (n + (ks.map fun k => (w.shard s k).size).sum), w) := by
    intro ks
    induction ks with
    | nil => exact fun n => rfl
    | cons k ks ih =>
      intro n
      have hk : (guarded s (Act.look fun w => (w.shard s k).size)).exec w =
          (.ok (w.shard s k).size, w) := exec_guarded_lock hn rfl
      have hstep : (do return n + (← guarded s (Act.look fun w => (w.shard s k).size))).exec w =
          (.ok (n + (w.shard s k).size), w) := exec_bind_ok hk _
      rw [List.foldlM_cons, exec_bind_ok hstep, ih, List.map_cons, List.sum_cons, Nat.add_assoc]
  rw [World.size_eq_sum, ← Nat.zero_add (List.sum _)]
  exact (exec_bind_ok (exec_look _ w) _).trans (hloop _ 0)

/-! ## What is held of a set -/

/-- The elements that handles show, in their order. -/
def World.shown (w : World) (hs : List Handle) : List ElementId :=
  (hs.filter w.shows).map Handle.element

/-- The elements that the handles of a set show. -/
def World.sights (w : World) (s : SetId) : List ElementId :=
  w.shown ((w.ticketsOf s).map Prod.snd)

theorem World.isAlive_of_mem_shown {hs : List Handle} (he : e ∈ w.shown hs) : w.isAlive e := by
  obtain ⟨h, hm, rfl⟩ := List.mem_map.mp he
  exact World.isAlive_of_shows (List.mem_filter.mp hm).2

theorem World.shown_append (w : World) (hs hs' : List Handle) :
    w.shown (hs ++ hs') = w.shown hs ++ w.shown hs' := by
  simp [World.shown]

theorem World.shown_congr (h : ∀ x, w'.shows x = w.shows x) : w'.shown = w.shown := by
  funext hs
  rw [World.shown, World.shown, show w'.shows = w.shows from funext h]

theorem exec_reachAll_eq (xs : List (SlotKey × Handle)) (w : World) :
    (reachAll xs).exec w =
      (.ok (w.shown (xs.map Prod.snd), (xs.map Prod.snd).all w.shows),
        (w.shown (xs.map Prod.snd)).foldl World.acquire w) := by
  induction xs generalizing w with
  | nil => rfl
  | cons x xs ih =>
    obtain ⟨key, h⟩ := x
    have hreach := exec_reach_eq h w
    by_cases hs : w.shows h
    · have ha := World.isAlive_of_shows hs
      have hsame := World.shows_acquire ha
      have hshown : (w.acquire h.element).shown = w.shown :=
        World.shown_congr fun x => by rw [hsame]
      rw [if_pos hs] at hreach
      rw [reachAll, exec_bind_ok hreach]
      simp only
      rw [exec_bind_ok (ih _), hsame, hshown]
      simp [World.shown, hs, exec_pure]
    · rw [if_neg hs] at hreach
      rw [reachAll, exec_bind_ok hreach]
      simp only
      rw [exec_bind_ok (ih _)]
      simp [World.shown, hs, exec_pure]

variable (run) in
/-- What a list of shards shows. -/
theorem exec_reachableIn (ks : List Nat) (hn : s ∉ w.entered) (es : List ElementId) (complete : Bool) :
    ∃ w', (reachableIn run s es complete ks).exec w =
      (.ok (es ++ w.shown ((ks.flatMap (w.ticketsIn s)).map Prod.snd),
        complete && ((ks.flatMap (w.ticketsIn s)).map Prod.snd).all w.shows), w') ∧
      w.SameButCounts w' ∧ Framed s (w.shown ((ks.flatMap (w.ticketsIn s)).map Prod.snd)) w w' := by
  induction ks generalizing w es complete with
  | nil => exact ⟨w, by simp [reachableIn, World.shown, exec_pure], .refl w, .refl s w⟩
  | cons k ks ih =>
    have hmap : (w.ticketsIn s k).map Prod.snd = (w.shard s k).entries.map Prod.snd := by
      rw [World.ticketsIn, List.map_map]
      rfl
    obtain ⟨hs, hc⟩ := World.foldl_acquire (w.shown ((w.ticketsIn s k).map Prod.snd)) (w := w)
      fun e he => World.lt_size_of_strong (World.isAlive_iff.mp (World.isAlive_of_mem_shown he))
    have hf : Framed s (w.shown ((w.ticketsIn s k).map Prod.snd)) w _ :=
      .of_counts hs (fun _ => World.isAlive_of_mem_shown) hc
    have hstep : (guarded s do reachAll (← look (·.shard s k)).entries).exec w =
        (.ok (w.shown ((w.ticketsIn s k).map Prod.snd),
          ((w.ticketsIn s k).map Prod.snd).all w.shows),
          (w.shown ((w.ticketsIn s k).map Prod.snd)).foldl World.acquire w) := by
      refine exec_guarded_lock hn ((exec_bind_ok (exec_look _ _) _).trans ?_)
      rw [exec_reachAll_eq, hmap, ← World.foldl_acquire_lock]
      rfl
    generalize (w.shown ((w.ticketsIn s k).map Prod.snd)).foldl World.acquire w = w₁ at hs hc hf hstep
    have hsets : w₁.sets = w.sets := by rw [hs.rest]
    have htickets : w₁.ticketsIn s = w.ticketsIn s := by
      funext k
      rw [World.ticketsIn, World.ticketsIn, World.shard, World.collection_congr hsets]
      rfl
    have hshows : w₁.shows = w.shows := funext fun x => hf.shows x
    obtain ⟨w₂, hx, hs₂, hf₂⟩ := ih (w := w₁) (by rw [hs.rest]; exact hn)
      (es ++ w.shown ((w.ticketsIn s k).map Prod.snd))
      (complete && ((w.ticketsIn s k).map Prod.snd).all w.shows)
    rw [htickets, hshows, World.shown_congr hf.shows] at hx
    rw [htickets, World.shown_congr hf.shows] at hf₂
    refine ⟨w₂, ?_, hs.trans hs₂, ?_⟩
    · rw [reachableIn, exec_bind_ok (exec_attempt _ _), hstep]
      simp only
      rw [hx, List.flatMap_cons, List.map_append, World.shown_append, List.append_assoc,
        List.all_append, Bool.and_assoc]
    · rw [List.flatMap_cons, List.map_append, World.shown_append]
      exact hf.trans hf₂

variable (run) in
/-- All elements that the handles of a set show, and whether all handles show theirs. -/
theorem exec_reachable (hn : s ∉ w.entered) :
    ∃ w', (reachable run s).exec w =
      (.ok (w.sights s, ((w.ticketsOf s).map Prod.snd).all w.shows), w') ∧
      w.SameButCounts w' ∧ Framed s (w.sights s) w w' := by
  obtain ⟨w', hx, hs, hf⟩ := exec_reachableIn run (List.range (w.shardCount s)) hn [] true
  exact ⟨w', (exec_bind_ok (exec_look _ w) _).trans hx, hs, hf⟩

end

end WeakSet
