import WeakSet.Proofs.Notices
import WeakSet.Proofs.Visibility

/-!
# A sweep goes through its whole batch

A sweep goes through the tickets that its channel delivered in order, whatever they are and whatever its
listener does meanwhile (`Visits`). A ticket that is not one of the set is logged; one whose handle is
gone has no effect; the handle of any other is taken out and reported with a record that tells the truth
(`World.Attests`). A panic of the listener is logged and nothing else (`World.noteEnd`), and it
decides about the result of the sweep alone (`Policy.verdict`).

`exec_sweep_visits` is about every point of every run and every code of the client's. In particular the
listener may add, remove and sweep in the set that is swept: what each ticket comes to is decided when its
turn comes.
-/

namespace WeakSet

open Act Duties

namespace World

/-- What a record says of the handle of its ticket is true: its element was stored under the ticket, the
hash is what the set makes of it, and the record has the element if the set is weak and the element
alive. -/
def Attests (w : World) (r : Record) : Prop :=
  ∃ e, .stored r.ticket e ∈ w.journal.toList ∧
    r.hash = (w.collection r.ticket.owner).scheme.hash (w.value e) ∧
    r.last = if (w.collection r.ticket.owner).settings.kind = .weak ∧ w.isAlive e then some e else none

/-- A sweep takes a handle out, closes the books on it and calls the listener. -/
def reap (w : World) (t : Ticket) (h : Handle) : World :=
  ((w.takeOut t .swept).2.close t h).call (w.recordOf t h)

end World

/-- How a sweep of a set goes through a batch of tickets: the world before, the tickets, the records that
it reports, each with how the listener call ended, and the world after. -/
inductive Visits (run : Runner) (s : SetId) :
    World → List Ticket → List (Record × Except Panic Unit) → World → Prop where
  | done {w : World} : Visits run s w [] [] w
  /-- A ticket of another set, or of a shard that does not exist, is logged. -/
  | foreign {w w' : World} {t : Ticket} {ts : List Ticket} {rs : List (Record × Except Panic Unit)}
      (hf : w.isForeign s t) (h : Visits run s (w.note (.line (.foreign t))) ts rs w') :
      Visits run s w (t :: ts) rs w'
  /-- A ticket whose handle is gone has no effect. -/
  | stale {w w' : World} {t : Ticket} {ts : List Ticket} {rs : List (Record × Except Panic Unit)}
      (ho : t.owner = s) (hn : w.handle? t = none) (h : Visits run s w ts rs w') :
      Visits run s w (t :: ts) rs w'
  /-- A handle is taken out and reported, and then the listener does what it does. -/
  | reap {w v w' : World} {t : Ticket} {x : Handle} {o : Except Panic Unit} {ts : List Ticket}
      {rs : List (Record × Except Panic Unit)} (ho : t.owner = s) (hx : w.handle? t = some x)
      (hr : w.Attests (w.recordOf t x))
      (hl : (listen run s (w.collection s).calls).exec (w.reap t x) = (o, v))
      (h : Visits run s (v.noteEnd t o) ts rs w') :
      Visits run s w (t :: ts) ((w.recordOf t x, o) :: rs) w'

/-- The panic that something ended with. -/
def panic? : Except Panic Unit → Option Panic
  | .ok _ => none
  | .error p => some p

/-- What a sweep comes to whose listener calls ended so: the number of calls, or the first panic if the
policy has it out. -/
def Policy.verdict (policy : Policy) (os : List (Except Panic Unit)) : Except Panic Nat :=
  match policy, os.findSome? panic? with
  | .escalate, some p => .error p
  | _, _ => .ok os.length

/-- What a batch has come to after some more reports. -/
def Batch.reports (b : Batch) (policy : Policy) (rs : List (Record × Except Panic Unit)) : Batch :=
  rs.foldl (fun b r => b.reportEnded policy r.2) b

theorem Batch.reports_append (b : Batch) (policy : Policy) (rs rs' : List (Record × Except Panic Unit)) :
    b.reports policy (rs ++ rs') = (b.reports policy rs).reports policy rs' :=
  List.foldl_append

variable {run : Runner} {w w' v : World} {D : Duties} {s : SetId} {t t' : Ticket} {h : Handle}
  {ts : List Ticket} {rs : List (Record × Except Panic Unit)} {o : Except Panic Unit}

/-! ## One turn -/

namespace World

theorem shows_takeOut (w : World) (t : Ticket) (d : Departure) (h : Handle) :
    (w.takeOut t d).2.shows h = w.shows h := by
  rcases takeOut_cases w t d with ⟨-, e⟩ | ⟨x, -, e⟩
  · rw [e]
  · rw [e]
    rfl

theorem recordOf_takeOut (w : World) (t : Ticket) (d : Departure) (h : Handle) :
    (w.takeOut t d).2.recordOf t h = w.recordOf t h := by
  rw [recordOf, recordOf, shows_takeOut]

theorem handle?_reap (hh : w.handle? t = some h) (t' : Ticket) :
    (w.reap t h).handle? t' = if t' = t then none else w.handle? t' := by
  rw [reap, handle?_call, handle?_congr (w := (w.takeOut t .swept).2) (by rw [close_eq]),
    handle?_takeOut hh]

theorem journal_call (w : World) (r : Record) :
    (w.call r).journal = w.journal.push
      (.reported r.ticket r.hash (r.last.map w.face) (w.isNamed r.ticket.owner)) := rfl

/-- What the journal says of a handle that a sweep took out. -/
theorem journal_reap (hh : w.handle? t = some h) :
    (w.reap t h).journal.toList = w.journal.toList ++ [.departed t .swept,
      .line (.reclaimed t (!w.isAlive h.element)),
      .reported t h.hash ((w.recordOf t h).last.map w.face) (w.isNamed t.owner)] := by
  obtain ⟨u, hu⟩ : ∃ u, u = (w.takeOut t .swept).2 := ⟨_, rfl⟩
  have hface : (u.close t h).face = w.face := funext fun e => face_congr
    (((hu ▸ Framed.takeOut w t .swept).trans (.close t.owner u t h)).element e)
  have halive : u.isAlive h.element = w.isAlive h.element := by
    rw [hu, takeOut_snd hh]
    rfl
  have hnamed : (u.close t h).isNamed (w.recordOf t h).ticket.owner = w.isNamed t.owner := by
    rw [close_eq, hu, takeOut_snd hh]
    rfl
  have hj : (u.close t h).journal.toList = w.journal.toList ++ [.departed t .swept,
      .line (.reclaimed t (!w.isAlive h.element))] := by
    rw [close_eq, halive, hu, takeOut_snd hh]
    simp [note, setShard]
  rw [reap, journal_call, Array.toList_push, ← hu, hj, hface, hnamed, List.append_assoc]
  rfl

theorem reported_reap (hh : w.handle? t = some h) : t ∈ (w.reap t h).books.reported := by
  refine mem_reported.mpr ⟨h.hash, (w.recordOf t h).last.map w.face, w.isNamed t.owner, ?_⟩
  rw [journal_reap hh]
  simp

/-- A handle that is there is reported as it is. -/
theorem attests_recordOf (hw : w.Sane D) (hh : w.handle? t = some h) : w.Attests (w.recordOf t h) := by
  have hf := hw.formed.fits t h hh
  refine ⟨h.element, hw.recorded.stored t h hh, hf.hash, ?_⟩
  simp only [recordOf, shows, hf.kind, Bool.and_eq_true, decide_eq_true_eq]

theorem calls_reap (hh : w.handle? t = some h) (s : SetId) :
    (((w.takeOut t .swept).2.close t h).collection s).calls = (w.collection s).calls := by
  rw [collection_congr (w := (w.takeOut t .swept).2) (by rw [close_eq]),
    collection_congr (sets_takeOut hh .swept), collection_setShard (hasShard_of_handle? hh)]
  split
  · subst_vars
    rfl
  · rfl

end World

/-- What a sweep does with a handle up to the call of the listener. -/
theorem course_reap (hw : w.Point (.deal t ::ₘ D)) (hh : w.handle? t = some h) :
    Course .idle (w, .deal t ::ₘ D) (w.reap t h, D) := by
  have c₁ : Course .idle _ _ := .single (.reap (D := D) List.not_mem_nil hh)
  rw [Multiset.cons_swap] at c₁
  have c₂ := (leads_closeBooks (L := .idle) (E := 0) t h).ok (exec_closeBooks_eq t h _)
    (c₁.point hw) (.idle _)
  rw [World.recordOf_takeOut, Multiset.add_cons] at c₂
  have c : Course .idle _ _ := c₁.trans c₂
  exact c.tail (.call _ ((hw.formed.fits t h hh).mayTell (World.hasShard_of_handle? hh).1
    (c.later hw.sane) (exec_closeBooks_eq t h w)))

variable (run) in
/-- What a sweep does with a handle: the listener is called, and a panic is logged. -/
theorem exec_sweepOne_listen (hn : t.owner ∉ w.entered) (hh : w.handle? t = some h)
    (hl : (listen run t.owner (w.collection t.owner).calls).exec (w.reap t h) = (o, v)) (b : Batch) :
    (sweepOne run t.owner b t).exec w =
      (.ok (b.reportEnded ((v.noteEnd t o).collection t.owner).settings.policy o), v.noteEnd t o) := by
  refine exec_sweepOne_reap run hn hh ?_ b
  rw [World.recordOf_takeOut]
  refine (exec_report run (w.recordOf t h) _).trans ?_
  rw [World.calls_reap hh]
  exact hl

theorem course_noteEnd (L : Scene) (w : World) (D : Duties) (t : Ticket) (o : Except Panic Unit) :
    Course L (w, D) (w.noteEnd t o, D) := by
  cases o with
  | ok _ => exact .refl
  | error p => exact .single (.note rfl)

/-! ## A batch -/

variable (hr : run.Sound)

include hr

/-- The listener is called for a handle that a sweep took out, and its panic is logged. -/
theorem course_listen (hw : (w.reap t h).Point D)
    (hl : (listen run t.owner (w.collection t.owner).calls).exec (w.reap t h) = (o, v)) :
    Course .idle (w.reap t h, D) (v.noteEnd t o, D) := by
  have c : Course .idle (w.reap t h, D) (v, D) := by
    have := (balanced_listen hr (s := t.owner) (w.collection t.owner).calls).course hw (.idle _)
    rwa [hl] at this
  exact c.trans (course_noteEnd .idle v D t o)

/-- One ticket is dealt with, and its handle is gone. -/
theorem exists_turn (hs : s < w.sets.size) (hn : .leave s ∉ D)
    (hw : w.Point (deals s (t :: ts) + D)) (b : Batch) :
    ∃ rs₁ w₁, (sweepOne run s b t).exec w = (.ok (b.reports (w.collection s).settings.policy rs₁), w₁) ∧
      Course .idle (w, deals s (t :: ts) + D) (w₁, deals s ts + D) ∧
      (t.owner = s → w₁.Issued t ∧ w₁.handle? t = none) ∧
      (∀ r ∈ rs₁, r.1.ticket ∈ w₁.books.reported) ∧
      ∀ rs w', Visits run s w₁ ts rs w' → Visits run s w (t :: ts) (rs₁ ++ rs) w' := by
  have hent : s ∉ w.entered := by
    rw [hw.mem_entered]
    simp [hn]
  have hi (ho : t.owner = s) : w.Issued t :=
    (hw.warrants.dealt t (Multiset.mem_add.mpr (.inl (mem_deals.mpr ⟨by simp, ho⟩)))).issued
      hw.recorded hw.warrants
  by_cases hf : w.isForeign s t
  · refine ⟨[], _, exec_sweepOne_foreign run hf b, (course_foreign hf ts).tail (.note rfl),
      fun ho => ⟨hi ho, World.handle?_of_isForeign hf ho⟩, by simp, fun rs w' h => .foreign hf h⟩
  · obtain rfl := owner_of_not_isForeign hf
    rcases hh : w.handle? t with _ | x
    · refine ⟨[], w, exec_sweepOne_stale run hf hent hh b, ?_, fun _ => ⟨hi rfl, hh⟩,
        by simp, fun rs w' h => .stale rfl hh h⟩
      rw [deals_cons_own rfl, Multiset.cons_add]
      exact .single (.stale hh)
    · rw [deals_cons_own rfl, Multiset.cons_add] at hw ⊢
      rcases hl : (listen run t.owner (w.collection t.owner).calls).exec (w.reap t x) with ⟨o, v⟩
      have c₁ := course_reap hw hh
      have c₂ := course_listen hr (c₁.point hw) hl
      have hlater := c₂.later (c₁.point hw).sane
      have hpolicy : ((v.noteEnd t o).collection t.owner).settings = (w.collection t.owner).settings :=
        ((c₁.later hw.sane).trans hlater).settings hs
      refine ⟨[(w.recordOf t x, o)], v.noteEnd t o, ?_, c₁.trans c₂, fun _ => ?_, ?_,
        fun rs w' h => .reap rfl hh (World.attests_recordOf hw.sane hh) hl h⟩
      · rw [exec_sweepOne_listen run hent hh hl b, hpolicy]
        rfl
      · have hi' : (w.reap t x).Issued t := (c₁.later hw.sane).issued t (hi rfl)
        exact ⟨hlater.issued t hi', hlater.gone t hi' (by rw [World.handle?_reap hh, if_pos rfl])⟩
      · intro r hm
        obtain rfl := List.mem_singleton.mp hm
        exact hlater.mem_reported (World.reported_reap hh)

/-- A batch is gone through to its end, and leaves no handle of its tickets. -/
theorem exists_visits (hs : s < w.sets.size) (hn : .leave s ∉ D) (hw : w.Point (deals s ts + D))
    (b : Batch) :
    ∃ rs w', Visits run s w ts rs w' ∧ (ts.foldlM (sweepOne run s) b).exec w =
        (.ok (b.reports (w.collection s).settings.policy rs), w') ∧
      Course .idle (w, deals s ts + D) (w', D) ∧ (∀ t ∈ ts, t.owner = s → w'.handle? t = none) ∧
      ∀ r ∈ rs, r.1.ticket ∈ w'.books.reported := by
  induction ts generalizing w b with
  | nil => exact ⟨[], w, .done, rfl, by simpa using Relation.ReflTransGen.refl, by simp, by simp⟩
  | cons t ts ih =>
    obtain ⟨rs₁, w₁, h₁, c₁, hgone, hreported, hvisits⟩ := exists_turn hr hs hn hw b
    have hl := c₁.later hw.sane
    obtain ⟨rs, w', hv, h₂, c₂, hrest, hmore⟩ := ih (hs.trans_le hl.sets) (c₁.point hw)
      (b.reports (w.collection s).settings.policy rs₁)
    have hl₂ := c₂.later (c₁.point hw).sane
    refine ⟨rs₁ ++ rs, w', hvisits rs w' hv, ?_, c₁.trans c₂, ?_, fun r hm => ?_⟩
    · rw [List.foldlM_cons, exec_bind_ok h₁, h₂, hl.settings hs, Batch.reports_append]
    · intro t' ht' ho
      rcases List.mem_cons.mp ht' with rfl | ht'
      · obtain ⟨hi, hn⟩ := hgone ho
        exact hl₂.gone _ hi hn
      · exact hrest t' ht' ho
    · exact (List.mem_append.mp hm).elim (fun h => hl₂.mem_reported (hreported r h)) (hmore r)

omit hr

/-! ## What a sweep comes to -/

theorem Batch.reports_eq (b : Batch) (policy : Policy) (rs : List (Record × Except Panic Unit)) :
    b.reports policy rs = ⟨b.reclaimed + rs.length, b.failure <|>
      if policy = .escalate then rs.findSome? fun r => panic? r.2 else none⟩ := by
  induction rs generalizing b with
  | nil => simp [reports]
  | cons r rs ih =>
    rw [show b.reports policy (r :: rs) = (b.reportEnded policy r.2).reports policy rs from rfl, ih,
      List.findSome?_cons, List.length_cons]
    rcases r with ⟨r, p | _⟩ <;> cases policy <;> cases b with | mk n f => cases f <;>
      simp [reportEnded, panic?, Nat.add_assoc, Nat.add_comm 1]

theorem verdict_eq (policy : Policy) (rs : List (Record × Except Panic Unit)) :
    policy.verdict (rs.map Prod.snd) =
      match (if policy = .escalate then rs.findSome? fun r => panic? r.2 else none) with
      | none => .ok rs.length
      | some p => .error p := by
  have hmap : (rs.map Prod.snd).findSome? panic? = rs.findSome? fun r => panic? r.2 :=
    List.findSome?_map ..
  rw [Policy.verdict.eq_def, hmap, List.length_map]
  cases policy <;> cases rs.findSome? fun r => panic? r.2 <;> rfl

include hr

/-- A sweep goes through what its channel delivers, says how many handles it took out, and comes to what
the policy of the set makes of the listener calls. No handle of its batch is left, and each that it took
out was reported once. -/
theorem exec_sweep_visits (hw : w.Point D) (hs : s < w.sets.size) (hn : s ∉ w.entered) :
    ∃ rs w', Visits run s (w.takeNotices s).2 (w.takeNotices s).1 rs w' ∧
      (sweep run s).exec w =
        ((w.collection s).settings.policy.verdict (rs.map Prod.snd), w'.summed rs.length) ∧
      Course .idle (w, D) (w', D) ∧
      (∀ t ∈ (w.takeNotices s).1, t.owner = s → w'.handle? t = none) ∧
      ∀ r ∈ rs, w'.books.reported.count r.1.ticket = 1 := by
  have hm : Course .idle (w, D) ((w.takeNotices s).2, deals s (w.takeNotices s).1 + D) :=
    .single (.takeNotices hs)
  have hl := hm.later hw.sane
  obtain ⟨rs, w', hv, hx, hc, hgone, hreported⟩ := exists_visits hr (hs.trans_le hl.sets)
    (fun h => hn (hw.mem_entered.mpr h)) (hm.point hw) {}
  refine ⟨rs, w', hv, ?_, hm.trans hc, hgone, fun r hr => ?_⟩
  · rw [sweep, exec_bind_ok (exec_update _ w), exec_bind_ok hx, exec_closeBatch, hl.settings hs,
      Batch.reports_eq, verdict_eq]
    simp only [Nat.zero_add]
    rfl
  · exact (Course.point hc (hm.point hw)).kept.count_reported (hreported r hr)

omit hr in
@[simp] theorem World.books_summed (w : World) (n : Nat) : (w.summed n).books = w.books := by
  unfold World.summed
  split <;> simp [Books.enter]

/-- What ended is accounted for. If a set was never disturbed and its channel delivers, then a handle whose
element ended before a sweep of the set was, when that is over, either reported, once, or taken out in
another way. -/
theorem accounted_of_sweep (hw : w.Point D) (hs : s < w.sets.size) (hn : s ∉ w.entered)
    (hlive : w.isLive s) (hu : w.Undisturbed s) (hd : w.delivers (w.channelOf s)) (ho : t.owner = s)
    (hst : t ∈ w.books.stored) (he : ∀ h, w.handle? t = some h → ¬ w.isAlive h.element)
    (hdeal : .deal t ∉ D) (hrep : .report t ∉ D) :
    let w' := ((sweep run s).exec w).2
    w'.books.removed.count t + w'.books.reported.count t = 1 := by
  obtain ⟨rs, v, -, hx, c, hgone, -⟩ := exec_sweep_visits hr hw hs hn
  have hv := c.point hw
  have hl := c.later hw.sane
  have hnone : v.handle? t = none := by
    rcases hh : w.handle? t with _ | h
    · obtain ⟨e, hm⟩ := World.mem_stored.mp hst
      exact hl.gone t (hw.recorded.issued t e hm).1 hh
    · have ht := (hw.covered t h hh (ho ▸ hlive) (ho ▸ hu)).resolve_left fun ha => he h hh ha.1
      have hp := ht.2.resolve_right hdeal
      rw [ho] at hp
      exact hgone t (World.mem_drain_of_delivers hd hp) ho
  simp only [hx, World.books_summed]
  exact hv.kept.accounted (hl.mem_stored hst) hnone hrep

end WeakSet
