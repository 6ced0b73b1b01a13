import WeakSet.Proofs.Comparing
import WeakSet.Proofs.Filtering
import WeakSet.Proofs.Listing
import WeakSet.Proofs.Replies

/-!
# What operations of a set answer

The reply to an operation of a set follows from what the dictionary of the set was
(`Registry.Becomes`, `Registry.Inserts`), and a client has to know of nothing else that it did.
-/

namespace WeakSet

open Act Duties World Session

variable {run : Runner} {w w' : World} {D : Duties} {s : SetId} {name : String}
  {es : List ElementId} {P : Reply → Registry → Prop}

/-! ## Operations of a set -/

section Operations

variable {α : Type} {act : Act α} {x : α} {m : Dict} {b : Bool}

/-- The reply to an operation of a set. -/
theorem Does.answers (hd : Does s act w D x w') (h : w.Steady D) (f : α → Reply)
    (hP : P (f x) (w.registry.update s (w'.dict s))) : Answers (f <$> act) w D P :=
  ⟨f x, w', (hd.map f).exec, hd.steady, by rwa [hd.registry h]⟩

/-- The reply to an operation that leaves its set as it is. -/
theorem Does.answers_same (hd : Does s act w D x w') (h : w.Steady D) (hm : w'.dict s = w.dict s)
    (f : α → Reply) (hP : P (f x) w.registry) : Answers (f <$> act) w D P :=
  ⟨f x, w', (hd.map f).exec, hd.steady, by rwa [hd.registry_same h hm]⟩

/-- An operation says whether it changed its set. -/
theorem Makes.answers {act : Act Bool} (hm : Makes s act w D m) (h : w.Steady D) :
    Answers (.flag <$> act) w D fun a g => w.registry.Becomes a g s m := by
  obtain ⟨b, w', hd, rfl, hb⟩ := hm
  exact hd.answers h _ ⟨rfl, b, rfl, hb⟩

theorem World.Steady.isLive_of_name (h : w.Steady D) (hn : w.registry.sets.find? name = some s) :
    w.isLive s :=
  h.quiet.named _ (Table.mem_of_find? hn)

variable (hr : run.Sound) (h : w.Steady D) (hl : w.isLive s)

include hr h hl

theorem answers_contains (q : Query) : Answers (.flag <$> contains run s q) w D fun a g =>
    g = w.registry ∧ Registry.Says a (w.registry.dict s (q.target w)).isSome := by
  obtain ⟨w', hd, hm⟩ := does_contains hr h (lt_size_of_isLive hl) q
  exact hd.answers_same h hm _ ⟨rfl, _, rfl, Iff.rfl⟩

theorem answers_containsAll (qs : List Query) :
    Answers (.flag <$> containsAll run s qs) w D fun a g => g = w.registry ∧
      Registry.Says a (qs.map (·.target w) ≠ [] ∧
        ∀ v ∈ qs.map (·.target w), (w.registry.dict s v).isSome) := by
  obtain ⟨b, w', hd, hm, hb⟩ := does_containsAll hr h (lt_size_of_isLive hl) qs
  refine hd.answers_same h hm _ ⟨rfl, b, rfl, hb.trans ?_⟩
  simp [World.registry]

theorem answers_remove (q : Query) : Answers (.flag <$> remove run s q) w D fun a g =>
    w.registry.Becomes a g s ((w.registry.dict s).filter fun v _ => v ≠ q.target w) :=
  (makes_remove hr h (lt_size_of_isLive hl) q).answers h

theorem answers_removeAll (qs : List Query) :
    Answers (.flag <$> removeAll run s qs) w D fun a g =>
      w.registry.Becomes a g s ((w.registry.dict s).filter fun v _ => v ∉ qs.map (·.target w)) :=
  (makes_removeAll hr h (lt_size_of_isLive hl) qs).answers h

theorem answers_retainAll (qs : List Query) :
    Answers (.flag <$> retainAll run s qs) w D fun a g =>
      if qs.map (·.target w) = [] then a = .flag false ∧ g = w.registry
      else w.registry.Becomes a g s
        ((w.registry.dict s).filter fun v _ => v ∈ qs.map (·.target w)) := by
  rcases qs with _ | ⟨q, qs⟩
  · obtain ⟨w', hd, hm⟩ := does_retainAll_nil hr h (lt_size_of_isLive hl)
    exact hd.answers_same h hm _ ⟨rfl, rfl⟩
  · simp only [List.map_eq_nil_iff, reduceCtorEq, ite_false]
    exact (makes_retainAll hr h (lt_size_of_isLive hl) (by simp)).answers h

theorem answers_retain (keep : Face → Bool) :
    Answers (.flag <$> retain run s (predicate run s keep [])) w D fun a g =>
      w.registry.Becomes a g s ((w.registry.dict s).filter fun _ e => keep (w.registry.face e)) :=
  (makes_retain hr h (lt_size_of_isLive hl) (decides_predicate run s keep w)
    fun e _ _ => balanced_predicate hr keep [] e).answers h

omit hr hl in
theorem answers_clear : Answers (do clear s; return .done) w D fun a g =>
    a = .done ∧ g = w.registry.update s Dict.empty := by
  obtain ⟨w', hd, hm⟩ := does_clear (s := s) h
  exact ⟨.done, w', exec_bind_ok hd.exec _, hd.steady, rfl, by rw [hd.registry h, hm]⟩

theorem answers_length : Answers (.number <$> length run s) w D fun a g =>
    g = w.registry ∧ ∃ vs, (w.registry.dict s).Lists vs ∧ a = .number vs.length := by
  obtain ⟨n, w', hd, hm, vs, hvs, rfl⟩ := does_length hr h (lt_size_of_isLive hl) hl
  exact hd.answers_same h hm _ ⟨rfl, vs, hvs, rfl⟩

theorem answers_isEmpty : Answers (do return .flag ((← length run s) = 0)) w D fun a g =>
    g = w.registry ∧ Registry.Says a (w.registry.dict s = Dict.empty) := by
  obtain ⟨n, w', hd, hm, vs, hvs, rfl⟩ := does_length hr h (lt_size_of_isLive hl) hl
  refine ⟨_, w', exec_bind_ok hd.exec _, hd.steady, hd.registry_same h hm, _, rfl, ?_⟩
  rw [decide_eq_true_eq, List.length_eq_zero_iff]
  exact hvs.eq_nil_iff

theorem answers_sweep : Answers (.number <$> sweep run s) w D fun a g =>
    g = w.registry ∧ ∃ n, a = .number n := by
  obtain ⟨n, w', hd, hm, -⟩ := does_sweep hr h (lt_size_of_isLive hl)
  exact hd.answers_same h hm _ ⟨rfl, n, rfl⟩

end Operations

/-! ## Elements that come in -/

section Insertions

variable {e : ElementId}

/-- A ticket is saved. -/
theorem exec_save (h : w.Steady D) (saveAs : Option String) {t : Ticket} (ht : w.Issued t) :
    ∃ w', (save saveAs t).exec w = (.ok (), w') ∧ w'.Steady D ∧ w'.registry = w.registry := by
  cases saveAs with
  | none => exact ⟨w, rfl, h, rfl⟩
  | some name =>
    refine ⟨_, rfl, h.label h.sane.formed.named.channels fun x hx => ?_, rfl⟩
    rcases Table.mem_put hx with rfl | hx
    · exact ht
    · exact h.sane.formed.named.tickets x hx

/-- The reply to an operation that comes to a ticket, or to none. -/
theorem answers_ticket {act : Act (Option Ticket)} {t? : Option Ticket} {r : Reply}
    (saveAs : Option String) (hx : act.exec w = (.ok t?, w')) (h : w'.Steady D)
    (ht : ∀ t, t? = some t → w'.Issued t) (hP : P (t?.elim r .ticket) w'.registry) :
    Answers (do
      match ← act with
      | none => return r
      | some t =>
        save saveAs t
        return .ticket t) w D P := by
  refine .after hx ?_
  cases t? with
  | none => exact answers_pure h hP
  | some t =>
    obtain ⟨w'', hx', h', hr⟩ := exec_save h saveAs (ht t rfl)
    exact .after hx' (answers_pure h' (by rwa [hr]))

/-- A set that has a name is used by it. -/
theorem World.Steady.serves_of_name (h : w.Steady D)
    (hn : w.registry.sets.find? name = some s) : w.Serves (some name, s) :=
  ⟨h.isLive_of_name hn, hn⟩

/-- A ticket that was not given out is new. -/
theorem World.Quiet.isNewTicket (hq : w.Quiet) {t : Ticket} (ht : ¬ w.Issued t) :
    w.registry.IsNewTicket t := by
  intro s v e hm
  obtain ⟨x, hx, -⟩ := (hq.dict_eq_some.mp hm).handle
  exact ht (issued_of_handle? hx)

/-- What an insertion comes to. -/
theorem does_insert_registry (hr : run.Sound) (h : w.Steady D) (hv : w.Serves (some name, s))
    (he : .hold e ∈ D) (yes : Ticket → Reply) (no : Reply) :
    ∃ t? w', Does s (insert run s e) w D t? w' ∧
      w.registry.Inserts (t?.elim no yes) w'.registry s e yes no := by
  obtain ⟨t?, w', hd, hm, ht⟩ := does_insert hr h hv he
  refine ⟨t?, w', hd, ?_⟩
  have hreg := hd.registry h
  unfold Dict.Inserts at hm
  have hdict : w.registry.dict s (w.registry.value e) = w.dict s (w.value e) := rfl
  rw [Registry.Inserts, hdict]
  rcases hx : w.dict s (w.value e) with _ | x <;> simp only [hx] at hm ⊢
  · obtain ⟨t, rfl, hm⟩ := hm
    exact ⟨t, h.quiet.isNewTicket (ht t rfl), rfl, by rw [hreg, hm]; rfl⟩
  · obtain ⟨rfl, hm⟩ := hm
    exact ⟨rfl, hd.registry_same h hm⟩

variable (hr : run.Sound) (h : w.Steady D) (hv : w.Serves (some name, s))

include hr h hv

theorem answers_insert (he : .hold e ∈ D) (saveAs : Option String) :
    Answers (do
      match ← insert run s e with
      | none => return .fault .duplicate
      | some t =>
        save saveAs t
        return .ticket t) w D fun a g => w.registry.Inserts a g s e .ticket (.fault .duplicate) := by
  obtain ⟨t?, w', hd, hi⟩ := does_insert_registry hr h hv he .ticket (.fault .duplicate)
  refine answers_ticket saveAs hd.exec hd.steady (fun t ht => ?_) hi
  have hx := hd.exec
  rw [ht] at hx
  exact (hd.steady.point.recorded.issued t e (stored_of_insert hr h.point ((Scene.On.idle w).use hv)
    (Scene.idle.uses_use (some name) s) he hx).2.2).1

theorem answers_add (he : .hold e ∈ D) :
    Answers (.flag <$> add run s e) w D fun a g =>
      w.registry.Inserts a g s e (fun _ => .flag true) (.flag false) := by
  obtain ⟨t?, w', hd, hi⟩ := does_insert_registry hr h hv he (fun _ => .flag true) (.flag false)
  refine ⟨_, w', ((hd.map Option.isSome).map Reply.flag).exec, hd.steady, ?_⟩
  cases t? <;> exact hi

theorem answers_addAll (he : ∀ e ∈ es, .hold e ∈ D) :
    Answers (.flag <$> addAll run s es) w D fun a g =>
      ∃ m, (w.registry.dict s).Extends w.registry.value es m ∧ w.registry.Becomes a g s m := by
  obtain ⟨m, hx, hm⟩ := makes_addAll hr h hv he
  exact (hm.answers h).mono fun _ _ hb => ⟨m, hx, hb⟩

theorem answers_ticketOf (q : Query) (saveAs : Option String) :
    Answers (do
      match ← ticketOf run s q with
      | none => return .noTicket
      | some t =>
        save saveAs t
        return .ticket t) w D fun a g => g = w.registry ∧
          a = match w.registry.dict s (q.target w) with
            | none => .noTicket
            | some x => .ticket x.2 := by
  obtain ⟨w', hd, hm⟩ := does_ticketOf hr h (lt_size_of_isLive hv.isLive) q
  refine answers_ticket saveAs hd.exec hd.steady (fun t ht => ?_) ⟨hd.registry_same h hm, ?_⟩
  · exact issued_of_ticketOf hr h.point (lt_size_of_isLive hv.isLive) (ht ▸ hd.exec)
  show _ = match w.dict s (q.target w) with
    | none => Reply.noTicket
    | some x => .ticket x.2
  cases w.dict s (q.target w) <;> rfl

end Insertions

/-! ## Elements that are looked at -/

section Looking

variable {α : Type} {act : Act α} {x : α} {e : ElementId}

/-- Looking for elements changes nothing that a client has to know. -/
theorem Finds.registry (hx : Finds s act w D x es w') (h : w.Steady D) :
    w'.registry = w.registry :=
  hx.framed.registry_same h.quiet hx.steady.quiet hx.trims

/-- What was found is let go of, and no element ends. -/
theorem World.Framed.letGo (run : Runner) (hf : Framed s es w w') (h : w'.Steady (holds es + D)) :
    ∃ w'', (releaseAll run es).exec w' = (.ok (), w'') ∧ w''.Steady D ∧
      w''.registry = w'.registry := by
  obtain ⟨w₁, hx₁, hf₁, hc⟩ := hf.giveBack run
  obtain ⟨w₂, hx₂, hs₂, -⟩ := h.exec_releaseAll run
  obtain rfl : w₁ = w₂ := (Prod.mk.injEq .. ▸ hx₁.symm.trans hx₂).2
  exact ⟨w₁, hx₁, hs₂, hc.registry h.quiet hs₂.quiet fun e =>
    (hf₁.isAlive e).trans (hf.isAlive e).symm⟩

/-- Elements that were found are shown, in some order. -/
theorem exec_showElements (run : Runner) (s' : SetId) (hf : Framed s es w w')
    (h : w'.Steady (holds es + D)) :
    ∃ fs w'', (showElements run s' es).exec w' = (.ok (.elements fs), w'') ∧ w''.Steady D ∧
      w''.registry = w'.registry ∧ fs.Perm (es.map w.face) := by
  obtain ⟨w'', hx, hs, hr⟩ := hf.letGo run h
  have hface : w'.face = w.face := funext fun e => face_congr (hf.element e)
  refine ⟨if (w'.collection s').isUnordered then (es.map w'.face).mergeSort Face.le
    else es.map w'.face, w'', ?_, hs, hr, ?_⟩
  · rw [showElements, holding, exec_bind_ok (exec_attempt _ _), exec_look, exec_bind_ok hx]
    rfl
  · rw [hface]
    split
    · exact List.mergeSort_perm _ _
    · exact .refl _

theorem Dict.Lists.perm {m : Dict} {vs vs' : List Value} (h : m.Lists vs) (hp : vs'.Perm vs) :
    m.Lists vs' :=
  ⟨hp.nodup_iff.mpr h.1, fun v => hp.mem_iff.trans (h.2 v)⟩

/-- Entries of a set are shown as such. -/
theorem lists_of_perm {fs : List Face} (hp : fs.Perm (es.map w.face))
    (hd : ∀ e ∈ es, ∃ t, w.dict s (w.value e) = some (e, t)) :
    w.registry.Lists (.elements fs) s fs := by
  refine ⟨rfl, fun f hf => ?_⟩
  obtain ⟨e, he, rfl⟩ := List.mem_map.mp (hp.mem_iff.mp hf)
  obtain ⟨t, ht⟩ := hd e he
  exact ⟨e, t, ht, rfl⟩

theorem answers_toList (hr : run.Sound) (h : w.Steady D) (hl : w.isLive s) :
    Answers (do showElements run s (← toList run s)) w D fun a g => g = w.registry ∧
      ∃ fs, w.registry.Lists a s fs ∧ (w.registry.dict s).Lists (fs.map Face.value) := by
  obtain ⟨es, w₁, hx, hf, h₁, hm, hes, hd⟩ := exec_toList hr h (lt_size_of_isLive hl) hl
  obtain ⟨fs, w₂, hx₂, h₂, hreg, hp⟩ := exec_showElements run s hf h₁
  refine .after hx ⟨_, w₂, hx₂, h₂, ?_, fs, lists_of_perm hp hd, ?_⟩
  · rw [hreg, hf.registry h.quiet h₁.quiet hm]
    exact w.registry.update_dict s
  · refine hes.perm ?_
    have := hp.map Face.value
    rwa [List.map_map] at this

end Looking

/-! ## Cursors -/

section Cursors

variable {e : ElementId} {cursor : String}

/-- While a cursor makes a step nobody has it, and it is put back in any case. -/
theorem Registry.aim_erase (r : Registry) (cursor : String) (s : SetId) (t? : Option Ticket) :
    Registry.aim { r with cursors := r.cursors.erase cursor } cursor s t? = r.aim cursor s t? :=
  Registry.ext rfl rfl (Table.put_erase ..) rfl rfl

/-- A cursor makes a step and is put back when the reply is known. -/
theorem answers_withCursor {α : Type} {step : Cursor → Act (Cursor.Step α)}
    {body : Cursor → α → Act Reply} {P : SetId → Option Ticket → Reply → Registry → Prop}
    (h : w.Steady D)
    (hstep : ∀ c w₁, w₁.Steady D →
      w₁.registry = { w.registry with cursors := w.registry.cursors.erase cursor } →
      c.set < w₁.sets.size →
      ∃ x w₂, (step c).exec w₁ = (.ok x, w₂) ∧ x.cursor.set = c.set ∧
        Answers (do body x.cursor (← settle x.outcome)) w₂ D fun a g => g.sets = w.setNames ∧
          P c.set c.last? a (g.aim cursor c.set x.cursor.last?)) :
    Answers (withCursor cursor step body) w D fun a g =>
      w.registry.WithCursor a g cursor fun s t? => P s t? a g := by
  have hfind := w.find?_cursors_registry cursor
  refine .get ?_
  rcases hc : w.cursors.find? cursor with _ | c <;> rw [hc] at hfind
  · exact answers_refuse h (.of_none hfind ⟨rfl, rfl⟩)
  · have hnamed : w.isNamed c.set := h.quiet.held _ (Table.mem_of_find? hc)
    obtain ⟨x, w₂, hx₂, hset, r, w₃, hx₃, h₃, hnames, hp⟩ := hstep c (w.takeCursor cursor c)
      (h.takeCursor cursor c) (w.registry_eraseCursor cursor _)
      (h.sane.formed.named.cursors _ (Table.mem_of_find? hc)).set
    have hnames : w₃.setNames = w.setNames := hnames
    obtain ⟨h₄, hreg⟩ := h₃.returnCursor cursor (c := x.cursor) (by rwa [hset, isNamed, hnames])
    refine ⟨r, _, ?_, h₄, .of_some hfind (by rwa [hreg, hset])⟩
    simp only
    rw [exec_bind_ok (exec_change _ _), exec_bind_ok hx₂, exec_bind_ok (exec_attempt _ _), hx₃,
      exec_bind_ok (exec_change _ _), exec_settle]

/-- One element that was found is let go of. -/
theorem World.Framed.letGoOne (run : Runner) (hf : Framed s [e] w w')
    (h : w'.Steady (holds [e] + D)) :
    ∃ w'', (Act.release run e).exec w' = (.ok (), w'') ∧ w''.Steady D ∧
      w''.registry = w'.registry := by
  obtain ⟨w'', hx, hs, hr⟩ := hf.letGo run h
  obtain ⟨_, w₁, hx₁, hx⟩ := exec_bind_eq_ok.mp hx
  obtain ⟨-, rfl⟩ := exec_pure_eq_ok.mp hx
  exact ⟨w₁, hx₁, hs, hr⟩

/-- An element that a cursor came to is shown, and may get an owner. -/
theorem answers_showNext (run : Runner) (s' : SetId) (keep : Option String)
    (hf : Framed s [e] w w') (h : w'.Steady (holds [e] + D)) :
    Answers (showNext run keep s' e) w' D fun a g => w'.registry.Shows a g e keep := by
  obtain ⟨w'', hx, hs, hr⟩ := hf.letGoOne run h
  refine .after (exec_look _ w') ?_
  have hshown : ∀ b : Bool, (if b then Reply.someElement else .element (w'.face e)) =
        .element (w'.registry.face e) ∨
      (if b then Reply.someElement else .element (w'.face e)) = .someElement := by
    rintro (_ | _)
    · exact .inl rfl
    · exact .inr rfl
  cases keep with
  | none => exact .after hx (answers_pure hs ⟨hshown _, hr⟩)
  | some name =>
    rcases hn : w'.owners.find? name with _ | e'
    · have hown : (ownAs name e).exec w' =
          (.ok true, { w' with owners := w'.owners.put name e }) := by
        rw [ownAs, exec_update, hn]
      rw [holds_cons, holds_nil, Multiset.cons_add, Multiset.zero_add] at h
      refine .after hown (answers_pure (h.own hn) ?_)
      rw [Registry.Shows, show w'.registry.owners.find? name = none from hn]
      exact ⟨hshown _, rfl⟩
    · have hown : (ownAs name e).exec w' = (.ok false, w') := by
        rw [ownAs, exec_update, hn]
      refine .after hown (.after hx (answers_refuse hs ?_))
      rw [Registry.Shows, show w'.registry.owners.find? name = some e' from hn]
      exact ⟨rfl, hr⟩

theorem Registry.Shows.sets {r g : Registry} {a : Reply} {keep : Option String}
    (h : r.Shows a g e keep) : g.sets = r.sets := by
  cases keep with
  | none => rw [h.2]
  | some name =>
    rw [Registry.Shows] at h
    split at h <;> rw [h.2]

/-- What was shown while nobody had the cursor. -/
theorem Registry.Shows.aim {r g : Registry} {a : Reply} {keep : Option String}
    (h : Registry.Shows { r with cursors := r.cursors.erase cursor } a g e keep) (s : SetId)
    (t? : Option Ticket) : (r.aim cursor s t?).Shows a (g.aim cursor s t?) e keep := by
  cases keep with
  | none => exact ⟨h.1, by rw [h.2, Registry.aim_erase]⟩
  | some name =>
    rw [Registry.Shows] at h
    split at h
    · rename_i hn
      exact (if_pos hn).mpr ⟨h.1, by rw [h.2, Registry.aim_erase]⟩
    · rename_i hn
      refine (if_neg hn).mpr ⟨h.1, ?_⟩
      rw [h.2]
      exact Registry.aim_erase { r with owners := r.owners.put name e } cursor s t?

/-- A cursor goes to the next element. -/
theorem answers_next (hr : run.Sound) (h : w.Steady D) (keep : Option String) (atEnd : Reply) :
    Answers (withCursor cursor (·.next run) fun c e? =>
      match e? with
      | none => return atEnd
      | some e => showNext run keep c.set e) w D fun a g =>
        w.registry.Advances a g cursor keep atEnd := by
  refine answers_withCursor h fun c w₁ h₁ hreg hs => ?_
  obtain ⟨x, e?, w₂, hx, ho, hnone, hsome⟩ := Cursor.findsNext_next hr h₁ c hs
  have hreg₂ := (hx.registry h₁).trans hreg
  refine ⟨x, w₂, hx.exec, Cursor.yields_next c _ _ _ hx.exec, ?_⟩
  rw [ho]
  cases e? with
  | none =>
    refine answers_pure (by simpa using hx.steady) ⟨by rw [hreg₂]; rfl, .inl ⟨rfl, ?_⟩⟩
    rw [hnone rfl, hreg₂, Registry.aim_erase]
  | some e =>
    obtain ⟨v, t, hlast, hm⟩ := hsome e rfl
    rw [show w₁.dict = w.dict from congrArg Registry.dict hreg] at hm
    refine (answers_showNext run x.cursor.set keep hx.framed hx.steady).mono fun a g hg => ?_
    rw [hreg₂] at hg
    rw [hlast]
    exact ⟨hg.sets, .inr ⟨v, e, t, hm, hg.aim c.set (some t)⟩⟩

theorem answers_removeCurrent (h : w.Steady D) :
    Answers (withCursor cursor (·.removeCurrent) fun _ b => return .flag b) w D fun a g =>
      w.registry.Discards a g cursor := by
  refine answers_withCursor h fun c w₁ h₁ hreg hs => ?_
  obtain ⟨x, b, w₂, hx, ho, hd, hchanged, hthere⟩ := Cursor.does_removeCurrent h₁ c hs
  have hdict : w₁.dict = w.dict := congrArg Registry.dict hreg
  have hset : x.cursor = _ := Cursor.yields_removeCurrent c _ _ _ hx.exec
  have hreg₂ := hx.registry h₁
  rw [hreg, hd, hdict] at hreg₂
  rw [hd, hdict] at hchanged
  refine ⟨x, w₂, hx.exec, by rw [hset], ?_⟩
  rw [ho]
  refine answers_pure hx.steady ⟨by rw [hreg₂]; rfl, ?_, b, rfl, hchanged, hthere⟩
  rw [hreg₂, hset]
  exact Registry.aim_erase (w.registry.update c.set ((w.dict c.set).without c.last?)) cursor c.set none

theorem answers_rest (hr : run.Sound) (h : w.Steady D) :
    Answers (withCursor cursor (·.rest run) fun c es => showElements run c.set es) w D
      fun a g => w.registry.WithCursor a g cursor fun s _ =>
        g = w.registry.aim cursor s none ∧ ∃ fs, w.registry.Lists a s fs := by
  refine answers_withCursor h fun c w₁ h₁ hreg hs => ?_
  obtain ⟨c', es, w₂, hx, -⟩ := Cursor.finds_rest hr h₁ c hs
  obtain ⟨fs, w₃, hx₃, h₃, hr₃, hp⟩ := exec_showElements run c'.set hx.framed hx.steady
  have hend := Cursor.yields_rest c _ _ _ hx.exec
  have hreg₃ := (hr₃.trans (hx.registry h₁)).trans hreg
  have hlists := lists_of_perm hp hx.known
  rw [hreg] at hlists
  refine ⟨_, w₂, hx.exec, hend.1, _, w₃, hx₃, h₃, by rw [hreg₃]; rfl, ?_, fs, hlists⟩
  rw [hreg₃, Registry.aim_erase, Cursor.last?, hend.2]
  rfl

/-- A cursor is put before the first element of a set. -/
theorem answers_newCursor (hr : run.Sound) (h : w.Steady D)
    (hn : w.registry.sets.find? name = some s) :
    Answers (do
      match (← get).cursors.find? cursor with
      | some _ => refuse .nameTaken
      | none =>
        let c ← Cursor.start run s
        change (·.putCursor cursor c)
        return .done) w D fun a g =>
          if (w.registry.cursors.find? cursor).isSome then w.registry.Refuses a g .nameTaken
          else a = .done ∧ g = w.registry.aim cursor s none := by
  refine .get ?_
  rw [w.find?_cursors_registry cursor]
  rcases hc : w.cursors.find? cursor with _ | c
  · obtain ⟨w₁, h₁, hm, -⟩ := does_swept hr h (lt_size_of_isLive (h.isLive_of_name hn))
    have hreg := h₁.registry_same h hm
    have hnames : w₁.setNames = w.setNames := congrArg Registry.sets hreg
    obtain ⟨h₂, hr₂⟩ := h₁.steady.putCursor cursor
      (c := { set := s, ahead := List.range (w₁.shardCount s) })
      (List.any_eq_true.mpr ⟨(name, s), by rw [hnames]; exact Table.mem_of_find? hn, by simp⟩)
    have hstart : (Cursor.start run s).exec w =
        (.ok { set := s, ahead := List.range (w₁.shardCount s) }, w₁) :=
      (exec_bind_ok h₁.exec _).trans rfl
    rw [hreg] at hr₂
    exact .after hstart (.after (exec_change _ w₁) (answers_pure h₂ ⟨rfl, hr₂⟩))
  · exact answers_refuse h ⟨rfl, rfl⟩

theorem answers_dropCursor (h : w.Steady D) :
    Answers (do
      match (← get).cursors.find? cursor with
      | none => refuse .noCursor
      | some c =>
        change (·.dropCursor cursor c)
        return .done) w D fun a g => w.registry.WithCursor a g cursor fun _ _ =>
          a = .done ∧ g = { w.registry with cursors := w.registry.cursors.erase cursor } := by
  have hfind := w.find?_cursors_registry cursor
  refine .get ?_
  rcases hc : w.cursors.find? cursor with _ | c <;> rw [hc] at hfind
  · exact answers_refuse h (.of_none hfind ⟨rfl, rfl⟩)
  · obtain ⟨h₁, hr₁⟩ := h.dropCursor cursor (h.quiet.held _ (Table.mem_of_find? hc))
    exact .after (exec_change _ w) (answers_pure h₁ (.of_some hfind ⟨rfl, hr₁⟩))

end Cursors

/-! ## Comparing and hashing -/

section Comparing

variable {α β : Type} {act : Act α} {x : α} {s' : SetId}

/-- An act comes to a result, and a client need not know that it was carried out. -/
def Passes (act : Act α) (w : World) (D : Duties) : Prop :=
  ∃ x w', act.exec w = (.ok x, w') ∧ w'.Steady D ∧ w'.registry = w.registry

theorem Passes.after {f : α → Act β} (hx : act.exec w = (.ok x, w'))
    (hr : w'.registry = w.registry) (h : Passes (f x) w' D) : Passes (act >>= f) w D := by
  obtain ⟨y, w'', hy, hs, hr'⟩ := h
  exact ⟨y, w'', (exec_bind_ok hx f).trans hy, hs, hr'.trans hr⟩

theorem passes_pure (h : w.Steady D) (x : α) : Passes (pure x) w D :=
  ⟨x, w, rfl, h, rfl⟩

/-- Between commands no element ends when what an act held is let go of, since all elements that a
client has to know of have owners. -/
theorem Passes.holding (run : Runner) (h : Passes act w (holds es)) (ho : w.registry.Owned) :
    Passes (Act.holding run es act) w 0 := by
  obtain ⟨x, w₁, hx, h₁, hr₁⟩ := h
  have h₁' : w₁.Steady (holds es + 0) := by rwa [Multiset.add_zero]
  obtain ⟨w₂, hx₂, h₂, hs⟩ := h₁'.exec_releaseAll run
  refine ⟨x, w₂, ?_, h₂, ?_⟩
  · rw [Act.holding, exec_bind_ok (exec_attempt act w), hx, exec_bind_ok hx₂, exec_settle]
  · have howners : w₁.owners = w.registry.owners := congrArg Registry.owners hr₁
    rw [hs.registry h₂, hr₁, howners, ho.keep_self]

/-- What a handle shows is an entry. -/
theorem World.Quiet.dict_of_shows (hq : w.Quiet) {t : Ticket} {x : Handle} (ho : t.owner = s)
    (hx : w.handle? t = some x) (hs : w.shows x) :
    w.dict s (w.value x.element) = some (x.element, t) := by
  rw [World.shows, Bool.and_eq_true] at hs
  exact hq.dict_eq_some.mpr ⟨ho, ⟨x, hx, rfl⟩, hs.2, rfl⟩

/-- The values that a set shows are those of its dictionary. -/
theorem World.Quiet.mem_values (hq : w.Quiet) {v : Value} : v ∈ w.values s ↔ (w.dict s v).isSome := by
  rw [World.mem_values, Option.isSome_iff_exists]
  constructor
  · rintro ⟨t, x, ho, hx, hs, rfl⟩
    exact ⟨_, hq.dict_of_shows ho hx hs⟩
  · rintro ⟨⟨e, t⟩, hm⟩
    obtain ⟨ho, ⟨x, hx, rfl⟩, ha, hv⟩ := hq.dict_eq_some.mp hm
    exact ⟨t, x, ho, hx, by simp [World.shows, hq.weak t x hx, ha], hv⟩

/-- All elements of a set that can be reached are found. -/
theorem finds_reachable (hr : run.Sound) (h : w.Steady D) (s : SetId) :
    ∃ es b w', Finds s (reachable run s) w D (es, b) es w' := by
  obtain ⟨w', hx, hs, hf⟩ := exec_reachable run (s := s) (w := w) (by simp [h.quiet.unlocked])
  have hcourse := (leads_reachable hr).ok hx h.point (.idle w)
  refine ⟨_, _, w', hx, hf, .of_handles hs.handle?,
    h.course hcourse hf fun t ht => (Multiset.mem_add.mp ht).elim (deal_not_mem_holds t _) (h.dealt t),
    fun _ => by rw [hs.rest], fun e he => ?_⟩
  obtain ⟨x, hx, rfl⟩ := List.mem_map.mp he
  obtain ⟨hx, hshows⟩ := List.mem_filter.mp hx
  obtain ⟨⟨t, x⟩, hm, rfl⟩ := List.mem_map.mp hx
  obtain ⟨ho, hh⟩ := mem_ticketsOf.mp hm
  exact ⟨t, h.quiet.dict_of_shows ho hh hshows⟩

theorem allOf_map {γ : Type} (f : γ → Act Bool) (g : β → γ) (xs : List β) :
    allOf (fun x => f (g x)) xs = allOf f (xs.map g) := by
  induction xs with
  | nil => rfl
  | cons x xs ih => rw [List.map_cons, allOf, allOf, ih]

theorem passes_sameSets (hr : run.Sound) (h : w.Steady 0) (hs : w.isLive s) (hs' : w.isLive s') :
    Passes (sameSets run s s') w 0 := by
  unfold sameSets
  split
  · exact passes_pure h true
  · obtain ⟨n, w₁, h₁, hm₁, -⟩ := does_length hr h (lt_size_of_isLive hs) hs
    have hlive : w₁.isLive s' := (h₁.framed.live s').trans hs'
    obtain ⟨m, w₂, h₂, hm₂, -⟩ := does_length hr h₁.steady (lt_size_of_isLive hlive) hlive
    refine .after h₁.exec (h₁.registry_same h hm₁)
      (.after h₂.exec (h₂.registry_same h₁.steady hm₂) ?_)
    split
    · exact passes_pure h₂.steady false
    · obtain ⟨es, b, w₃, h₃⟩ := finds_reachable hr h₂.steady s
      have hreg := h₃.registry h₂.steady
      have hs₃ := h₃.steady
      rw [Multiset.add_zero] at hs₃
      refine .after h₃.exec hreg (.holding run ?_ (hreg ▸ h₂.steady.owned))
      cases b with
      | false => exact passes_pure hs₃ false
      | true =>
        have hlt : s' < w₃.sets.size := h₃.framed.sets.symm ▸ h₂.size (lt_size_of_isLive hlive)
        obtain ⟨w₄, h₄, hm₄⟩ := does_allOf hr hs₃ hlt (es.map .element)
        rw [← allOf_map] at h₄
        exact ⟨_, w₄, h₄.exec, h₄.steady, h₄.registry_same hs₃ hm₄⟩

theorem passes_hashOf (hr : run.Sound) (h : w.Steady 0) (hs : w.isLive s) :
    Passes (hashOf run s) w 0 := by
  obtain ⟨w₁, h₁, hm₁, -⟩ := does_swept hr h (lt_size_of_isLive hs)
  obtain ⟨es, b, w₂, h₂⟩ := finds_reachable hr h₁.steady s
  have hreg := h₂.registry h₁.steady
  have hs₂ := h₂.steady
  rw [Multiset.add_zero] at hs₂
  exact .after h₁.exec (h₁.registry_same h hm₁) (.after h₂.exec hreg
    (.holding run ⟨_, w₂, exec_look _ _, hs₂, rfl⟩ (hreg ▸ h₁.steady.owned)))

theorem World.Steady.comparing (h : w.Steady D) {S : List SetId} (hS : ∀ s ∈ S, s < w.sets.size) :
    w.Comparing S D where
  unhooked := Scriptless.unhooked h.quiet.scriptless
  made := hS
  plain s _ := h.quiet.deaf s
  apart s hs s' hs' := h.quiet.own s (hS s hs) s' (hS s' hs')
  point := h.point
  unlocked := h.quiet.unlocked

/-- What a sweep of a set leaves: the values of its dictionary, and no handle that does not show its
element. -/
theorem World.Steady.leaves (hr : run.Sound) (h : w.Steady D) (hl : w.isLive s) :
    (∀ v, w.Leaves s v ↔ (w.dict s v).isSome) ∧ w.LeavesAllShown s ∧
      (w.swept run s).Quiet ∧ (w.swept run s).dict s = w.dict s := by
  have hs := lt_size_of_isLive hl
  obtain ⟨w₁, h₁, hm, hfresh⟩ := does_swept hr h hs
  have hmem : s ∈ [s] := List.mem_cons_self
  obtain ⟨hx, -, hv, hd⟩ := (h.comparing (by simpa using hs)).swept hr hmem
  obtain rfl : w.swept run s = w₁ := (Prod.mk.injEq .. ▸ hx.symm.trans h₁.exec).2
  refine ⟨fun v => ?_, ?_, h₁.steady.quiet, hm⟩
  · rw [← hv.leaves_iff hmem, hd.leaves_iff, h₁.steady.quiet.mem_values, hm]
  · rw [← hv.leavesAllShown_iff hmem, hd.leavesAllShown_iff]
    exact fun t x ho hx => by simp [World.shows, h₁.steady.quiet.weak t x hx, hfresh hl t x ho hx]

/-- Two sets are equal if their dictionaries have the same values. -/
theorem answers_sameSets (hr : run.Sound) (h : w.Steady 0) (hs : w.isLive s) (hs' : w.isLive s') :
    Answers (.flag <$> sameSets run s s') w 0 fun a g => g = w.registry ∧
      Registry.Says a (∀ v, (w.registry.dict s v).isSome ↔ (w.registry.dict s' v).isSome) := by
  obtain ⟨b, w', hx, h', hreg⟩ := passes_sameSets hr h hs hs'
  have hlt : ∀ a ∈ [s, s'], a < w.sets.size := by simp [lt_size_of_isLive hs, lt_size_of_isLive hs']
  have hsame := (h.comparing hlt).sameSets_iff hr (a := s) (b := s') (by simp) (by simp)
  obtain ⟨hv, hall, -⟩ := h.leaves hr hs
  obtain ⟨hv', hall', -⟩ := h.leaves hr hs'
  rw [hx, Except.ok.injEq] at hsame
  refine ⟨.flag b, w', by rw [exec_map, hx]; rfl, h', hreg, b, rfl, hsame.trans ⟨?_, fun hd => ?_⟩⟩
  · rintro (rfl | hm) v
    · exact Iff.rfl
    · exact (hv v).symm.trans ((hm.values v).trans (hv' v))
  · exact .inr ⟨hall, hall', fun v => (hv v).trans ((hd v).trans (hv' v).symm)⟩

/-- The hash of a set is the sum of those of its values. -/
theorem answers_hashOf (hr : run.Sound) (h : w.Steady 0) (hs : w.isLive s) :
    Answers (do return .hashes [← hashOf run s]) w 0 fun a g => g = w.registry ∧
      ∃ vs, (w.registry.dict s).Lists vs ∧ a = .hashes [(vs.map valueHash).sum] := by
  obtain ⟨x, w', hx, h', hreg⟩ := passes_hashOf hr h hs
  have hlt : ∀ a ∈ [s], a < w.sets.size := by simp [lt_size_of_isLive hs]
  have hhash := (h.comparing hlt).exec_hashOf hr (s := s) (by simp)
  obtain ⟨-, -, hq, hm⟩ := h.leaves hr hs
  have hvs := h.quiet.lists s
  refine .after hx (answers_pure h' ⟨hreg, _, hvs, ?_⟩)
  have hvalues : (w.swept run s).values s = List.toFinset _ := Finset.ext fun v => by
    rw [hq.mem_values, hm, ← hvs.2, List.mem_toFinset]
  rw [hx, Except.ok.injEq, hvalues, List.sum_toFinset _ hvs.1] at hhash
  rw [hhash]

end Comparing

end WeakSet
