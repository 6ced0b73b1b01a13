import WeakSet.Proofs.Operations

/-!
# What a refused command leaves behind

A command that comes from a probe of a set, or from a destructor that runs there, finds the set
locked. If it is an operation of that set and panics, then no handle and no watcher changed and no
listener was called (`Spoiled`). Yet something may be lost: the notices that its sweep had taken out of
the channel, and what was at hand for the cursor that it had move on. Nothing is lost exactly if there
was neither.
-/

namespace WeakSet

open Act Duties

/-- The set that a command is an operation of, by itself or through a cursor. The comparison of two
sets is one of the first. -/
def Command.set? (c : Command) (w : World) : Option SetId :=
  match c with
  | .sameSet name _ | .settings name | .describe name _ | .hashSet name | .insert name _ _
  | .add name _ | .addAll name _ | .contains name _ | .remove name _ | .ticketOf name _ _
  | .containsAll name _ | .removeAll name _ | .retainAll name _ | .retain name _ _ _
  | .retainBy name _ _ | .length name | .isEmpty name | .sweep name | .clear name | .toList name
  | .iterate name | .newCursor name _ => w.setNames.find? name
  | .next name _ | .nextElement name _ | .removeCurrent name | .rest name | .dropCursor name =>
    (w.cursors.find? name).map Cursor.set
  | _ => none

/-- Whether an operation of a set begins with a sweep. -/
def Command.sweepsFirst : Command → Bool
  | .settings .. | .describe .. | .clear .. | .next .. | .nextElement .. | .removeCurrent ..
  | .rest .. | .dropCursor .. => false
  | _ => true

/-! ## What a cursor passes over -/

namespace Cursor

/-- The tickets of the keys that a cursor passes over with its next step at the latest: a key, or
else those of the next shard. -/
def atHand (c : Cursor) (w : World) : List Ticket :=
  match c.pending, c.ahead with
  | key :: _, _ => [⟨c.set, c.shard, key⟩]
  | [], k :: _ => (w.ticketsIn c.set k).map Prod.fst
  | [], [] => []

/-- The elements that a cursor does not return if its next step is refused. -/
def skipped (c : Cursor) (w : World) : List ElementId :=
  (c.atHand w).filterMap w.reachable?

theorem before_eq (c : Cursor) (w : World) : c.before w = c.atHand w ++ c.passOver.before w := by
  obtain ⟨s, k, ahead, pending, current⟩ := c
  rcases pending with _ | ⟨key, keys⟩
  · cases ahead <;> simp [before, atHand, passOver]
  · simp [before, atHand, passOver]

theorem remaining_eq (c : Cursor) (w : World) :
    c.remaining w = c.skipped w ++ c.passOver.remaining w := by
  rw [remaining, before_eq, List.filterMap_append]
  rfl

end Cursor

/-! ## Commands on a locked set -/

/-- The cursor that a command uses. -/
def Command.cursor? : Command → Option String
  | .next name _ | .nextElement name _ | .removeCurrent name | .rest name => some name
  | _ => none

/-- Whether a command has its cursor move on. -/
def Command.movesOn : Command → Bool
  | .next .. | .nextElement .. | .rest .. => true
  | _ => false

/-- What a command that is refused makes of the cursor that it uses. -/
def Command.move (c : Command) (cu : Cursor) : Cursor :=
  if c.movesOn then cu.passOver else { cu with current := none }

namespace Session

section Refusals

variable {α β : Type} {run : Runner} {w w' : World} {D : Duties} {s : SetId} {d : Bool} {p : Panic}

/-- An act that never panics. -/
def Calm (a : Act α) : Prop :=
  ∀ w, ∃ x w', a.exec w = (.ok x, w')

/-- What an act that panics may change while set `s` is locked. -/
def Refuses (s : SetId) (d : Bool) (a : Act α) (w : World) : Prop :=
  w.IsLocked s → ∀ p w', a.exec w = (.error p, w') → w.Refused s d w'

namespace Refuses

theorem of_keeps {a : Act α} (h : Keeps s d a w) : Refuses s d a w := by
  intro hw p w' hx
  have := h hw
  rwa [hx] at this

theorem map {a : Act α} {f : α → β} (h : Refuses s d a w) : Refuses s d (f <$> a) w := by
  intro hw p w' hx
  rw [exec_map] at hx
  rcases ha : a.exec w with ⟨q | x, v⟩ <;> rw [ha] at hx
  · obtain ⟨-, rfl⟩ := Prod.mk.injEq .. ▸ hx
    exact h hw q v ha
  · cases hx

/-- What comes after an act does not panic. -/
theorem bind {a : Act α} {f : α → Act β} (h : Refuses s d a w) (hf : ∀ x, Calm (f x)) :
    Refuses s d (a >>= f) w := by
  intro hw p w' hx
  rw [exec_bind] at hx
  rcases ha : a.exec w with ⟨q | x, v⟩ <;> rw [ha] at hx
  · obtain ⟨-, rfl⟩ := Prod.mk.injEq .. ▸ hx
    exact h hw q v ha
  · obtain ⟨y, w'', hy⟩ := hf x v
    simp only [hy] at hx
    cases hx

/-- What was borrowed is given back. -/
theorem borrowing {es : List ElementId} {a : Act α} (hes : ∀ e ∈ es, 0 < w.strong e)
    (h : ∀ w, Refuses s d a w) : Refuses s d (borrowing run es a) w := by
  intro hw p w' hx
  obtain ⟨hs, hc⟩ := World.foldl_acquire _ fun e he => World.lt_size_of_strong (hes e he)
  have hw₁ : (es.foldl World.acquire w).IsLocked s := by
    rw [hs.rest]
    exact ⟨hw.entered, hw.roomy⟩
  rcases ha : a.exec (es.foldl World.acquire w) with ⟨r, w₁⟩
  cases r with
  | ok x =>
    obtain ⟨w₂, h₂⟩ := exec_releaseAll run es w₁
    rw [Act.borrowing, exec_bind_ok (exec_change _ w), holding, exec_bind_ok (exec_attempt a _), ha,
      exec_bind_ok h₂] at hx
    cases hx
  | error q =>
    have hr := h _ hw₁ q w₁ ha
    obtain ⟨w₂, h₂, hs₂, hc₂⟩ := exec_borrowing run ha fun e he => by
      have := hes e he
      rw [hr.strong, hc]
      omega
    obtain ⟨-, rfl⟩ := Prod.mk.injEq .. ▸ h₂.symm.trans hx
    refine ⟨by rw [hs₂.rest, hr.rest, hs.rest], fun e => ?_, fun e => ?_, ?_, ?_⟩
    · have := hc₂ e
      rw [hr.strong, hc] at this
      omega
    · rw [hs₂.watchers, hr.watchers, hs.watchers]
    · have hch := hr.channels
      have hn := World.channels_takeNotices_congr (s := s)
        (show (es.foldl World.acquire w).sets = w.sets by rw [hs.rest])
        (show (es.foldl World.acquire w).channels = w.channels by rw [hs.rest])
      rw [hn, show (es.foldl World.acquire w).channels = w.channels by rw [hs.rest]] at hch
      rw [show w₂.channels = w₁.channels by rw [hs₂.rest], hch]
    · exact (World.books_congr (w := w₁) (by rw [hs₂.rest])).trans
        (hr.books.trans (World.books_congr (by rw [hs.rest])))

theorem look {f : World → α} {g : α → Act β} (h : Refuses s d (g (f w)) w) :
    Refuses s d (look f >>= g) w := h

theorem get {g : World → Act β} (h : Refuses s d (g w) w) : Refuses s d (get >>= g) w := h

/-- What is not an act on the set is no panic. -/
theorem calm {a : Act α} (h : Calm a) : Refuses s d a w := by
  intro _ p w' hx
  obtain ⟨x, v, hv⟩ := h w
  cases hv.symm.trans hx

end Refuses

namespace Calm

theorem pure {x : α} : Calm (pure x) := fun w => ⟨x, w, rfl⟩

theorem bind {a : Act α} {f : α → Act β} (ha : Calm a) (hf : ∀ x, Calm (f x)) : Calm (a >>= f) := by
  intro w
  obtain ⟨x, w', hx⟩ := ha w
  rw [exec_bind_ok hx]
  exact hf x w'

theorem look {f : World → α} : Calm (look f) := fun w => ⟨f w, w, rfl⟩

theorem change {f : World → World} : Calm (change f) := fun w => ⟨(), f w, rfl⟩

theorem save (name : Option String) (t : Ticket) : Calm (save name t) := by
  cases name with
  | none => exact pure
  | some name => exact change

theorem holding {a : Act α} (es : List ElementId) (ha : Calm a) : Calm (holding run es a) := by
  intro w
  obtain ⟨x, w', hx⟩ := ha w
  obtain ⟨w'', h⟩ := exec_releaseAll run es w'
  refine ⟨x, w'', ?_⟩
  rw [Act.holding, exec_bind_ok (exec_attempt _ w), hx, exec_bind_ok h]
  rfl

theorem showElements (es : List ElementId) : Calm (showElements run s es) :=
  holding es look

end Calm

/-! ### What commands use -/

variable {name : String}

theorem refuses_withOwner {body : ElementId → Act Reply} (hw : w.Sane D)
    (h : ∀ e w, Refuses s d (body e) w) : Refuses s d (withOwner run name body) w := by
  refine .get ?_
  split
  · exact .calm .pure
  · rename_i e ho
    refine .borrowing (fun e' he => ?_) (h e)
    obtain rfl := List.mem_singleton.mp he
    exact World.isAlive_iff.mp (hw.counted.isAlive_of_owner ho)

theorem refuses_withOwners {names : List String} {body : List ElementId → Act Reply}
    (hw : w.Sane D) (h : ∀ es w, Refuses s d (body es) w) :
    Refuses s d (withOwners run names body) w := by
  refine .get ?_
  split
  · exact .calm .pure
  · rename_i es ho
    refine .borrowing (fun e he => ?_) (h es)
    obtain ⟨name, hn⟩ := find?_of_mem_findAll ho e he
    exact World.isAlive_iff.mp (hw.counted.isAlive_of_owner hn)

theorem refuses_withWanted {wanted : Wanted} {body : Query → Act Reply} (hw : w.Sane D)
    (h : ∀ q w, Refuses s d (body q) w) : Refuses s d (withWanted run wanted body) w := by
  cases wanted with
  | value v => exact h _ w
  | owner o => exact refuses_withOwner hw fun e w => h _ w

theorem refuses_withAllWanted {wanted : WantedAll} {body : List Query → Act Reply} (hw : w.Sane D)
    (h : ∀ qs w, Refuses s d (body qs) w) : Refuses s d (withAllWanted run wanted body) w := by
  cases wanted with
  | values vs => exact h _ w
  | owners os => exact refuses_withOwners hw fun es w => h _ w

theorem refuses_anyOf {f : α → Act Bool} (h : ∀ x w, Keeps s true (f x) w) (xs : List α) :
    Refuses s true (anyOf f xs) w := by
  cases xs with
  | nil => exact .calm .pure
  | cons x xs => exact .of_keeps (keeps_anyOf h (x :: xs))

theorem refuses_containsAll (qs : List Query) : Refuses s true (containsAll run s qs) w := by
  cases qs with
  | nil => exact .calm .pure
  | cons q qs => exact .of_keeps (keeps_allOf (fun q _ => keeps_contains q) (q :: qs))

theorem refuses_withAnySet {body : SetId → Act Reply} (h : ∀ s', Refuses s d (body s') w) :
    Refuses s d (withSet name body) w := by
  refine .get ?_
  split
  · exact .calm .pure
  · exact h _

theorem refuses_withSet {body : SetId → Act Reply} (h : w.setNames.find? name = some s)
    (hb : Refuses s d (body s) w) : Refuses s d (withSet name body) w := by
  intro hl p w' hx
  rw [exec_withSet h] at hx
  exact hb hl p w' hx

/-- What is left of a world by an operation of a locked set that uses no cursor. -/
theorem refuses_perform (hw : w.Sane D) {c : Command} (hc : c.set? w = some s)
    (hn : c.cursor? = none) (inScript : Bool) :
    Refuses s c.sweepsFirst (perform run inScript c) w := by
  have hk {α : Type} {d : Bool} {a : Act α} (h : ∀ w, Keeps s d a w) (f : α → Reply) :
      ∀ w, Refuses s d (f <$> a) w := fun w => .map (.of_keeps (h w))
  cases c <;> simp only [Command.set?, Command.cursor?, reduceCtorEq] at hc hn
  case sameSet a b =>
    refine refuses_withSet hc (refuses_withAnySet fun s' => .look (.look ?_))
    split
    · by_cases hne : s = s'
      · exact .map (.calm (by rw [sameSets, if_pos hne]; exact .pure))
      · exact .map (.of_keeps (keeps_sameSets hne))
    · exact .calm .pure
  case settings => exact refuses_withSet hc (.calm .look)
  case describe => exact refuses_withSet hc (.bind (.of_keeps stopped_count.keeps) fun _ => .look)
  case hashSet => exact refuses_withSet hc (.bind (.of_keeps keeps_hashOf) fun _ => .pure)
  case insert name o saveAs =>
    refine refuses_withSet hc (refuses_withOwner hw fun e w => .bind (.of_keeps (keeps_insert e)) ?_)
    intro t?
    cases t? with
    | none => exact .pure
    | some t => exact .bind (.save saveAs t) fun _ => .pure
  case add => exact refuses_withSet hc (refuses_withOwner hw fun e => hk (fun _ => keeps_add e) _)
  case addAll =>
    exact refuses_withSet hc (refuses_withOwners hw fun es w =>
      .map (refuses_anyOf (fun e _ => keeps_add e) es))
  case contains =>
    exact refuses_withSet hc (refuses_withWanted hw fun q => hk (fun _ => keeps_contains q) _)
  case remove =>
    exact refuses_withSet hc (refuses_withWanted hw fun q => hk (fun _ => keeps_remove q) _)
  case ticketOf name wanted saveAs =>
    refine refuses_withSet hc (refuses_withWanted hw fun q w =>
      .bind (.of_keeps (keeps_ticketOf q)) ?_)
    intro t?
    cases t? with
    | none => exact .pure
    | some t => exact .bind (.save saveAs t) fun _ => .pure
  case containsAll =>
    exact refuses_withSet hc (refuses_withAllWanted hw fun qs w => .map (refuses_containsAll qs))
  case removeAll =>
    exact refuses_withSet hc (refuses_withAllWanted hw fun qs w =>
      .map (refuses_anyOf (fun q _ => keeps_remove q) qs))
  case retainAll =>
    exact refuses_withSet hc (refuses_withAllWanted hw fun qs => hk (fun _ => keeps_retainAll qs) _)
  case retain => exact refuses_withSet hc (hk (fun _ => keeps_retain _) _ w)
  case retainBy => exact refuses_withSet hc (hk (fun _ => keeps_retain _) _ w)
  case length => exact refuses_withSet hc (hk (fun _ => keeps_length) _ w)
  case isEmpty => exact refuses_withSet hc (.bind (.of_keeps keeps_length) fun _ => .pure)
  case sweep => exact refuses_withSet hc (hk (fun _ => keeps_sweep) _ w)
  case clear => exact refuses_withSet hc (.bind (.of_keeps keeps_clear) fun _ => .pure)
  case toList =>
    exact refuses_withSet hc (.bind (.of_keeps keeps_toList) fun es => .showElements es)
  case iterate =>
    exact refuses_withSet hc (.bind (.of_keeps keeps_toList) fun es => .showElements es)
  case newCursor name cursor =>
    refine refuses_withSet hc (.get ?_)
    split
    · exact .calm .pure
    · exact .bind (.of_keeps keeps_start) fun c => .bind .change fun _ => .pure
  case dropCursor name =>
    refine .get ?_
    split
    · exact .calm .pure
    · exact .calm (.bind .change fun _ => .pure)

/-- A step that is refused moves the cursor all the same. -/
theorem exec_withCursor_refused {step : Cursor → Act (Cursor.Step α)} {body : Cursor → α → Act Reply}
    {cu cu' : Cursor} (hf : w.cursors.find? name = some cu) (hset : cu'.set = cu.set)
    (hstep : (step cu).exec (w.takeCursor name cu) =
      (.ok ⟨cu', .error p⟩, (w.takeCursor name cu).note (.barred cu.set))) :
    (withCursor name step body).exec w =
      (.error p, World.note { w with cursors := w.cursors.put name cu' } (.barred cu.set)) := by
  have hgone : (w.cursors.erase name).find? name = none := by rw [Table.find?_erase, if_pos rfl]
  rw [withCursor, exec_get_bind, hf]
  simp only
  rw [exec_bind_ok (exec_change _ w), exec_bind_ok hstep, exec_bind_ok (exec_attempt _ _)]
  rw [exec_bind_ok (exec_change _ _), exec_bind_error (exec_settle _ _), exec_settle]
  simp [World.returnCursor, World.putCursor, World.takeCursor, World.note, hgone, hset, Table.put,
    Table.erase_erase]

/-- A step that comes to something, with a reply that does not panic. -/
theorem exec_withCursor_ok {step : Cursor → Act (Cursor.Step α)} {body : Cursor → α → Act Reply}
    {cu cu' : Cursor} {x : α} {w₁ : World} (hf : w.cursors.find? name = some cu)
    (hstep : (step cu).exec (w.takeCursor name cu) = (.ok ⟨cu', .ok x⟩, w₁))
    (hbody : Calm (body cu' x)) : ∃ r w', (withCursor name step body).exec w = (.ok r, w') := by
  rw [withCursor, exec_get_bind, hf]
  simp only
  obtain ⟨r, w₂, hr⟩ := hbody w₁
  rw [exec_bind_ok (exec_change _ w), exec_bind_ok hstep, exec_bind_ok (exec_attempt _ _)]
  rw [exec_bind_ok (exec_change _ _), exec_bind_ok (exec_settle _ _), hr, exec_settle]
  exact ⟨r, _, rfl⟩

theorem refused_withCursor {step : Cursor → Act (Cursor.Step α)} {body : Cursor → α → Act Reply}
    {cu cu' : Cursor} {x : α} {done : Prop} [Decidable done] (hf : w.cursors.find? name = some cu)
    (hset : cu'.set = cu.set)
    (hstep : ∀ w, cu.set ∈ w.entered → (step cu).exec w =
      if done then (.ok ⟨cu', .ok x⟩, w)
      else (.ok ⟨cu', .error reentered⟩, w.note (.barred cu.set)))
    (hbody : Calm (body cu' x)) (hs : cu.set ∈ w.entered)
    (hx : (withCursor name step body).exec w = (.error p, w')) :
    w' = World.note { w with cursors := w.cursors.put name cu' } (.barred cu.set) := by
  have h := hstep (w.takeCursor name cu) hs
  by_cases hd : done
  · rw [if_pos hd] at h
    obtain ⟨r, w'', hr⟩ := exec_withCursor_ok hf h hbody
    cases hr.symm.trans hx
  · rw [if_neg hd] at h
    cases (exec_withCursor_refused hf hset h).symm.trans hx
    rfl

/-- What is left of a world by a cursor that a locked set refuses to move. -/
theorem refused_move {c : Command} {cu : Cursor} {inScript : Bool} (hn : c.cursor? = some name)
    (hf : w.cursors.find? name = some cu) (hs : cu.set ∈ w.entered)
    (hx : (perform run inScript c).exec w = (.error p, w')) :
    w' = World.note { w with cursors := w.cursors.put name (c.move cu) } (.barred cu.set) := by
  cases c <;> simp only [Command.cursor?, Option.some.injEq, reduceCtorEq] at hn <;> subst hn
  case next keep =>
    rw [perform] at hx
    refine refused_withCursor hf (Cursor.set_passOver cu) (fun _ => Cursor.exec_next_of_mem) ?_ hs hx
    exact .pure
  case nextElement keep =>
    rw [perform] at hx
    refine refused_withCursor hf (Cursor.set_passOver cu) (fun _ => Cursor.exec_next_of_mem) ?_ hs hx
    exact .pure
  case removeCurrent =>
    rw [perform] at hx
    refine refused_withCursor hf rfl (fun _ => Cursor.exec_removeCurrent_of_mem) ?_ hs hx
    exact .pure
  case rest =>
    rw [perform] at hx
    refine refused_withCursor hf (Cursor.set_passOver cu) (fun _ => Cursor.exec_rest_of_mem run) ?_ hs hx
    exact .showElements []

end Refusals

/-! ## What is lost -/

/-- Nothing that concerns set `s` was lost between two moments. -/
structure Intact (s : SetId) (w w' : World) : Prop where
  handles : ∀ t, w'.handle? t = w.handle? t
  watchers : ∀ e, w'.watchers e = w.watchers e
  notices : w'.pending (w.channelOf s) = w.pending (w.channelOf s)
  walks : ∀ name, (w'.cursors.find? name).map (·.remaining w') =
    (w.cursors.find? name).map (·.remaining w)
  reports : w'.books.reported = w.books.reported

/-- What a command that was refused left of the channel of its set and of the cursors. -/
structure Spoiled (c : Command) (s : SetId) (w w' : World) : Prop where
  sets : w'.sets = w.sets
  strong : ∀ e, w'.strong e = w.strong e
  watchers : ∀ e, w'.watchers e = w.watchers e
  books : w'.books = w.books
  channels : w'.channels = if c.sweepsFirst then (w.takeNotices s).2.channels else w.channels
  cursors : ∀ name, w'.cursors.find? name =
    if c.cursor? = some name then (w.cursors.find? name).map c.move else w.cursors.find? name

section Lost

variable {run : Runner} {w w' : World} {D : Duties} {s : SetId} {p : Panic} {c : Command}
  {inScript : Bool}

theorem lt_size_of_set? (hw : w.Sane D) (hc : c.set? w = some s) : s < w.sets.size := by
  have hset : ∀ name, w.setNames.find? name = some s → s < w.sets.size := fun name h =>
    hw.formed.named.sets _ (Table.mem_of_find? h)
  have hcursor : ∀ name, (w.cursors.find? name).map Cursor.set = some s → s < w.sets.size := by
    intro name h
    obtain ⟨cu, hcu, rfl⟩ := Option.map_eq_some_iff.mp h
    exact (hw.formed.named.cursors _ (Table.mem_of_find? hcu)).set
  cases c <;> simp only [Command.set?, reduceCtorEq] at hc
  all_goals first | exact hset _ hc | exact hcursor _ hc

theorem find?_of_cursor? {name : String} (hn : c.cursor? = some name) (hc : c.set? w = some s) :
    ∃ cu, w.cursors.find? name = some cu ∧ cu.set = s := by
  cases c <;> simp only [Command.cursor?, Option.some.injEq, reduceCtorEq] at hn <;> subst hn <;>
    exact Option.map_eq_some_iff.mp hc

theorem sweepsFirst_of_cursor? {name : String} (hn : c.cursor? = some name) :
    c.sweepsFirst = false := by
  cases c <;> simp only [Command.cursor?, reduceCtorEq] at hn <;> rfl

theorem spoiled_of_error (hw : w.Sane D) (hs : s ∈ w.entered) (hc : c.set? w = some s)
    (hx : (perform run inScript c).exec w = (.error p, w')) : Spoiled c s w w' := by
  have hl : w.IsLocked s := ⟨hs, hw.formed.roomy s (lt_size_of_set? hw hc)⟩
  rcases hn : c.cursor? with _ | name
  · have h := refuses_perform hw hc hn inScript hl p w' hx
    refine ⟨h.sets, h.strong, h.watchers, h.books, h.channels, fun name => ?_⟩
    rw [if_neg (by simp [hn]), h.rest]
  · obtain ⟨cu, hf, rfl⟩ := find?_of_cursor? hn hc
    rw [refused_move hn hf hs hx]
    refine ⟨rfl, fun _ => rfl, fun _ => rfl, ?_, ?_, fun name' => ?_⟩
    · rw [World.books_note]
      exact World.books_congr rfl
    · rw [if_neg (by simp [sweepsFirst_of_cursor? hn])]
      rfl
    · change (w.cursors.put name (c.move cu)).find? name' = _
      rw [Table.find?_put]
      by_cases he : name' = name
      · subst he
        rw [if_pos rfl, if_pos hn, hf]
        rfl
      · rw [if_neg he, if_neg fun h => he (by simpa [hn] using h.symm)]

namespace Spoiled

theorem pending (h : Spoiled c s w w') (ch : ChannelId) :
    w'.pending ch =
      if c.sweepsFirst ∧ ch = w.channelOf s ∧ w.delivers ch then [] else w.pending ch := by
  by_cases hf : c.sweepsFirst
  · have hch := h.channels
    rw [if_pos hf] at hch
    rw [World.pending, hch, World.takeNotices, World.getElem?_channels_drain, Option.map_map,
      World.pending, World.delivers]
    rcases w.channels[ch]? with _ | x
    · simp
    · by_cases he : ch = w.channelOf s
      · by_cases hd : x.delivers <;> simp [he, hf, hd, World.channelOf, Channel.drain]
      · have he' : ch ≠ (w.collection s).channel := he
        simp [he, he']
  · rw [if_neg (fun hc => hf hc.1), World.pending, World.pending, h.channels, if_neg hf]

theorem remaining (h : Spoiled c s w w') (cu : Cursor) : cu.remaining w' = cu.remaining w :=
  cu.remaining_congr h.sets fun e => by rw [World.isAlive, World.isAlive, h.strong]

end Spoiled

theorem remaining_move (c : Command) (cu : Cursor) (w : World) :
    cu.remaining w = (if c.movesOn then cu.skipped w else []) ++ (c.move cu).remaining w := by
  unfold Command.move
  split
  · exact Cursor.remaining_eq cu w
  · rfl

/-- An operation of a locked set that panics. The handles, the watchers and the reports are what
they were. The notices that a sweep had taken are lost, and so is what was at hand for a cursor that
had moved on; and if there was neither, then nothing is lost. -/
theorem refused_operation_changes_nothing_iff (hw : w.Sane D) (hs : s ∈ w.entered)
    (hc : c.set? w = some s) (hx : (perform run inScript c).exec w = (.error p, w')) :
    (∀ t, w'.handle? t = w.handle? t) ∧ (∀ e, w'.watchers e = w.watchers e) ∧
      w'.books.reported = w.books.reported ∧
      (∀ ch, w'.pending ch =
        if c.sweepsFirst ∧ ch = w.channelOf s ∧ w.delivers ch then [] else w.pending ch) ∧
      (∀ name cu, w.cursors.find? name = some cu → ∃ cu', w'.cursors.find? name = some cu' ∧
        cu.remaining w =
          (if c.movesOn ∧ c.cursor? = some name then cu.skipped w else []) ++ cu'.remaining w') ∧
      (Intact s w w' ↔
        (c.sweepsFirst → w.delivers (w.channelOf s) → w.pending (w.channelOf s) = []) ∧
        ∀ name cu, c.movesOn → c.cursor? = some name → w.cursors.find? name = some cu →
          cu.skipped w = []) := by
  have h := spoiled_of_error hw hs hc hx
  refine ⟨World.handle?_congr h.sets, h.watchers, by rw [h.books], h.pending, ?_, ?_, ?_⟩
  · intro name cu hf
    by_cases hn : c.cursor? = some name
    · refine ⟨c.move cu, by rw [h.cursors, if_pos hn, hf]; rfl, ?_⟩
      rw [h.remaining, remaining_move c cu w]
      simp [hn]
    · refine ⟨cu, by rw [h.cursors, if_neg hn, hf], ?_⟩
      rw [h.remaining]
      simp [hn]
  · intro hi
    refine ⟨fun hsw hd => ?_, fun name cu hm hn hf => ?_⟩
    · rw [← hi.notices, h.pending, if_pos ⟨hsw, rfl, hd⟩]
    · have hwalk := hi.walks name
      rw [h.cursors, if_pos hn, hf] at hwalk
      simp only [Option.map_some, Option.some.injEq] at hwalk
      rw [h.remaining, remaining_move c cu w, if_pos hm] at hwalk
      simpa using hwalk
  · rintro ⟨hnotices, hwalks⟩
    refine ⟨World.handle?_congr h.sets, h.watchers, ?_, fun name => ?_, by rw [h.books]⟩
    · rw [h.pending]
      split
      · rename_i hd
        exact (hnotices hd.1 hd.2.2).symm
      · rfl
    · rw [h.cursors]
      by_cases hn : c.cursor? = some name
      · rw [if_pos hn]
        rcases hf : w.cursors.find? name with _ | cu
        · rfl
        · simp only [Option.map_some, Option.some.injEq]
          rw [h.remaining, remaining_move c cu w]
          by_cases hm : c.movesOn
          · simp [hwalks name cu hm hn hf]
          · simp [hm]
      · rw [if_neg hn]
        simp only [h.remaining]

/-- A lookup for the element of an owner, in a set that has nothing to sweep. -/
theorem exec_contains_probed {name owner : String} {e : ElementId} {v : World} {hash : UInt64}
    {k : Nat} {x : Probe} {found : Option SlotKey} (hs : w.setNames.find? name = some s)
    (ho : w.owners.find? owner = some e) (hd : (w.acquire e).Drained s) (hn : s ∉ w.entered)
    (hh : w.hashOf s ((w.acquire e).value e) = hash) (hk : w.shardFor s ((w.acquire e).value e) = k)
    (hp : (probeShard run s k hash (.element e)).exec ((w.acquire e).lock s) = (.ok x, v))
    (hf : x.found = .ok found) :
    (perform run inScript (.contains name (.owner owner))).exec w = (.ok (.flag found.isSome),
      ((releaseAll run [e]).exec ((releaseAll run x.held).exec (v.unlock s)).2).2) := by
  have hcontains : (Reply.flag <$> contains run s (.element e)).exec (w.acquire e) =
      (.ok (.flag found.isSome), ((releaseAll run x.held).exec (v.unlock s)).2) := by
    rw [exec_map, contains, exec_map, ticketOf,
      exec_bind_ok (exec_discard_ok (exec_sweep_drained run hd)),
      exec_find_probed (w := w.acquire e) (q := .element e) hn hh hk hp hf]
    cases found <;> rfl
  obtain ⟨v', h⟩ := exec_releaseAll run [e] ((releaseAll run x.held).exec (v.unlock s)).2
  rw [perform, exec_withSet hs, withWanted, withOwner, exec_get_bind, ho]
  simp only
  rw [borrowing, exec_bind_ok (exec_change _ w), List.foldl_cons, List.foldl_nil, holding,
    exec_bind_ok (exec_attempt_eq_ok.mpr hcontains), exec_bind_ok h, h, exec_settle]

/-- Two elements in a set, and a third one: its comparison drops one of them and asks for the length of
the set. -/
def nestedRun : List Command :=
  [.build "s" (.ok ⟨{ capacity := 16, concurrency := 1 }, none, .identity, .silent⟩),
    .new "x" (.number 1) none none, .new "y" (.number 2) none none, .add "s" "x", .add "s" "y",
    .new "q" (.number 1) none (some [.drop ["y"], .length "s"])]

theorem onEqual_nestedRun :
    (carryOutAll 1 .empty nestedRun).onEqual 2 = some [.drop ["y"], .length "s"] := by
  have hfree : (carryOutAll 1 .empty (nestedRun.take 5)).owners.find? "q" = none := by decide +kernel
  have hsize : (carryOutAll 1 .empty (nestedRun.take 5)).cells.size = 2 := by decide +kernel
  exact hsize ▸ onEqual_newElement hfree (.number 1) none (some [.drop ["y"], .length "s"])

/-- A lookup for "q" compares it with "x" under the lock, in world `v`. The script of "q" drops "y" and
then, in world `w`, asks for the length. That is refused, and the notice of "y" is lost: when the lookup
is done, "y" is still counted. -/
theorem refused_operation_loses_notice_nested :
    let run := runner 1
    let w₀ := carryOutAll 1 .empty nestedRun
    let v := (((w₀.acquire 2).lock 0).acquire 0).note (.compared "q")
    let w := ((run .equality [.drop ["y"]]).exec v).2
    let w' := ((perform (runner 0) true (.length "s")).exec w).2
    let v' := (w'.note (.answered "len" (.panicked reentered))).unlock 0
    let w₁ := ((releaseAll run [2]).exec ((releaseAll run [0]).exec v').2).2
    carryOutWithin 1 w₀ (.contains "s" (.owner "q")) = (.flag true, w₁) ∧
      w.pending 0 = [⟨0, 0, 1, 1⟩] ∧ w'.pending 0 = [] ∧
      w'.handle? ⟨0, 0, 1, 1⟩ = some ⟨1, 2, .weak⟩ ∧ ¬ Intact 0 w w' ∧
      w₁.isAlive 1 = false ∧ (carryOutWithin 1 w₁ (.length "s")).1 = .number 2 := by
  intro run w₀ v w w' v' w₁
  have h₀ : w₀.Point 0 := point_carryOutAll 1 nestedRun
  have hlock : (0 : SetId) ∉ w₀.entered := by simp [h₀.unlocked]
  have hv : v.Point (.hold 0 ::ₘ .leave 0 ::ₘ .hold 2 ::ₘ 0) :=
    h₀.tail (.acquire (by decide +kernel)) |>.tail (.enter hlock)
      |>.tail (.acquire (by decide +kernel)) |>.tail (.note rfl)
  have hw : w.Sane _ := ((course_script 1 hv .equality [.drop ["y"]]).point hv).sane
  have hdrop : (run .equality [.drop ["y"]]).exec v = (.ok (), w) := Prod.ext (by decide +kernel) rfl
  have hlen : (perform (runner 0) true (.length "s")).exec w = (.error reentered, w') :=
    Prod.ext (by decide +kernel) rfl
  obtain ⟨hh, -, -, hp, -, hi⟩ := refused_operation_changes_nothing_iff hw (s := 0)
    (by decide +kernel) (by decide +kernel) hlen
  have hn : w.pending 0 = [⟨0, 0, 1, 1⟩] := by decide +kernel
  have hd : w.delivers 0 := by decide +kernel
  have hc : w.channelOf 0 = 0 := by decide +kernel
  refine ⟨?_, hn, ?_, ?_, fun h => ?_, by decide +kernel, by decide +kernel⟩
  · have hscript : (run .equality [.drop ["y"], .length "s"]).exec v =
        (.ok (), w'.note (.answered "len" (.panicked reentered))) := by
      refine (exec_play_append hdrop [.length "s"]).trans ((exec_play_cons rfl []).trans ?_)
      rw [hlen]
      rfl
    have hx : w₀.onEqual 0 = none := Option.isNone_iff_eq_none.mp (by decide +kernel)
    have hprobe : (probe run (.element 2) [(⟨0, 1⟩, ⟨0, 1, .weak⟩)]).exec ((w₀.acquire 2).lock 0) =
        (.ok ⟨[0], .ok (some ⟨0, 1⟩)⟩, w'.note (.answered "len" (.panicked reentered))) :=
      exec_probe_compared rfl (by decide +kernel) ((w₀.onEqual_acquire 2 0).trans hx)
        ((w₀.onEqual_acquire 2 2).trans onEqual_nestedRun) (by decide +kernel) hscript
        (by decide +kernel)
    have hcandidates : (((w₀.acquire 2).lock 0).shard 0 0).candidates 1 =
        [(⟨0, 1⟩, ⟨0, 1, .weak⟩)] := by decide +kernel
    have hdrained : ((w₀.acquire 2).takeNotices 0).1 = [] := by decide +kernel
    exact carryOutWithin_of_exec <| exec_contains_probed (x := ⟨[0], .ok (some ⟨0, 1⟩)⟩)
      (by decide +kernel) (by decide +kernel) hdrained hlock (by decide +kernel) (by decide +kernel)
      ((exec_probeShard ..).trans (hcandidates.symm ▸ hprobe)) rfl
  · rw [hp, if_pos ⟨rfl, hc.symm, hd⟩]
  · rw [hh]
    decide +kernel
  · have hnil := (hi.mp h).1 rfl (by rwa [hc])
    rw [hc, hn] at hnil
    cases hnil

end Lost

end Session

end WeakSet
