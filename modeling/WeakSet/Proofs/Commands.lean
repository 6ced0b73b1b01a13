import WeakSet.Session
import WeakSet.Proofs.Crews
import WeakSet.Proofs.Naming

/-!
# Every run is a course of moves

* `balanced_perform`: a command leaves as much due as there was, under every sound runner;
* `sound_runner`: the runners are sound, however deep they let scripts nest;
* `point_carryOutAll`: whatever commands a client has carried out, the world is one that a course
  of moves leads to from the empty one, and nothing is due in it.
-/

namespace WeakSet

open Act Duties

namespace Session

variable {L : Scene} {run : Runner} (hr : run.Sound) {w : World} {D E : Duties} {s : SetId}

/-! ## Names -/

section Names

variable {name : String} {t : Table ElementId}

theorem leads_refuse {K : Reply → Duties} (r : Refusal) (h : D = K (.refused r)) :
    Leads L (refuse r) w D K E :=
  .pure h

theorem find?_of_mem_findAll {names : List String} {es : List ElementId}
    (h : findAll t names = some es) : ∀ e ∈ es, ∃ name, t.find? name = some e := by
  induction names generalizing es with
  | nil =>
    obtain rfl : es = [] := by simpa [findAll] using h.symm
    simp
  | cons n names ih =>
    simp only [findAll, List.mapM_cons, Option.bind_eq_bind, Option.bind_eq_some_iff,
      Option.pure_def, Option.some.injEq] at h
    obtain ⟨e, he, es, hes, rfl⟩ := h
    intro e' he'
    rcases List.mem_cons.mp he' with rfl | he'
    · exact ⟨n, he⟩
    · exact ih hes e' he'

end Names

section With

include hr

theorem balanced_withOwners {names : List String} {body : List ElementId → Act Reply}
    (h : ∀ es w' D', World.Later w w' → (∀ e ∈ es, .hold e ∈ D') → Balanced L (body es) w' D') :
    Balanced L (withOwners run names body) w D := by
  refine .get ?_
  split
  · exact leads_refuse _ rfl
  · rename_i es hes
    refine balanced_borrowing hr (fun hs e he => ?_) fun w' hl => h es w' _ hl fun e he => ?_
    · obtain ⟨name, hn⟩ := find?_of_mem_findAll hes e he
      exact hs.counted.isAlive_of_owner hn
    · exact Multiset.mem_add.mpr (.inl (Multiset.mem_coe.mpr (List.mem_map_of_mem he)))

theorem balanced_withOwner {name : String} {body : ElementId → Act Reply}
    (h : ∀ e w' D', World.Later w w' → Balanced L (body e) w' (.hold e ::ₘ D')) :
    Balanced L (withOwner run name body) w D := by
  refine .get ?_
  split
  · exact leads_refuse _ rfl
  · rename_i e he
    refine balanced_borrowing hr (fun hs e' he' => ?_) fun w' hl => ?_
    · obtain rfl := List.mem_singleton.mp he'
      exact hs.counted.isAlive_of_owner he
    · simpa using h e w' D hl

omit hr in
/-- While a set is used by its name it is in use. -/
theorem balanced_withSet {name : String} {body : SetId → Act Reply}
    (h : ∀ s < w.sets.size, Balanced (L.use (some name) s) (body s) w D) :
    Balanced L (withSet name body) w D := by
  refine .intro fun hw ho => .get ?_
  split
  · exact leads_refuse _ rfl
  · rename_i s hn
    have hlive : w.isLive s := hw.housed.live _ (Table.mem_of_find? hn)
    have hs : w.Serves (some name, s) := ⟨hlive, hn⟩
    exact (h s (World.lt_size_of_isLive hlive)).mono (L.le_use _ s) (ho.use hs)

omit hr in
theorem balanced_withChannel {name : String} {body : ChannelId → Act Reply}
    (h : ∀ c < w.channels.size, Balanced L (body c) w D) :
    Balanced L (withChannel name body) w D := by
  refine .intro fun hs _ => .get ?_
  split
  · exact leads_refuse _ rfl
  · rename_i c hn
    exact h c (hs.formed.named.channels _ (Table.mem_of_find? hn))

omit hr in
theorem balanced_withTicket {name : String} {body : Ticket → Act Reply}
    (h : ∀ t, w.Issued t → Balanced L (body t) w D) : Balanced L (withTicket name body) w D := by
  refine .intro fun hw _ => .get ?_
  split
  · exact leads_refuse _ rfl
  · rename_i t ht
    exact h t (hw.formed.named.tickets _ (Table.mem_of_find? ht))

end With

theorem exec_withSet {name : String} (h : w.setNames.find? name = some s)
    (body : SetId → Act Reply) : (withSet name body).exec w = (body s).exec w := by
  rw [withSet, exec_get_bind, h]

theorem exec_counts (inScript : Bool) {owner : String} {e : ElementId}
    (h : w.owners.find? owner = some e) : (perform run inScript (.counts owner)).exec w =
      (.ok (.counts (w.strong e) (w.watchers e).length), w) := by
  rw [perform, exec_get_bind, h]
  rfl

/-! ## Cursors by name -/

section Cursors

/-- A step of a cursor that is out of reach meanwhile, and the reply to it. The step may leave the
cursor at an element only where the set shows its elements. -/
theorem balanced_withCursor {α : Type} {step : Cursor → Act (Cursor.Step α)}
    {body : Cursor → α → Act Reply} {G : α → Duties}
    (hstep : ∀ c w', World.Later w w' → w'.Suits c →
      Leads L (step c) w' D (fun x => x.due G + D) D)
    (hsame : ∀ c, Yields (step c) fun x => x.cursor.set = c.set)
    (hcurrent : ∀ c w' x w'', w'.Point D → w'.Suits c → (step c).exec w' = (.ok x, w'') →
      (w'.collection c.set).settings.kind ≠ .weak → x.cursor.current = none)
    (hbody : ∀ c a w', Leads L (body c a) w' (G a + D) (fun _ => D) D) :
    Balanced L (withCursor name step body) w D := by
  refine .intro fun hs ho => .get ?_
  split
  · exact leads_refuse _ rfl
  · rename_i c hc
    have htake : Course L (w, D) (w.takeCursor name c, D) := course_takeCursor hs ho
    have hl := htake.later hs.sane
    have hsuits : (w.takeCursor name c).Suits c :=
      (hs.formed.named.cursors _ (Table.mem_of_find? hc)).later hl
    refine .change htake (.bind (hstep c _ hl hsuits) fun x w₁ hx h₁ => ?_)
    have hreply : Leads L (do body x.cursor (← settle x.outcome)) w₁ (x.due G + D)
        (fun _ => D) D := by
      refine .bind (K := fun a => G a + D) (.settle ?_) fun a w₂ _ _ => hbody _ a w₂
      unfold Cursor.Step.due
      rcases x.outcome with p | a
      · exact Multiset.zero_add D
      · rfl
    refine .attempt hreply fun r w₂ _ h₂ => ?_
    rw [due_same]
    have hsame : x.cursor.set = c.set := hsame c _ _ _ hx
    have hsuits' : (w.takeCursor name c).Suits x.cursor := by
      refine ⟨hsame ▸ hsuits.set, fun hcur => ?_⟩
      rw [hsame]
      by_contra hk
      rw [hcurrent c _ x w₁ (htake.point hs) hsuits hx hk] at hcur
      cases hcur
    refine .intro fun hs₂ ho₂ => .change (course_returnCursor hs₂ ho₂ ?_ ?_)
      (.settle (due_same D r).symm)
    · exact hsuits'.later (h₁.trans h₂)
    · rw [hsame]
      exact ho.spares_of_cursor hc

end Cursors

/-! ## Elements -/

section Elements

/-- An element becomes the property of a new owner, or stays with whoever holds it. -/
theorem leads_ownAs (name : String) (e : ElementId) :
    Leads L (ownAs name e) w (.hold e ::ₘ D)
      (fun b => if b then D else .hold e ::ₘ D) E := by
  intro _ _
  rw [ownAs, exec_update]
  rcases h : w.owners.find? name with _ | e'
  · exact .single (.own h)
  · exact .refl

theorem find?_of_ownAs {name : String} {e : ElementId} {w' : World}
    (h : (ownAs name e).exec w = (.ok true, w')) : w'.owners.find? name = some e := by
  rw [ownAs, exec_update] at h
  split at h
  · simp at h
  · obtain ⟨-, rfl⟩ := Prod.mk.injEq .. ▸ h
    rw [Table.find?_put, if_pos rfl]

theorem leads_ownAs_free {name : String} {e : ElementId} (h : w.owners.find? name = none) :
    Leads L (ownAs name e) w (.hold e ::ₘ D) (fun _ => D) E := by
  intro _ _
  rw [ownAs, exec_update, h]
  exact .single (.own h)

omit hr in
/-- An element is made if its owner has none yet. -/
theorem exec_newElement {owner : String} (hn : w.owners.find? owner = none) (v : Value)
    (onDrop onEqual : Option Script) : (newElement owner v onDrop onEqual).exec w =
      (.ok .done, { (w.create ⟨⟨v, owner⟩, onDrop, onEqual⟩).2 with
        owners := w.owners.put owner w.cells.size }) := by
  have hn' : (w.create ⟨⟨v, owner⟩, onDrop, onEqual⟩).2.owners.find? owner = none := hn
  rw [newElement, exec_get_bind, hn]
  refine (exec_bind_ok (exec_update _ w) _).trans ?_
  rw [exec_bind, exec_discard, ownAs, exec_update, hn']
  rfl

omit hr in
theorem onEqual_newElement {owner : String} (hn : w.owners.find? owner = none) (v : Value)
    (onDrop onEqual : Option Script) :
    ((newElement owner v onDrop onEqual).exec w).2.onEqual w.cells.size = onEqual := by
  rw [exec_newElement hn, World.onEqual, World.create, Array.getElem?_push_size]
  rfl

theorem balanced_newElement (owner : String) (v : Value) (onDrop onEqual : Option Script) :
    Balanced L (newElement owner v onDrop onEqual) w D := by
  refine .get ?_
  split
  · exact leads_refuse _ rfl
  · rename_i h
    exact .update (.single (.create _)) (.bind (.discard (leads_ownAs_free h)) fun _ _ _ _ =>
      .pure rfl)

theorem balanced_newElements (xs : List (String × Value)) : Balanced L (newElements xs) w D := by
  induction xs generalizing w with
  | nil => exact .pure rfl
  | cons x xs ih =>
    refine .bind (balanced_newElement x.1 x.2 none none) fun r w' _ _ => ?_
    split
    · exact ih
    · exact .pure rfl

theorem leads_takeOwners (os : List String) :
    Leads L (takeOwners os) w D (fun r => holds r.1 + D) E := by
  induction os generalizing w D with
  | nil => exact .pure (Multiset.zero_add D).symm
  | cons o os ih =>
    refine .get ?_
    split
    · exact .pure (Multiset.zero_add D).symm
    · rename_i e h
      refine .change (.single (.disown h)) (.bind ih fun r _ _ _ => .pure ?_)
      rw [holds_cons, Multiset.cons_add, Multiset.add_cons]

theorem balanced_enqueueSaved (c : ChannelId) (names : List String) :
    Balanced L (enqueueSaved c names) w D := by
  induction names generalizing w with
  | nil => exact .pure rfl
  | cons name names ih =>
    exact balanced_withTicket fun t ht => .change (.single (.post c ht)) ih

theorem balanced_save (name : Option String) {t : Ticket} (ht : w.Issued t) :
    Balanced L (save name t) w D := by
  unfold save
  split
  · exact .pure rfl
  · refine .intro fun hs ho => .last (.change (.single (.rename w.walking _ ?_)) (.pure rfl))
    refine (hs.wellNamed ho).channels hs.formed.named.channels _ fun x hx => ?_
    rcases Table.mem_put hx with rfl | hx
    · exact ht
    · exact hs.formed.named.tickets x hx

include hr

theorem balanced_dropOwners (os : List String) : Balanced L (dropOwners run os) w D := by
  induction os generalizing w with
  | nil => exact .pure rfl
  | cons o os ih =>
    refine .get ?_
    split
    · exact leads_refuse _ rfl
    · rename_i e h
      exact .change (.single (.disown h)) (.bind (leads_release hr e) fun _ _ _ _ => ih)

theorem balanced_dropOwnersTogether (os : List String) :
    Balanced L (dropOwnersTogether run os) w D := by
  refine .bind (leads_takeOwners os) fun r w₁ _ _ => .bind (leads_releaseAll hr _) fun _ _ _ _ => ?_
  split
  · exact .pure rfl
  · exact leads_refuse _ rfl

theorem leads_showElements (es : List ElementId) :
    Leads L (showElements run s es) w (holds es + D) (fun _ => D) D :=
  balanced_holding hr (.last (.look (.pure rfl)))

theorem leads_showNext (keep : Option String) (e : ElementId) :
    Leads L (showNext run keep s e) w (.hold e ::ₘ D) (fun _ => D) D := by
  refine .look ?_
  split
  · exact .bind (leads_release hr e) fun _ _ _ _ => .pure rfl
  · refine .bind (leads_ownAs _ e) fun b w' _ _ => ?_
    cases b with
    | true => exact .pure rfl
    | false => exact .bind (leads_release hr e) fun _ _ _ _ => leads_refuse _ rfl

/-- The record in hand is taken, if there is one, with the reference to its element. -/
theorem balanced_keepRecord (owner : String) : Balanced L (keepRecord run owner) w D := by
  unfold keepRecord
  refine .bind (K := fun r? => holds (r?.bind Record.last).toList + D) ?_ fun r? w₁ _ _ => ?_
  · intro _ _
    rw [exec_update]
    rcases h : w.hands with _ | ⟨_ | r, hands⟩
    · simpa [due] using Relation.ReflTransGen.refl
    · simpa [due] using Relation.ReflTransGen.refl
    · exact .single (.takeRecord h)
  split
  · exact leads_refuse _ (holds_toList_none D)
  · rename_i r
    rw [Option.bind_some]
    split
    · rename_i h
      rw [h]
      exact .pure (holds_toList_none D)
    · rename_i e h
      rw [h, holds_toList_some]
      refine .bind (leads_ownAs _ e) fun b w₂ _ _ => ?_
      cases b with
      | true => exact .pure rfl
      | false => exact .bind (leads_release hr e) fun _ _ _ _ => leads_refuse _ rfl

end Elements

/-! ## Sets -/

section Sets

variable {name : String}

theorem balanced_nameSet (hl : L.Leaves name) (hs : w.Serves (none, s)) (hsp : L.Spares s) :
    Balanced L (nameSet name s) w D :=
  .intro fun hw ho => .change (course_nameSet hw ho hs hsp hl) (.pure rfl)

/-- A set is made and gets a name. -/
theorem balanced_constructNamed (hl : L.Leaves name) (b : Blueprint) {channel : Option ChannelId}
    (hc : ∀ c ∈ channel, c < w.channels.size) :
    Balanced L (do nameSet name (← construct b channel)) w D :=
  .intro fun hw ho => .bind (leads_construct b hc) fun _ _ hx _ => by
    obtain ⟨rfl, hs⟩ := serves_of_construct hw.formed.named hx
    exact balanced_nameSet hl hs (Scene.spares_of_not_uses ho.not_uses_size)

theorem balanced_buildWith (hl : L.Leaves name) (plan : Plan Script) {channel : Option ChannelId}
    (hc : ∀ c ∈ channel, c < w.channels.size) : Balanced L (buildWith name plan channel) w D := by
  unfold buildWith
  split
  · exact .pure rfl
  · exact balanced_constructNamed hl _ hc

theorem balanced_build (hl : L.Leaves name) (plan : Plan Script) :
    Balanced L (build name plan) w D := by
  unfold build
  split
  · exact balanced_buildWith hl plan (by simp)
  · exact balanced_withChannel fun c hc => balanced_buildWith hl plan (by simpa using hc)

theorem balanced_ofOwners (hr : run.Sound) (hl : L.Leaves name) (owners : List String)
    (sized : Bool) (listener : Listener Script) :
    Balanced L (ofOwners run name owners sized listener) w D :=
  balanced_withOwners hr fun _ _ _ _ he =>
    .intro fun hw ho => .bind (balanced_constructOf hr _ he) fun _ _ hx _ => by
      obtain ⟨rfl, hs⟩ := serves_of_constructOf hr hw he hx
      exact balanced_nameSet hl hs (Scene.spares_of_not_uses ho.not_uses_size)

theorem balanced_dropSet (name : String) (hL : L.used = []) : Balanced L (dropSet name) w D := by
  refine .intro fun hw _ => .get ?_
  split
  · exact leads_refuse _ rfl
  · rename_i s hn
    exact .of_exec (b := pure Reply.done) rfl (course_dropSet hw hL hn) (.pure rfl)

theorem balanced_predicate (hr : run.Sound) (keep : Face → Bool) (on : List (String × Script))
    (e : ElementId) : Balanced L (predicate run s keep on e) w D := by
  refine .look (.look ?_)
  cases (w.collection s).isUnordered
  on_goal 1 => refine .note rfl ?_
  all_goals
    split
    · exact .pure rfl
    · exact .bind (hr _ _ _ _ _) fun _ _ _ _ => .pure rfl

end Sets

/-! ## Commands -/

theorem balanced_withGated (name : String) (f : Channel → Channel)
    (hf : ∀ c w, Course L (w, D) ({ w with channels := w.channels.modify c f }, D)) :
    Balanced L (withGated name f) w D := by
  refine balanced_withChannel fun c _ => .get ?_
  split
  · exact leads_refuse _ rfl
  · split
    · exact leads_refuse _ rfl
    · exact .change (hf c w) (.pure rfl)

section Perform

include hr

theorem balanced_withWanted {wanted : Wanted} {body : Query → Act Reply}
    (h : ∀ q w' D', World.Later w w' → Balanced L (body q) w' D') :
    Balanced L (withWanted run wanted body) w D := by
  unfold withWanted
  split
  · exact h _ w D (.refl w)
  · exact balanced_withOwner hr fun e w' D' hl => h _ w' _ hl

theorem balanced_withAllWanted {wanted : WantedAll} {body : List Query → Act Reply}
    (h : ∀ qs w' D', World.Later w w' → Balanced L (body qs) w' D') :
    Balanced L (withAllWanted run wanted body) w D := by
  unfold withAllWanted
  split
  · exact h _ w D (.refl w)
  · exact balanced_withOwners hr fun es w' D' hl _ => h _ w' _ hl

omit hr in
/-- What is done under a name for a set that is free. -/
theorem balanced_ifFree {name : String} {a : Act Reply} (ha : L.Leaves name → Balanced L a w D) :
    Balanced L (do if ← isFreeForSet name then a else refuse .nameTaken) w D := by
  refine .intro fun _ ho => .look ?_
  split
  · rename_i hn
    exact ha (ho.leaves (Option.isNone_iff_eq_none.mp hn))
  · exact leads_refuse _ rfl

omit hr in
/-- A ticket is saved and the reply. -/
theorem balanced_replyTicket (saveAs : Option String) {t : Ticket} (ht : w.Issued t) :
    Balanced L (do save saveAs t; return Reply.ticket t) w D :=
  .bind (balanced_save _ ht) fun _ _ _ _ => .pure rfl

omit hr in
theorem balanced_newChannel (name : String) (kind : ChannelKind) :
    Balanced L (do
      let c ← update (·.newChannel kind)
      change fun w => { w with channelNames := w.channelNames.put name c }
      return Reply.done) w D := by
  refine .update (.single (.newChannel kind)) (.intro fun hs ho => ?_)
  refine .change (.single (.rename _ _ ((hs.wellNamed ho).channels (fun x hx => ?_) _
    hs.formed.named.tickets))) (.pure rfl)
  rcases Table.mem_put hx with rfl | hx
  · simp [World.newChannel]
  · exact hs.formed.named.channels x hx

omit hr in
theorem balanced_forgetChannel (name : String) :
    Balanced L (do
      change fun w => { w with channelNames := w.channelNames.erase name }
      return Reply.done) w D :=
  .intro fun hs ho => .change (.single (.rename _ _ ((hs.wellNamed ho).channels
    (fun x hx => hs.formed.named.channels x (Table.mem_of_mem_erase hx)) _ hs.formed.named.tickets)))
    (.pure rfl)

theorem balanced_newCursor (cursor : String) (hs : s < w.sets.size) (hsp : L.Spares s) :
    Balanced L (do
      let c ← Cursor.start run s
      change (·.putCursor cursor c)
      return Reply.done) w D := by
  refine .bind (Cursor.balanced_start hr hs) fun c w₁ hx h₁ => .intro fun hw ho => ?_
  obtain ⟨rfl, hcur⟩ : c.set = s ∧ c.current = none := Cursor.yields_start s _ _ _ hx
  exact .change (course_putCursor hw ho ⟨hs.trans_le h₁.sets, by simp [hcur]⟩ hsp) (.pure rfl)

/-- A cursor goes to the next element, and the reply is `r` if there is none. -/
theorem balanced_nextOr (cursor : String) (keep : Option String) (r : Reply) :
    Balanced L (withCursor cursor (·.next run) fun c e? =>
      match e? with
      | none => return r
      | some e => showNext run keep c.set e) w D := by
  refine balanced_withCursor (fun c _ _ hc => Cursor.leads_next hr c hc.set)
    (fun c => Cursor.yields_next c)
    (fun c _ _ _ hw hc hx hk => Cursor.current_next hr hw hc.set hk hx) fun c e? w' => ?_
  cases e? with
  | none => exact .pure (holds_toList_none D)
  | some e =>
    rw [Cursor.oneHeld, holds_toList_some]
    exact leads_showNext hr keep e

/-- Every command is balanced. Sets are only dropped where none is in use. -/
theorem balanced_perform (inScript : Bool) (hL : inScript = false → L.used = []) (c : Command) :
    Balanced L (perform run inScript c) w D := by
  cases c with
  | new owner v onDrop onEqual => exact balanced_newElement _ _ _ _
  | newRange stem n first step => exact balanced_newElements _
  | clone owner target =>
    refine balanced_withOwner hr fun e w' D' _ => .bind (leads_ownAs target e) fun b w₁ hx _ => ?_
    cases b with
    | false => exact leads_refuse _ rfl
    | true =>
      exact .intro fun hs _ => .change
        (.single (.acquire (hs.counted.isAlive_of_owner (find?_of_ownAs hx)))) (.pure rfl)
  | drop owners => exact balanced_dropOwners hr _
  | dropElsewhere owners => exact balanced_dropOwnersTogether hr _
  | counts owner =>
    refine .get ?_
    split
    · exact leads_refuse _ rfl
    · exact .last (.look (.pure rfl))
  | sameElement a b =>
    exact balanced_withOwner hr fun x _ _ _ => balanced_withOwner hr fun y _ _ _ => .pure rfl
  | sameValue a b =>
    exact balanced_withOwner hr fun x _ _ _ => balanced_withOwner hr fun y _ _ _ =>
      .map (balanced_sameElements hr x y)
  | forms owner => exact balanced_withOwner hr fun e _ _ _ => .last (.look (.pure rfl))
  | hashElement owner => exact balanced_withOwner hr fun e _ _ _ => .last (.look (.pure rfl))
  | newChannel name kind =>
    refine .get ?_
    split
    · exact leads_refuse _ rfl
    · split
      · exact leads_refuse _ rfl
      · exact balanced_newChannel _ _
  | openChannel name =>
    exact balanced_withGated name _ fun c w => .single (.turn c true)
  | closeChannel name =>
    exact balanced_withGated name _ fun c w => .single (.turn c false)
  | channelLength name => exact balanced_withChannel fun c _ => .last (.look (.pure rfl))
  | drainChannel name =>
    exact balanced_withChannel fun c _ => fun _ _ => .single (.drain c)
  | forgetChannel name => exact balanced_withChannel fun c _ => balanced_forgetChannel name
  | enqueue name tickets => exact balanced_withChannel fun c _ => balanced_enqueueSaved c tickets
  | sameTicket a b =>
    exact balanced_withTicket fun x _ => balanced_withTicket fun y _ => .pure rfl
  | showTicket name => exact balanced_withTicket fun t _ => .pure rfl
  | constants => exact .pure rfl
  | validate settings =>
    rw [perform]
    split <;> exact .pure rfl
  | build name plan =>
    refine balanced_ifFree fun hl => ?_
    split
    · exact leads_refuse _ rfl
    · exact balanced_build hl _
  | newSet name listener => exact balanced_ifFree fun hl => balanced_constructNamed hl _ (by simp)
  | ofOwners name owners sized listener =>
    refine balanced_ifFree fun hl => ?_
    split
    · exact leads_refuse _ rfl
    · exact balanced_ofOwners hr hl _ sized listener
  | dropSet name =>
    rw [perform]
    split
    · exact leads_refuse _ rfl
    · rename_i h
      exact balanced_dropSet name (hL (by simpa using h))
  | sameSet a b =>
    refine balanced_withSet fun x hx => balanced_withSet fun y hy => .look (.look ?_)
    split
    · exact .map (balanced_sameSets hr hx hy)
    · exact leads_refuse _ rfl
  | settings name => exact balanced_withSet fun s _ => .last (.look (.pure rfl))
  | describe name spread =>
    exact balanced_withSet fun s _ => .bind balanced_count fun _ _ _ _ => .last (.look (.pure rfl))
  | hashSet name =>
    exact balanced_withSet fun s hs => .bind (balanced_hashOf hr hs) fun _ _ _ _ => .pure rfl
  | insert name owner saveAs =>
    refine balanced_withSet fun s hs => balanced_withOwner hr fun e w' D' hl => ?_
    refine .intro fun hw ho => .bind (balanced_insert hr (L.uses_use _ s) (by simp)) fun t? w'' hx _ => ?_
    have hw'' := ((balanced_insert hr (L.uses_use _ s) (by simp)).ok hx hw ho).point hw
    split
    · exact .pure rfl
    · have hst := (stored_of_insert hr hw ho (L.uses_use _ s) (by simp) hx).2.2
      exact balanced_replyTicket saveAs (hw''.recorded.issued _ _ hst).1
  | add name owner =>
    exact balanced_withSet fun s hs => balanced_withOwner hr fun e w' D' hl =>
      .map (balanced_add hr (L.uses_use _ s) (by simp))
  | addAll name owners =>
    exact balanced_withSet fun s hs => balanced_withOwners hr fun es w' D' hl he =>
      .map (balanced_addAll hr (L.uses_use _ s) he)
  | contains name wanted =>
    exact balanced_withSet fun s hs => balanced_withWanted hr fun q w' D' hl =>
      .map (balanced_contains hr q (hs.trans_le hl.sets))
  | remove name wanted =>
    exact balanced_withSet fun s hs => balanced_withWanted hr fun q w' D' hl =>
      .map (balanced_remove hr q (hs.trans_le hl.sets))
  | ticketOf name wanted saveAs =>
    refine balanced_withSet fun s hs => balanced_withWanted hr fun q w' D' hl => ?_
    refine .intro fun hw _ => .bind (balanced_ticketOf hr q (hs.trans_le hl.sets)) fun t? w'' hx _ => ?_
    split
    · exact .pure rfl
    · exact balanced_replyTicket saveAs (issued_of_ticketOf hr hw (hs.trans_le hl.sets) hx)
  | containsAll name wanted =>
    exact balanced_withSet fun s hs => balanced_withAllWanted hr fun qs w' D' hl =>
      .map (balanced_containsAll hr qs (hs.trans_le hl.sets))
  | removeAll name wanted =>
    exact balanced_withSet fun s hs => balanced_withAllWanted hr fun qs w' D' hl =>
      .map (balanced_removeAll hr qs (hs.trans_le hl.sets))
  | retainAll name wanted =>
    exact balanced_withSet fun s hs => balanced_withAllWanted hr fun qs w' D' hl =>
      .map (balanced_retainAll hr qs (hs.trans_le hl.sets))
  | retain name modulus remainder on =>
    exact balanced_withSet fun s hs => .map (balanced_retain hr hs fun e _ _ _ =>
      balanced_predicate hr _ on e)
  | retainBy name keep on =>
    exact balanced_withSet fun s hs => .map (balanced_retain hr hs fun e _ _ _ =>
      balanced_predicate hr keep on e)
  | length name => exact balanced_withSet fun s hs => .map (balanced_length hr hs)
  | isEmpty name =>
    exact balanced_withSet fun s hs => .bind (balanced_length hr hs) fun _ _ _ _ => .pure rfl
  | sweep name => exact balanced_withSet fun s hs => .map (balanced_sweep hr hs)
  | clear name => exact balanced_withSet fun s _ => .bind balanced_clear fun _ _ _ _ => .pure rfl
  | toList name | iterate name =>
    exact balanced_withSet fun s hs => .bind (leads_toList hr hs) fun es _ _ _ =>
      leads_showElements hr es
  | newCursor name cursor =>
    refine balanced_withSet fun s hs => .intro fun _ ho => .get ?_
    split
    · exact leads_refuse _ rfl
    · exact balanced_newCursor hr cursor hs
        (ho.spares_of_name (ho.used _ List.mem_cons_self).2)
  | next cursor keep => exact balanced_nextOr hr cursor keep .noElement
  | nextElement cursor keep => exact balanced_nextOr hr cursor keep (.fault .exhausted)
  | removeCurrent cursor =>
    rw [perform]
    refine balanced_withCursor (G := fun _ => 0) (fun c _ _ hc => Cursor.leads_removeCurrent hc)
      (fun c => (Cursor.yields_removeCurrent c).imp fun _ => congrArg Cursor.set)
      (fun c _ _ _ _ _ hx _ => congrArg Cursor.current (Cursor.yields_removeCurrent c _ _ _ hx))
      fun c b w' => ?_
    exact .pure (Multiset.zero_add D)
  | rest cursor =>
    rw [perform]
    refine balanced_withCursor (G := holds) (fun c _ _ hc => Cursor.leads_rest hr c hc.set)
      (fun c => (Cursor.yields_rest c).imp fun _ => And.left)
      (fun c _ _ _ _ _ hx _ => (Cursor.yields_rest c _ _ _ hx).2) fun c es w' => ?_
    exact leads_showElements hr es
  | dropCursor cursor =>
    refine .get ?_
    split
    · exact leads_refuse _ rfl
    · rename_i c hc
      exact .intro fun hw ho => .change (course_dropCursor hw ho hc) (.pure rfl)
  | keep owner => exact balanced_keepRecord hr owner
  | panic set payload =>
    cases set with
    | none => exact leads_refuse _ rfl
    | some name => exact balanced_withSet fun _ _ => leads_refuse _ rfl
  | addTogether name v threads =>
    refine balanced_withSet fun s hs => .look ?_
    split
    · refine .map ?_
      exact balanced_asCrew fun w' hl => balanced_addTogether hr v _ (L.uses_use _ s)
    · exact leads_refuse _ rfl
  | mixTogether threads n concurrency =>
    rw [perform]
    split
    · exact .pure rfl
    · refine .map ?_
      exact balanced_asCrew fun _ _ => balanced_mixTogether hr _ _ _
  | malformed name set why =>
    cases set with
    | none => exact leads_refuse _ rfl
    | some name => exact balanced_withSet fun _ _ => leads_refuse _ rfl

end Perform

/-! ## Scripts -/

section Scripts

omit hr in
/-- A command in a script is answered, and the script goes on. -/
theorem exec_play_cons {act : Command → Act Reply} {role : Role} {c : Command}
    (hc : panicOf? role c = none) (cs : Script) :
    (play act role (c :: cs)).exec w = (play act role cs).exec
      (((act c).exec w).2.note (.answered c.name (replyOf ((act c).exec w).1))) := by
  rw [play, hc]
  rfl

omit hr in
/-- A script goes on from where its first part ends. -/
theorem exec_play_append {act : Command → Act Reply} {role : Role} {cs : Script} {w' : World}
    (h : (play act role cs).exec w = (.ok (), w')) (cs' : Script) :
    (play act role (cs ++ cs')).exec w = (play act role cs').exec w' := by
  induction cs generalizing w with
  | nil =>
    obtain ⟨-, rfl⟩ := exec_pure_eq_ok.mp h
    rfl
  | cons c cs ih =>
    cases hc : panicOf? role c with
    | some p =>
      rw [play, hc] at h
      cases h
    | none =>
      rw [exec_play_cons hc] at h
      rw [List.cons_append, exec_play_cons hc]
      exact ih h

/-- A script is balanced if its commands are. -/
theorem balanced_play {act : Command → Act Reply} {role : Role}
    (h : ∀ c w, Balanced L (act c) w D) (cs : Script) : Balanced L (play act role cs) w D := by
  induction cs generalizing w with
  | nil => exact .pure rfl
  | cons c cs ih =>
    unfold play
    split
    · exact .throw rfl
    · refine .attempt (h c w) fun r w' _ _ => ?_
      rw [due_same]
      exact .note rfl ih

/-- Scripts leave as much due as there was, however deep they nest. -/
theorem sound_runner (n : Nat) : (runner n).Sound := by
  induction n with
  | zero => exact fun L role cs w D => balanced_play (fun _ _ => leads_refuse _ rfl) cs
  | succ n ih =>
    exact fun L role cs w D => balanced_play (fun c _ => balanced_perform ih true (by simp) c) cs

theorem carryOutWithin_eq (depth : Nat) (w : World) (c : Command) :
    carryOutWithin depth w c =
      (replyOf ((perform (runner depth) false c).exec w).1,
        ((perform (runner depth) false c).exec w).2) := rfl

theorem carryOutWithin_of_exec {depth : Nat} {c : Command} {r : Reply} {w' : World}
    (h : (perform (runner depth) false c).exec w = (.ok r, w')) :
    carryOutWithin depth w c = (r, w') := by
  rw [carryOutWithin_eq, h]
  rfl

/-- A reply that is not a panic is the result of the command. -/
theorem exec_of_reply {depth : Nat} {c : Command} {r : Reply} {w' : World}
    (h : carryOutWithin depth w c = (r, w')) (hr : ∀ p, r ≠ .panicked p) :
    (perform (runner depth) false c).exec w = (.ok r, w') := by
  rw [carryOutWithin_eq] at h
  rcases hx : (perform (runner depth) false c).exec w with ⟨p | x, v⟩ <;> rw [hx] at h <;>
    obtain ⟨rfl, rfl⟩ := Prod.mk.injEq .. ▸ h
  · exact absurd rfl (hr p)
  · rfl

/-- A command of the client's is a course of moves. -/
theorem course_carryOutWithin (depth : Nat) {w : World} (hw : w.Point 0) (c : Command) :
    Course .idle (w, 0) ((carryOutWithin depth w c).2, 0) :=
  (balanced_perform (sound_runner depth) false (fun _ => rfl) c).course hw (.idle w)

/-- A run of commands. -/
theorem course_carryOutAll (depth : Nat) {w : World} (hw : w.Point 0) (cs : List Command) :
    Course .idle (w, 0) (carryOutAll depth w cs, 0) := by
  induction cs generalizing w with
  | nil => exact .refl
  | cons c cs ih =>
    have hc := course_carryOutWithin depth hw c
    exact hc.trans (ih (hc.point hw))

/-- A script that starts at a point of a run. -/
theorem course_script (depth : Nat) {w : World} {D : Duties} (hw : w.Point D) (role : Role)
    (script : Script) : Course .idle (w, D) (((runner depth role script).exec w).2, D) :=
  (sound_runner depth .idle role script w D).course hw (.idle w)

end Scripts

end Session

/-! ## Runs -/

namespace Session

/-- Whatever commands a client has carried out, a course of moves leads to the world from the empty
one, and nothing is due in it. -/
theorem point_carryOutAll (depth : Nat) (cs : List Command) :
    (carryOutAll depth .empty cs).Point 0 :=
  (course_carryOutAll depth World.point_empty cs).point World.point_empty

/-- An element comes into a set of one shard and ends. -/
def briefRun : List Command :=
  [.new "x" (.number 1) none none,
    .build "s" (.ok ⟨{ capacity := 4, concurrency := 1 }, none, .constant 7, .scripted [] none false⟩),
    .insert "s" "x" none, .drop ["x"]]

end Session

end WeakSet
