import WeakSet.Proofs.Bulk
import WeakSet.Proofs.Replies

/-!
# What commands about elements, channels and sets answer

Elements and sets come with a name if it is free, and go with it. What happens to the sets when
owners are dropped is the same whether the elements are let go of one by one or together at the end
(`exec_takeOwners`).
-/

namespace WeakSet

open Act Duties World Session

variable {run : Runner} {w w' : World} {D : Duties} {s : SetId} {name : String}
  {es : List ElementId} {P : Reply → Registry → Prop}

/-! ## New elements and owners -/

/-- An element is made if the name of its owner is free. -/
theorem answers_newElement (h : w.Steady D) (v : Value) :
    Answers (newElement name v none none) w D fun a g =>
      (w.owners.find? name).isSome ∧ a = .refused .nameTaken ∧ g = w.registry ∨
      w.owners.find? name = none ∧ a = .done ∧ g = { w.registry with
        owners := w.owners.put name w.cells.size
        face := fun e => if e = w.cells.size then ⟨v, name⟩ else w.face e } := by
  rcases hn : w.owners.find? name with _ | e
  · exact ⟨_, _, exec_newElement hn v none none, h.newElement hn v,
      .inr ⟨rfl, rfl, h.registry_newElement name v⟩⟩
  · refine .get ?_
    rw [hn]
    exact answers_refuse h (.inl ⟨rfl, rfl, rfl⟩)

theorem answers_newElements (xs : List (String × Value)) (h : w.Steady D) :
    Answers (newElements xs) w D fun a g => w.registry.Creates xs a g := by
  induction xs generalizing w with
  | nil => exact answers_pure h (.nil _)
  | cons x xs ih =>
    obtain ⟨r, w', hx, h', ⟨hn, rfl, hr⟩ | ⟨hn, rfl, hr⟩⟩ := answers_newElement h x.2
    · refine .after hx (answers_pure h' ?_)
      rw [hr]
      exact .taken x.2 xs hn
    · refine .after hx ((ih h').mono fun a g hc => .cons hn h.isNewElement ?_)
      rwa [hr] at hc

/-- One new element is made like several. -/
theorem answers_new (h : w.Steady D) (v : Value) :
    Answers (newElement name v none none) w D fun a g => w.registry.Creates [(name, v)] a g := by
  refine (answers_newElement h v).mono ?_
  rintro _ _ (⟨hn, rfl, rfl⟩ | ⟨hn, rfl, rfl⟩)
  · exact .taken v [] hn
  · exact .cons hn h.isNewElement (.nil _)

/-- An element gets one more owner. -/
theorem answers_clone (run : Runner) (h : w.Steady D) (target : String) :
    Answers (withOwner run name fun e => do
      if ← ownAs target e then
        change (·.acquire e)
        return .done
      refuse .nameTaken) w D fun a g => w.registry.WithOwner a g name fun e =>
        if (w.registry.owners.find? target).isSome then w.registry.Refuses a g .nameTaken
        else a = .done ∧
          g = { w.registry with owners := w.registry.owners.put target e } := by
  refine answers_withOwner h (fun e ha h₁ hreg => ?_) fun e r g hp x hx => ?_
  · rcases hn : w.owners.find? target with _ | e'
    · have hown : (ownAs target e).exec (w.acquire e) =
          (.ok true, { w.acquire e with owners := w.owners.put target e }) := by
        have hn' : (w.acquire e).owners.find? target = none := hn
        rw [ownAs, exec_update, hn']
        rfl
      have h₂ : Steady { w.acquire e with owners := w.owners.put target e } D := h₁.own hn
      have ha₂ : World.isAlive { w.acquire e with owners := w.owners.put target e } e :=
        (isAlive_acquire ha e).trans ha
      have hreg₂ := registry_acquire h₂ ha₂
      refine .after hown (.after (exec_change _ _) (answers_pure (h₂.acquire ha₂) ?_))
      have hfree : (w.registry.owners.find? target).isSome = false := by
        show (w.owners.find? target).isSome = false
        rw [hn]
        rfl
      rw [hfree]
      refine ⟨rfl, hreg₂.trans ?_⟩
      rw [← hreg]
      rfl
    · have hown : (ownAs target e).exec (w.acquire e) = (.ok false, w.acquire e) := by
        have hn' : (w.acquire e).owners.find? target = some e' := hn
        rw [ownAs, exec_update, hn']
      have htaken : (w.registry.owners.find? target).isSome = true := by
        show (w.owners.find? target).isSome = true
        rw [hn]
        rfl
      refine .after hown (answers_refuse h₁ ?_)
      rw [htaken]
      exact ⟨rfl, hreg⟩
  · split at hp
    · rw [hp.2]
      exact hx
    · rename_i hn
      rw [hp.2]
      show x ∈ w.owners.put target e
      have hn' : w.owners.find? target = none := Option.not_isSome_iff_eq_none.mp hn
      rw [Table.put, Table.erase_of_find? hn']
      exact List.mem_cons_of_mem _ hx

/-! ## Owners that go -/

/-- The registry after owners were dropped, one after the other or together. -/
theorem Registry.Owned.dropOwners_cons {r : Registry} (h : r.Owned) {o : String} {e : ElementId}
    (hn : r.owners.find? o = some e) (os : List String) :
    r.dropOwners (o :: os) = (r.keep (r.owners.erase o)).dropOwners os := by
  rw [Registry.dropOwners, hn]
  simp only
  rw [h.disown hn]

/-- Owners are dropped, one after the other. -/
theorem answers_dropOwners (run : Runner) (os : List String) (h : w.Steady 0) :
    Answers (dropOwners run os) w 0 fun a g => (a, g) = w.registry.dropOwners os := by
  induction os generalizing w with
  | nil => exact answers_pure h rfl
  | cons o os ih =>
    refine .get ?_
    rcases hn : w.owners.find? o with _ | e
    · refine answers_refuse h ?_
      have hn' : w.registry.owners.find? o = none := hn
      rw [Registry.dropOwners, hn']
    · have h₁ := h.disown hn
      have h₂ := h₁.release
      have hreg : (World.release { w with owners := w.owners.erase o } e).2.registry =
          w.registry.keep (w.owners.erase o) :=
        (h₁.quiet.sheds_release h₁.sane).registry h₂
      refine .after (exec_change _ w) (.after (exec_release run h₁.quiet.scriptless e) ?_)
      refine (ih h₂).mono fun a g hp => ?_
      rw [hp, hreg, h.owned.dropOwners_cons hn]
      rfl

/-- Owners are taken away, and what that comes to once the elements are let go of. -/
theorem exec_takeOwners (os : List String) (h : w.Steady D) (hnd : (w.owners.map Prod.fst).Nodup) :
    ∃ es b owners, (takeOwners os).exec w = (.ok (es, b), { w with owners := owners }) ∧
      Steady { w with owners := owners } (holds es + D) ∧ (∀ x ∈ owners, x ∈ w.owners) ∧
      ∀ r : Registry, r.Owned → r.owners = w.owners →
        r.dropOwners os = (if b then .done else .refused .noOwner, r.keep owners) := by
  have hstop : ∀ (r : Registry), r.Owned → r.owners = w.owners → r.keep w.owners = r :=
    fun r hr ho => by rw [← ho, hr.keep_self]
  induction os generalizing w D with
  | nil =>
    refine ⟨[], true, w.owners, rfl, by simpa using h, fun _ hx => hx, fun r hr ho => ?_⟩
    rw [hstop r hr ho]
    rfl
  | cons o os ih =>
    rcases hn : w.owners.find? o with _ | e
    · have hx : (takeOwners (o :: os)).exec w = (.ok ([], false), w) := by
        rw [takeOwners, exec_get_bind, hn]
        rfl
      refine ⟨[], false, w.owners, hx, by simpa using h, fun _ hx => hx, fun r hr ho => ?_⟩
      rw [hstop r hr ho, Registry.dropOwners, ho, hn]
      rfl
    · have hnd' := Table.nodup_erase hnd o
      obtain ⟨es, b, owners, hx₁, h₁, hsub, hdrop⟩ := ih (h.disown hn) hnd' fun r hr ho => by
        rw [← ho, hr.keep_self]
      refine ⟨e :: es, b, owners, ?_, ?_, fun x hm => ?_, fun r hr ho => ?_⟩
      · rw [takeOwners, exec_get_bind, hn]
        exact (exec_bind_ok (exec_change _ w) _).trans (exec_bind_ok hx₁ _)
      · rw [holds_cons, Multiset.cons_add, ← Multiset.add_cons]
        exact h₁
      · exact Table.mem_of_mem_erase (hsub x hm)
      · rw [hr.dropOwners_cons (by rw [ho, hn]) os, ho, hdrop _ (.keep hnd') rfl]
        rw [Registry.keep_keep hsub]

/-- Owners are dropped together. -/
theorem answers_dropOwnersTogether (run : Runner) (os : List String) (h : w.Steady 0) :
    Answers (dropOwnersTogether run os) w 0 fun a g => (a, g) = w.registry.dropOwners os := by
  obtain ⟨es, b, owners, hx, h₁, -, hdrop⟩ := exec_takeOwners os h h.sane.counted.owners
  obtain ⟨w', hx', h', hs⟩ := h₁.exec_releaseAll run
  have hreg : w'.registry = w.registry.keep owners := hs.registry h'
  refine .after hx (.after hx' ?_)
  have hd := hdrop w.registry h.owned rfl
  rw [hd]
  cases b with
  | true => exact answers_pure h' (by rw [hreg]; rfl)
  | false => exact answers_refuse h' (by rw [hreg]; rfl)

/-! ## Channels -/

/-- Channels may be opened and closed. -/
theorem World.Steady.turn (h : w.Steady D) (c : ChannelId) (isOpen : Bool) :
    Steady { w with channels := w.channels.modify c fun ch => { ch with isOpen := isOpen } } D := by
  have hget : ∀ {α : Type} (f : Channel → α), (∀ ch b, f { ch with isOpen := b } = f ch) → ∀ c',
      ((w.channels.modify c fun ch => { ch with isOpen := isOpen })[c']?).map f =
        (w.channels[c']?).map f := fun f hf c' => by
    rw [Array.getElem?_modify]
    split
    · rw [Option.map_map]
      exact congrArg (Option.map · _) (funext fun ch => hf ch isOpen)
    · rfl
  refine h.moves (.single (.turn (L := .idle) c isOpen)) (h.quiet.tame h.sane
    (.single (.turn (L := .idle) (D := D) c isOpen)) ⟨.of_sets rfl rfl rfl, ⟨rfl, rfl⟩,
      fun _ _ hx => .inl hx, rfl, fun _ => rfl, hget Channel.kind fun _ _ => rfl,
      fun c' t ht => .inl ?_, fun _ hx => .inl hx⟩) h.dealt
  have hp := hget Channel.pending (fun _ _ => rfl) c'
  rwa [pending, hp] at ht

theorem answers_withChannel {body : ChannelId → Act Reply} (h : w.Steady D)
    (hn : P (.refused .noChannel) w.registry)
    (hb : ∀ c < w.channels.size, w.channelNames.find? name = some c → Answers (body c) w D P) :
    Answers (withChannel name body) w D P := by
  refine .get ?_
  rcases hc : w.channelNames.find? name with _ | c
  · exact answers_refuse h hn
  · exact hb c (h.sane.formed.named.channels _ (Table.mem_of_find? hc)) hc

theorem answers_withTicket {body : Ticket → Act Reply} (h : w.Steady D)
    (hn : P (.refused .noTicket) w.registry) (hb : ∀ t, Answers (body t) w D P) :
    Answers (withTicket name body) w D P := by
  refine .get ?_
  rcases w.tickets.find? name with _ | t
  · exact answers_refuse h hn
  · exact hb t

theorem answers_withGated (h : w.Steady D) (isOpen : Bool) :
    Answers (withGated name fun ch => { ch with isOpen := isOpen }) w D
      fun _ g => g = w.registry := by
  unfold withGated
  refine answers_withChannel h rfl fun c _ _ => ?_
  refine .get ?_
  rcases w.channels[c]? with _ | ch
  · exact answers_refuse h rfl
  · rcases hk : ch.kind with _ | _ <;> simp only [hk]
    · exact answers_refuse h rfl
    · exact .after (exec_change _ w) (answers_pure (h.turn c isOpen) rfl)

theorem answers_newChannel (h : w.Steady D) (kind : Except Refusal ChannelKind) :
    Answers (do
      match (← get).channelNames.find? name with
      | some _ => refuse .nameTaken
      | none =>
        match kind with
        | .error why => refuse why
        | .ok kind =>
          let c ← update (·.newChannel kind)
          change fun w => { w with channelNames := w.channelNames.put name c }
          return .done) w D fun _ g => g = w.registry := by
  refine .get ?_
  rcases w.channelNames.find? name with _ | c
  · cases kind with
    | error why => exact answers_refuse h rfl
    | ok kind =>
      have h₁ := h.newChannel kind
      have hsize : (w.newChannel kind).2.channels.size = w.channels.size + 1 :=
        Array.size_push ..
      have hc : ∀ x ∈ w.channelNames.put name w.channels.size,
          x.2 < (w.newChannel kind).2.channels.size := fun x hx => by
        rw [hsize]
        rcases Table.mem_put hx with rfl | hx
        · exact Nat.lt_succ_self _
        · exact Nat.lt_succ_of_lt (h.sane.formed.named.channels x hx)
      exact .after (exec_update _ w) (.after (exec_change _ _)
        (answers_pure (h₁.label hc h₁.sane.formed.named.tickets) (h.registry_newChannel kind)))
  · exact answers_refuse h rfl

theorem answers_forgetChannel (h : w.Steady D) :
    Answers (withChannel name fun _ => do
      change fun w => { w with channelNames := w.channelNames.erase name }
      return .done) w D fun _ g => g = w.registry :=
  answers_withChannel h rfl fun _ _ _ => .after (exec_change _ w) (answers_pure
    (h.label (fun x hx => h.sane.formed.named.channels x (Table.mem_of_mem_erase hx))
      h.sane.formed.named.tickets)
    rfl)

/-! ## Sets -/

/-- Every set that ever was has a queue that no other has. -/
def World.HasOwnQueues (w : World) : Prop :=
  ∀ s < w.sets.size, w.kind? (w.channelOf s) = some .queue ∧
    ∀ s' < w.sets.size, w.channelOf s' = w.channelOf s → s' = s

/-- A set that was just made and has a queue of its own was given one that no set had. -/
theorem World.HasOwnQueues.of_newSet {b : Blueprint} {c : ChannelId} (h : w'.HasOwnQueues)
    (hs : w'.sets = (w.newSet b (some c)).2.sets) (hc : w'.channels = w.channels) :
    w.kind? c = some .queue ∧ ∀ s < w.sets.size, w.channelOf s ≠ c := by
  have hsize : w'.sets.size = w.sets.size + 1 := by rw [hs, size_sets_newSet]
  have hcol : ∀ s, w'.collection s =
      if s = w.sets.size then b.toCollection c else w.collection s := fun s => by
    rw [collection_congr hs, collection_newSet]
  have hnew : w'.channelOf w.sets.size = c := by
    rw [channelOf, hcol, if_pos rfl]
    rfl
  obtain ⟨hk, hu⟩ := h w.sets.size (hsize ▸ Nat.lt_succ_self _)
  rw [hnew] at hk hu
  refine ⟨by rwa [kind?, hc] at hk, fun s hlt he => ?_⟩
  have hold : w'.channelOf s = w.channelOf s := by
    rw [channelOf, hcol, if_neg (Nat.ne_of_lt hlt)]
    rfl
  exact Nat.ne_of_lt hlt (hu s (hsize ▸ Nat.lt_succ_of_lt hlt) (hold.trans he))

/-- A set that was made gets its name. -/
theorem answers_nameSet {r : Registry} {m : Dict} (h : w.Steady D) (hs : w.Serves (none, s))
    (hn : r.sets.find? name = none) (hnew : r.IsNewSet s) (hr : w.registry = r.update s m) :
    Answers (Session.nameSet name s) w D fun a g => r.Founds a g name m := by
  have hnames : w.setNames = r.sets := congrArg Registry.sets hr
  have hfree : w.setNames.find? name = none := by rwa [hnames]
  obtain ⟨h', hr'⟩ := h.nameSet hs hfree
  refine .after (exec_change _ w) (answers_pure h' ⟨s, hnew, rfl, ?_⟩)
  rw [hr', hr, hnames]

/-- A set that was made without elements gets its name. -/
theorem World.Founded.answers (hf : w.Founded D w') (h : w.Steady D)
    (hn : w.setNames.find? name = none) :
    Answers (Session.nameSet name w.sets.size) w' D fun a g => w.registry.Founds a g name Dict.empty := by
  refine answers_nameSet hf.steady hf.serves hn h.isNewSet (hf.registry.trans ?_)
  rw [← h.dict_size]
  exact (w.registry.update_dict _).symm

theorem answers_ifFree {a : Act Reply} (h : w.Steady D)
    (hb : w.setNames.find? name = none → Answers a w D P) :
    Answers (do if ← isFreeForSet name then a else refuse .nameTaken) w D fun r g =>
      w.registry.IfFree r g name (P r g) := by
  refine .after (exec_look _ w) ?_
  have hsets : w.registry.sets = w.setNames := rfl
  unfold Registry.IfFree
  rw [hsets]
  rcases hn : w.setNames.find? name with _ | s
  · exact hb hn
  · exact answers_refuse h ⟨rfl, rfl⟩

theorem answers_newSet (h : w.Steady D) {b : Blueprint} (hl : b.listener.IsPlain)
    (hk : b.settings.kind = .weak) (hn : w.setNames.find? name = none) :
    Answers (do Session.nameSet name (← construct b none)) w D fun a g =>
      w.registry.Founds a g name Dict.empty := by
  obtain ⟨w', hx, hf⟩ := exec_construct h hl hk
  exact .after hx (hf.answers h hn)

theorem answers_newSet_on (h : w.Steady D) {b : Blueprint} {c : ChannelId}
    (hl : b.listener.IsPlain) (hk : b.settings.kind = .weak) (hn : w.setNames.find? name = none)
    (ho : ((do Session.nameSet name (← construct b (some c)) : Act Reply).exec w).2.HasOwnQueues) :
    Answers (do Session.nameSet name (← construct b (some c))) w D fun a g =>
      w.registry.Founds a g name Dict.empty := by
  have hend : ((do Session.nameSet name (← construct b (some c)) : Act Reply).exec w).2 =
      ((w.note (.line (.created b.settings.shardCount b.settings.capacity
        b.settings.kind))).newSet b (some c)).2.nameSet name w.sets.size := rfl
  have hname : ∀ v : World, v.setNames.find? name = none →
      v.nameSet name w.sets.size = { v with setNames := v.setNames.put name w.sets.size } :=
    fun v hv => by rw [World.nameSet, hv]
  rw [hend, hname ((w.note _).newSet b (some c)).2 hn] at ho
  obtain ⟨hc, hu⟩ := ho.of_newSet (w := w) (b := b) (c := c) rfl rfl
  obtain ⟨w', hx, hf⟩ := exec_construct_on h hl hk hc hu
  exact .after hx (hf.answers h hn)

/-- A plan without client code, for a set of weak references. -/
def Plan.IsPlain (plan : Plan Script) : Prop :=
  plan.settings.kind = .weak ∧ plan.listener.IsPlain

theorem answers_build (h : w.Steady D) {plan : Plan Script} (hp : plan.IsPlain)
    (hn : w.setNames.find? name = none)
    (ho : ((Session.build name plan).exec w).2.HasOwnQueues) :
    Answers (Session.build name plan) w D fun a g =>
      plan.channel.isSome ∧ w.registry.Refuses a g .noChannel ∨
        match plan.settings.fault? with
        | some f => a = .fault f ∧ g = w.registry
        | none => w.registry.Founds a g name Dict.empty := by
  have hwith : ∀ channel, (∀ c, channel = some c →
      (Session.build name plan).exec w = (buildWith name plan (some c)).exec w) →
      Answers (buildWith name plan channel) w D fun a g =>
        match plan.settings.fault? with
        | some f => a = .fault f ∧ g = w.registry
        | none => w.registry.Founds a g name Dict.empty := by
    intro channel hc
    unfold buildWith at hc ⊢
    rcases hf : plan.settings.fault? with _ | f
    · simp only [hf] at hc
      cases channel with
      | none => exact answers_newSet h hp.2 hp.1 hn
      | some c =>
        rw [hc c rfl] at ho
        exact answers_newSet_on h hp.2 hp.1 hn ho
    · exact answers_pure h ⟨rfl, rfl⟩
  rcases hch : plan.channel with _ | n
  · rw [Session.build, hch]
    exact (hwith none (by simp)).mono fun _ _ hr => .inr hr
  · have hb : Session.build name plan = withChannel n fun c => buildWith name plan (some c) := by
      rw [Session.build, hch]
    rw [hb]
    refine answers_withChannel h (.inl ⟨rfl, rfl, rfl⟩) fun c _ hc => ?_
    refine (hwith (some c) ?_).mono fun _ _ hr => .inr hr
    rintro _ ⟨⟩
    rw [hb, withChannel, exec_get_bind, hc]

/-- A set is made of elements of owners. -/
theorem answers_ofOwners (hr : run.Sound) (h : w.Steady D) {names : List String} (sized : Bool)
    {listener : Listener Script} (hl : listener.IsPlain) (hn : w.setNames.find? name = none) :
    Answers (Session.ofOwners run name names sized listener) w D fun a g =>
      w.registry.WithOwners a g names fun es =>
        ∃ m, Dict.empty.Extends w.registry.value es m ∧ w.registry.Founds a g name m := by
  refine answers_withOwners h (fun es ha h₁ hreg => ?_) ?_
  · have hl' : (if !sized && listener.isSilent then .scripted [] none false
        else listener : Listener Script).IsPlain := by
      split
      · intro n
        rfl
      · exact hl
    obtain ⟨w₂, hx₂, hf⟩ := exec_construct h₁ (b := ⟨name, { Settings.standard with
      capacity := if sized then min es.length maxCapacity else 0 }, .keyed, false,
      if !sized && listener.isSilent then .scripted [] none false else listener⟩) hl' rfl
    have hhold : ∀ e ∈ es, Duty.hold e ∈ holds es + D := fun e he =>
      Multiset.mem_add.mpr (.inl (Multiset.mem_coe.mpr (List.mem_map_of_mem he)))
    obtain ⟨m, hm, b, w₃, hd, rfl, -⟩ := makes_addAll hr hf.steady hf.serves hhold
    have hreg₂ : w₂.registry = w.registry := hf.registry.trans hreg
    have hempty : w₂.dict (es.foldl World.acquire w).sets.size = Dict.empty := by
      rw [← h₁.dict_size]
      exact congrFun (congrArg Registry.dict hf.registry) _
    have hvalue : w₂.value = w.registry.value :=
      congrArg Registry.value hreg₂
    rw [hempty, hvalue] at hm
    have hnew : w.registry.IsNewSet (es.foldl World.acquire w).sets.size := by
      rw [← hreg]
      exact h₁.isNewSet
    refine .after (exec_bind_ok hx₂ _ |>.trans
      (exec_bind_ok (exec_attempt_eq_ok.mpr hd.exec) _)) ?_
    refine (answers_nameSet (r := w.registry) hd.steady (hd.framed.stays.serves hf.serves) hn hnew
      ?_).mono fun _ _ hfo => ⟨_, hm, hfo⟩
    rw [hd.registry hf.steady, hreg₂]
  · rintro es r g ⟨m, -, s, -, -, rfl⟩ x hx
    exact hx

theorem answers_dropSet (h : w.Steady D) :
    Answers (Session.dropSet name) w D fun a g => w.registry.WithSet a g name fun s =>
      a = .done ∧ g = { w.registry with
        sets := w.registry.sets.erase name
        cursors := w.registry.cursors.filter fun x => x.2.1 ≠ s } := by
  refine answers_withSet h fun s hn => ?_
  exact ⟨.done, w.dropped name s, rfl, h.dropped hn, rfl, h.registry_dropped hn⟩

end WeakSet
