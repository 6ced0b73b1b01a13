import WeakSet.Proofs.Belongings
import WeakSet.Proofs.SetReplies

/-!
# What runs of commands come to

Commands that bring no code of the client's, leave the channels of sets alone and use one thread are
*plain*. A plain command in a steady world answers, leaves the world steady, and what it answers and
what a client has to know afterwards is what the registry allows (`answers_perform`). So a run of
plain commands is a run of the registry (`Session.sets_are_maps`).
-/

namespace WeakSet

open Act Duties World Session

/-- Commands without client code that leave the channels of sets alone and use one thread. -/
def Command.IsPlain : Command → Prop
  | .new _ _ onDrop onEqual => onDrop = none ∧ onEqual = none
  | .build _ plan => ∀ p, plan = .ok p → p.IsPlain
  | .newSet _ listener | .ofOwners _ _ _ listener => listener.IsPlain
  | .retain _ _ _ on | .retainBy _ _ on => on = []
  | .drainChannel _ | .enqueue .. | .addTogether .. | .mixTogether .. => False
  | _ => True

variable {run : Runner} {w w' : World} {D : Duties} {name : String} {P : Reply → Registry → Prop}

/-! ## Commands that change nothing -/

theorem Registry.WithSet.same {r g : Registry} {a : Reply}
    (h : r.WithSet a g name fun _ => g = r) : g = r := by
  unfold Registry.WithSet at h
  split at h
  · exact h.2
  · exact h

theorem Registry.WithOwner.same {r g : Registry} {a : Reply} {P : ElementId → Prop}
    (h : r.WithOwner a g name fun e => g = r ∧ P e) : g = r := by
  unfold Registry.WithOwner at h
  split at h
  · exact h.2
  · exact h.1

theorem Registry.owners_of_becomes {r g : Registry} {a : Reply} {s : SetId} {m : Dict}
    (h : r.Becomes a g s m) : g.owners = r.owners := by
  rw [h.1]
  rfl

theorem Registry.owners_of_inserts {r g : Registry} {a no : Reply} {s : SetId} {e : ElementId}
    {yes : Ticket → Reply} (h : r.Inserts a g s e yes no) : g.owners = r.owners := by
  unfold Registry.Inserts at h
  split at h
  · rw [h.2]
  · obtain ⟨t, -, -, rfl⟩ := h
    rfl

theorem passes_withSet {body : SetId → Act Reply} (h : w.Steady D)
    (hb : ∀ s, w.registry.sets.find? name = some s →
      Answers (body s) w D fun _ g => g = w.registry) :
    Answers (withSet name body) w D fun _ g => g = w.registry :=
  (answers_withSet h hb).mono fun _ _ hg => hg.same

theorem answers_look {f : World → Reply} (h : w.Steady D) (hP : P (f w) w.registry) :
    Answers (look f) w D P :=
  ⟨f w, w, rfl, h, hP⟩

theorem exec_sameElements (hw : w.Unhooked) (a b : ElementId) :
    (sameElements run a b).exec w = (.ok (w.value a = w.value b), w) :=
  exec_matchesQuery hw (.element b) a

/-! ## Commands about elements -/

section Seen

variable {x y : String}

theorem answers_counts (h : w.Steady 0) (name : String) :
    Answers (perform run false (.counts name)) w 0 fun a g =>
      w.registry.WithOwner a g name fun e =>
        g = w.registry ∧ ∃ n, a = .counts (w.registry.owners.countP (·.2 = e)) n := by
  refine .get ?_
  rcases hn : w.owners.find? name with _ | e
  · exact answers_refuse h (.of_none hn ⟨rfl, rfl⟩)
  · exact ⟨_, w, rfl, h, .of_some hn ⟨rfl, _, congrArg (Reply.counts · _) (h.strong_eq e)⟩⟩

/-- The element of an owner is looked at. -/
theorem answers_seen {body : ElementId → Act Reply} {P : ElementId → Reply → Prop}
    (h : w.Steady D) (hb : ∀ e w₁ D₁, w₁.Steady D₁ → w₁.registry = w.registry →
      Answers (body e) w₁ D₁ fun a g => g = w₁.registry ∧ P e a) :
    Answers (withOwner run x body) w D fun a g =>
      w.registry.WithOwner a g x fun e => g = w.registry ∧ P e a :=
  answers_withOwner h (fun e _ h₁ hreg => hreg ▸ hb e _ _ h₁ hreg) <| by
    rintro e a g ⟨rfl, -⟩ o ho
    exact ho

/-- The elements of two owners are looked at. -/
theorem answers_seenTwo {body : ElementId → ElementId → Act Reply}
    {P : ElementId → ElementId → Reply → Prop} (h : w.Steady D)
    (hb : ∀ e e' w₁ D₁, w₁.Steady D₁ → w₁.registry = w.registry →
      Answers (body e e') w₁ D₁ fun a g => g = w₁.registry ∧ P e e' a) :
    Answers (withOwner run x fun e => withOwner run y (body e)) w D fun a g =>
      w.registry.WithOwner a g x fun e => w.registry.WithOwner a g y fun e' =>
        g = w.registry ∧ P e e' a :=
  answers_withOwner h
    (fun e _ h₁ hreg => hreg ▸ answers_seen h₁ fun e' w₂ D₂ h₂ hreg' =>
      hb e e' w₂ D₂ h₂ (hreg'.trans hreg))
    fun e a g hg o ho => by
      rw [Registry.WithOwner.same hg]
      exact ho

end Seen

/-! ## Commands about one set -/

section Asked

variable (h : w.Steady D)

include h

/-- A set is asked for what equals a value or the element of an owner. -/
theorem answers_ofWanted {body : SetId → Query → Act Reply}
    {P : SetId → Value → Reply → Registry → Prop} {wanted : Wanted}
    (hb : ∀ s q w₁ D₁, w₁.Steady D₁ → w₁.registry = w.registry → w₁.Serves (some name, s) →
      Answers (body s q) w₁ D₁ (P s (q.target w₁)))
    (hP : ∀ s v a g, P s v a g → g.owners = w.owners) :
    Answers (withSet name fun s => withWanted run wanted (body s)) w D fun a g =>
      w.registry.WithSet a g name fun s => w.registry.WithWanted a g wanted fun v => P s v a g :=
  answers_withSet h fun s hn => answers_withWanted h
    (fun q w₁ D₁ h₁ e => hb s q w₁ D₁ h₁ e (h₁.serves_of_name (e ▸ hn))) (hP s)

theorem answers_ofAllWanted {body : SetId → List Query → Act Reply}
    {P : SetId → List Value → Reply → Registry → Prop} {wanted : WantedAll}
    (hb : ∀ s qs w₁ D₁, w₁.Steady D₁ → w₁.registry = w.registry → w₁.isLive s →
      Answers (body s qs) w₁ D₁ (P s (qs.map fun q => q.target w₁)))
    (hP : ∀ s vs a g, P s vs a g → g.owners = w.owners) :
    Answers (withSet name fun s => withAllWanted run wanted (body s)) w D fun a g =>
      w.registry.WithSet a g name fun s =>
        w.registry.WithAllWanted a g wanted fun vs => P s vs a g :=
  answers_withSet h fun s hn => answers_withAllWanted h
    (fun qs w₁ D₁ h₁ e => hb s qs w₁ D₁ h₁ e (h₁.isLive_of_name (e ▸ hn))) (hP s)

/-- A set is given the element of an owner. -/
theorem answers_ofOwner {owner : String} {body : SetId → ElementId → Act Reply}
    {P : SetId → ElementId → Reply → Registry → Prop}
    (hb : ∀ s e w₁ D₁, w₁.Steady D₁ → w₁.registry = w.registry → w₁.Serves (some name, s) →
      .hold e ∈ D₁ → Answers (body s e) w₁ D₁ (P s e))
    (hP : ∀ s e a g, P s e a g → g.owners = w.owners) :
    Answers (withSet name fun s => withOwner run owner (body s)) w D fun a g =>
      w.registry.WithSet a g name fun s => w.registry.WithOwner a g owner fun e => P s e a g := by
  refine answers_withSet h fun s hn => answers_withOwner h (fun e _ h₁ hreg => ?_)
    fun e a g hp x hx => ?_
  · exact hb s e _ _ h₁ hreg (h₁.serves_of_name (hreg ▸ hn)) (Multiset.mem_cons_self _ _)
  · rwa [hP s e a g hp]

theorem answers_ofAllOwners {owners : List String} {body : SetId → List ElementId → Act Reply}
    {P : SetId → List ElementId → Reply → Registry → Prop}
    (hb : ∀ s es w₁ D₁, w₁.Steady D₁ → w₁.registry = w.registry → w₁.Serves (some name, s) →
      (∀ e ∈ es, .hold e ∈ D₁) → Answers (body s es) w₁ D₁ (P s es))
    (hP : ∀ s es a g, P s es a g → g.owners = w.owners) :
    Answers (withSet name fun s => withOwners run owners (body s)) w D fun a g =>
      w.registry.WithSet a g name fun s => w.registry.WithOwners a g owners fun es => P s es a g := by
  refine answers_withSet h fun s hn => answers_withOwners h (fun es _ h₁ hreg => ?_)
    fun es a g hp x hx => ?_
  · exact hb s es _ _ h₁ hreg (h₁.serves_of_name (hreg ▸ hn)) fun e he =>
      Multiset.mem_add.mpr (.inl (Multiset.mem_coe.mpr (List.mem_map_of_mem he)))
  · rwa [hP s es a g hp]

end Asked

/-! ## Commands -/

/-- A plain command answers as the registry allows. -/
theorem answers_perform (hr : run.Sound) (h : w.Steady 0) (c : Command) (hc : c.IsPlain)
    (ho : ((perform run false c).exec w).2.HasOwnQueues) :
    Answers (perform run false c) w 0 fun a g => w.registry.Allows a g c := by
  cases c with
  | new owner v onDrop onEqual =>
    obtain ⟨rfl, rfl⟩ := hc
    exact answers_new h v
  | newRange stem n first step => exact answers_newElements _ h
  | clone owner target => exact answers_clone run h target
  | drop owners => exact answers_dropOwners run owners h
  | dropElsewhere owners => exact answers_dropOwnersTogether run owners h
  | counts owner => exact answers_counts h owner
  | sameElement x y =>
    exact answers_seenTwo (P := fun e e' a => Registry.Says a (e = e')) h fun e e' w₁ _ h₁ _ =>
      answers_pure h₁ ⟨rfl, _, rfl, decide_eq_true_iff⟩
  | sameValue x y =>
    refine answers_seenTwo
      (P := fun e e' a => Registry.Says a (w.registry.value e = w.registry.value e')) h
      fun e e' w₁ _ h₁ hreg => ⟨_, w₁, ?_, h₁, rfl, _, rfl, decide_eq_true_iff⟩
    have hf : w₁.face = w.face := congrArg Registry.face hreg
    have hx : (sameElements run e e').exec w₁ = (.ok (w₁.value e = w₁.value e'), w₁) :=
      exec_sameElements (Scriptless.unhooked h₁.quiet.scriptless) e e'
    rw [exec_map, hx, World.value, World.value, hf]
    rfl
  | forms owner =>
    exact answers_seen (P := fun e a => a = .forms (w.registry.face e)) h fun e w₁ _ h₁ hreg =>
      answers_look h₁ ⟨rfl, congrArg Reply.forms (congrFun (congrArg Registry.face hreg) e)⟩
  | hashElement owner =>
    refine answers_seen (P := fun e a => a = .hash (valueHash (w.registry.value e))) h
      fun e w₁ _ h₁ hreg => answers_look h₁ ⟨rfl, ?_⟩
    have hf : w₁.face = w.face := congrArg Registry.face hreg
    rw [World.value, hf]
    rfl
  | newChannel name kind => exact answers_newChannel h kind
  | openChannel name => exact answers_withGated h true
  | closeChannel name => exact answers_withGated h false
  | channelLength name => exact answers_withChannel h rfl fun c _ _ => answers_look h rfl
  | drainChannel name => exact hc.elim
  | forgetChannel name => exact answers_forgetChannel h
  | enqueue name tickets => exact hc.elim
  | sameTicket a b =>
    exact answers_withTicket h rfl fun x => answers_withTicket h rfl fun y => answers_pure h rfl
  | showTicket name => exact answers_withTicket h rfl fun t => answers_pure h rfl
  | constants => exact answers_pure h rfl
  | validate settings =>
    rw [perform]
    split <;> exact answers_pure h rfl
  | build name plan =>
    refine answers_ifFree h fun hn => ?_
    cases plan with
    | error why => exact answers_refuse h ⟨rfl, rfl⟩
    | ok plan =>
      refine answers_build h (hc plan rfl) hn ?_
      have hx : (perform run false (.build name (.ok plan))).exec w =
          (Session.build name plan).exec w := by
        refine (exec_bind_ok (exec_look _ w) _).trans ?_
        simp only [hn]
        rfl
      rwa [hx] at ho
  | newSet name listener => exact answers_ifFree h fun hn => answers_newSet h hc rfl hn
  | ofOwners name owners sized listener =>
    refine answers_ifFree h fun hn => ?_
    cases owners with
    | error why => exact answers_refuse h ⟨rfl, rfl⟩
    | ok owners => exact answers_ofOwners hr h sized hc hn
  | dropSet name => exact answers_dropSet h
  | sameSet x y =>
    refine answers_withSet h fun s hs => answers_withSet h fun s' hs' => ?_
    refine .after (exec_look _ w) (.after (exec_look _ w) ?_)
    split
    · exact (answers_sameSets hr h (h.isLive_of_name hs) (h.isLive_of_name hs')).mono fun _ _ => .inr
    · exact answers_refuse h (.inl ⟨rfl, rfl⟩)
  | settings name => exact passes_withSet h fun s _ => answers_look h rfl
  | describe name spread =>
    exact passes_withSet h fun s _ =>
      .after (exec_count (by simp [h.quiet.unlocked])) (answers_look h rfl)
  | hashSet name => exact answers_withSet h fun s hs => answers_hashOf hr h (h.isLive_of_name hs)
  | insert name owner saveAs =>
    refine answers_ofOwner h (fun s e w₁ D₁ h₁ hreg hv he => ?_) ?_
    · exact hreg ▸ answers_insert hr h₁ hv he saveAs
    · exact fun s e a g hi => Registry.owners_of_inserts hi
  | add name owner =>
    refine answers_ofOwner h (fun s e w₁ D₁ h₁ hreg hv he => ?_) ?_
    · exact hreg ▸ answers_add hr h₁ hv he
    · exact fun s e a g hi => Registry.owners_of_inserts hi
  | addAll name owners =>
    refine answers_ofAllOwners h (fun s es w₁ D₁ h₁ hreg hv he => ?_) ?_
    · exact hreg ▸ answers_addAll hr h₁ hv he
    · rintro s es a g ⟨m, -, hb⟩
      exact Registry.owners_of_becomes hb
  | contains name wanted =>
    refine answers_ofWanted h (fun s q w₁ D₁ h₁ hreg hv => ?_) ?_
    · exact hreg ▸ answers_contains hr h₁ hv.isLive q
    · rintro s v a g ⟨rfl, -⟩
      rfl
  | remove name wanted =>
    refine answers_ofWanted h (fun s q w₁ D₁ h₁ hreg hv => ?_) ?_
    · exact hreg ▸ answers_remove hr h₁ hv.isLive q
    · exact fun s v a g hb => Registry.owners_of_becomes hb
  | ticketOf name wanted saveAs =>
    refine answers_ofWanted h (fun s q w₁ D₁ h₁ hreg hv => ?_) ?_
    · exact hreg ▸ answers_ticketOf hr h₁ hv q saveAs
    · rintro s v a g ⟨rfl, -⟩
      rfl
  | containsAll name wanted =>
    refine answers_ofAllWanted h (fun s qs w₁ D₁ h₁ hreg hl => ?_) ?_
    · exact hreg ▸ answers_containsAll hr h₁ hl qs
    · rintro s vs a g ⟨rfl, -⟩
      rfl
  | removeAll name wanted =>
    refine answers_ofAllWanted h (fun s qs w₁ D₁ h₁ hreg hl => ?_) ?_
    · exact hreg ▸ answers_removeAll hr h₁ hl qs
    · exact fun s vs a g hb => Registry.owners_of_becomes hb
  | retainAll name wanted =>
    refine answers_ofAllWanted h (fun s qs w₁ D₁ h₁ hreg hl => ?_) ?_
    · exact hreg ▸ answers_retainAll hr h₁ hl qs
    · intro s vs a g hb
      split at hb
      · rw [hb.2]
        rfl
      · exact Registry.owners_of_becomes hb
  | retain name modulus remainder on =>
    obtain rfl := hc
    exact answers_withSet h fun s hn =>
      answers_retain hr h (h.isLive_of_name hn) (Face.isCongruent modulus remainder)
  | retainBy name keep on =>
    obtain rfl := hc
    exact answers_withSet h fun s hn => answers_retain hr h (h.isLive_of_name hn) keep
  | length name => exact answers_withSet h fun s hn => answers_length hr h (h.isLive_of_name hn)
  | isEmpty name => exact answers_withSet h fun s hn => answers_isEmpty hr h (h.isLive_of_name hn)
  | sweep name => exact answers_withSet h fun s hn => answers_sweep hr h (h.isLive_of_name hn)
  | clear name => exact answers_withSet h fun s hn => answers_clear h
  | toList name | iterate name =>
    exact answers_withSet h fun s hn => answers_toList hr h (h.isLive_of_name hn)
  | newCursor name cursor => exact answers_withSet h fun s hn => answers_newCursor hr h hn
  | next cursor keep => exact answers_next hr h keep .noElement
  | nextElement cursor keep => exact answers_next hr h keep (.fault .exhausted)
  | removeCurrent cursor => exact answers_removeCurrent h
  | rest cursor => exact answers_rest hr h
  | dropCursor cursor => exact answers_dropCursor h
  | keep owner =>
    refine .after (x := none) ?_ (answers_refuse h rfl)
    rw [exec_update, h.quiet.idle]
  | panic set payload =>
    cases set with
    | none => exact answers_refuse h rfl
    | some name => exact passes_withSet h fun _ _ => answers_refuse h rfl
  | addTogether name v threads => exact hc.elim
  | mixTogether threads n concurrency => exact hc.elim
  | malformed name set why =>
    cases set with
    | none => exact answers_refuse h rfl
    | some name => exact passes_withSet h fun _ _ => answers_refuse h rfl

/-! ## Runs -/

/-- What is there between commands: finite maps whose entries are of elements of their value that
have an owner, and whose tickets name one entry each. -/
structure Registry.Proper (r : Registry) : Prop where
  finite : ∀ s, ∃ vs, (r.dict s).Lists vs
  value : ∀ s v e t, r.dict s v = some (e, t) → r.value e = v
  owned : ∀ s v e t, r.dict s v = some (e, t) → r.owners.any (·.2 = e)
  ticket : ∀ s v e t s' v' e', r.dict s v = some (e, t) → r.dict s' v' = some (e', t) →
    s = s' ∧ v = v' ∧ e = e'

theorem World.Steady.proper (h : w.Steady 0) : w.registry.Proper where
  finite s := ⟨_, h.quiet.lists s⟩
  value s v e t hm := (h.quiet.dict_eq_some.mp hm).value
  owned := h.owned.entries
  ticket s v e t s' v' e' hm hm' := by
    obtain ⟨rfl, ⟨x, hx, rfl⟩, -, rfl⟩ := h.quiet.dict_eq_some.mp hm
    obtain ⟨rfl, ⟨x', hx', rfl⟩, -, rfl⟩ := h.quiet.dict_eq_some.mp hm'
    rw [hx] at hx'
    obtain rfl := Option.some.inj hx'
    exact ⟨rfl, rfl, rfl⟩

/-- In the empty world a client knows of nothing. -/
theorem World.registry_empty : World.empty.registry = Registry.empty := by
  have hd : World.empty.dict = fun _ => Dict.empty := by
    funext s
    refine dict_ext steady_empty.quiet.distinct steady_empty.quiet.weak fun v e t => ?_
    refine iff_of_false ?_ (by simp [Dict.empty])
    rintro ⟨-, ⟨x, hx, -⟩, -⟩
    rw [handle?_empty] at hx
    cases hx
  exact Registry.ext rfl rfl rfl rfl hd

namespace Session

/-- Commands in order, each with its reply. -/
def transcript (depth : Nat) (w : World) : List Command → List (Command × Reply)
  | [] => []
  | c :: cs => (c, (carryOutWithin depth w c).1) :: transcript depth (carryOutWithin depth w c).2 cs

/-- A plain command is allowed by the registry and keeps a world steady. -/
theorem allows_carryOutWithin (depth : Nat) (h : w.Steady 0) {c : Command} (hc : c.IsPlain)
    (ho : (carryOutWithin depth w c).2.HasOwnQueues) :
    (carryOutWithin depth w c).2.Steady 0 ∧
      w.registry.Allows (carryOutWithin depth w c).1 (carryOutWithin depth w c).2.registry c := by
  obtain ⟨a, w', hx, h', ha⟩ := answers_perform (sound_runner depth) h c hc ho
  rw [carryOutWithin_of_exec hx]
  exact ⟨h', ha⟩

/-- What holds of plain commands one by one holds of a run of them. -/
theorem runs_carryOutAll (depth : Nat) (cs : List Command) (h : w.Steady 0)
    (hc : ∀ c ∈ cs, c.IsPlain) (ho : ∀ n, (carryOutAll depth w (cs.take n)).HasOwnQueues) :
    (carryOutAll depth w cs).Steady 0 ∧
      w.registry.Runs (transcript depth w cs) (carryOutAll depth w cs).registry := by
  induction cs generalizing w with
  | nil => exact ⟨h, .nil _⟩
  | cons c cs ih =>
    obtain ⟨h₁, ha⟩ := allows_carryOutWithin depth h (hc c List.mem_cons_self) (ho 1)
    obtain ⟨h₂, hr⟩ := ih h₁ (fun c' hc' => hc c' (List.mem_cons_of_mem c hc')) fun n => ho (n + 1)
    exact ⟨h₂, .cons ha hr⟩

/-- Whatever plain commands a client carries out, each set with a queue of its own: the replies and
what there is afterwards are those of finite maps from values to an element and a ticket. -/
theorem sets_are_maps (depth : Nat) (cs : List Command) (hc : ∀ c ∈ cs, c.IsPlain)
    (ho : ∀ n, (carryOutAll depth .empty (cs.take n)).HasOwnQueues) :
    Registry.empty.Runs (transcript depth .empty cs) (carryOutAll depth .empty cs).registry ∧
      (carryOutAll depth .empty cs).registry.Proper := by
  obtain ⟨h, hr⟩ := runs_carryOutAll depth cs steady_empty hc ho
  rw [World.registry_empty] at hr
  exact ⟨hr, h.proper⟩

/-- Two sets have an element in common that ends, so that another one of its value may come in. -/
def commonRun : List Command :=
  [.new "x" (.number 1) none none, .new "y" (.number 1) none none,
    .newChannel "c" (.ok .queue),
    .build "s" (.ok ⟨{ capacity := 4, concurrency := 1 }, some "c", .constant 7, .silent⟩),
    .newSet "t" .silent, .add "s" "x", .add "s" "y", .add "t" "x", .drop ["x"],
    .contains "t" (.value (.number 1)), .add "s" "y", .length "s"]

instance (w : World) : Decidable w.HasOwnQueues :=
  inferInstanceAs (Decidable (∀ s < w.sets.size, w.kind? (w.channelOf s) = some .queue ∧
    ∀ s' < w.sets.size, w.channelOf s' = w.channelOf s → s' = s))

theorem sets_are_maps_common :
    (transcript 0 .empty commonRun).map Prod.snd =
        [.done, .done, .done, .done, .done, .flag true, .flag false, .flag true, .done,
          .flag false, .flag true, .number 1] ∧
      Registry.empty.Runs (transcript 0 .empty commonRun)
        (carryOutAll 0 .empty commonRun).registry ∧
      (carryOutAll 0 .empty commonRun).registry.Proper := by
  have hc : ∀ c ∈ commonRun, c.IsPlain := by
    simp [commonRun, Command.IsPlain, Plan.IsPlain, Listener.IsPlain, Listener.script?]
  have hstart : ∀ n ≤ 12, (carryOutAll 0 .empty (commonRun.take n)).HasOwnQueues := by
    decide +kernel
  have ho : ∀ n, (carryOutAll 0 .empty (commonRun.take n)).HasOwnQueues := fun n => by
    rcases Nat.le_total n 12 with hn | hn
    · exact hstart n hn
    · have hall : commonRun.take n = commonRun.take 12 := by
        rw [List.take_of_length_le hn, List.take_of_length_le (Nat.le_refl 12)]
      rw [hall]
      exact hstart 12 (Nat.le_refl 12)
  exact ⟨by decide +kernel, sets_are_maps 0 commonRun hc ho⟩

end Session

end WeakSet
