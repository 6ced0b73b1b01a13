import WeakSet.Proofs.Commands
import WeakSet.Proofs.Custody

/-!
# Commands on sets keep conditions

A `Remit` says what commands may touch: sets, the names of their cursors, and the scripts of predicates.
If every step on such sets keeps a condition where code stands in some way, and so do the steps by which
commands borrow elements, keep cursors and save tickets, then so does every command that the remit covers
and that begins there (`Condition.Honoured.perform`). It panics only where an operation of one of the sets
may.
-/

namespace WeakSet

open Act Session

/-- What commands may touch. -/
structure Remit where
  sets : SetId → Prop
  cursorNames : String → Prop
  scripts : Script → Prop

/-- Whether the set under a name may be touched. -/
def Remit.Finds (R : Remit) (name : String) (w : World) : Prop :=
  ∀ s, w.setNames.find? name = some s → R.sets s

/-- Whether a cursor may be touched, and its set. -/
def Remit.Walks (R : Remit) (name : String) (w : World) : Prop :=
  R.cursorNames name ∧ ∀ c, w.cursors.find? name = some c → R.sets c.set

/-- Whether a command is an operation on sets, and touches nothing else. -/
def Remit.Covers (R : Remit) (c : Command) (w : World) : Prop :=
  match c with
  | .sameSet a b => R.Finds a w ∧ R.Finds b w
  | .settings name | .describe name _ | .hashSet name | .insert name _ _ | .add name _
  | .addAll name _ | .contains name _ | .remove name _ | .ticketOf name _ _ | .containsAll name _
  | .removeAll name _ | .retainAll name _ | .length name | .isEmpty name | .sweep name
  | .clear name | .toList name | .iterate name => R.Finds name w
  | .retain name _ _ on | .retainBy name _ on => R.Finds name w ∧ ∀ x ∈ on, R.scripts x.2
  | .newCursor name cursor => R.Finds name w ∧ R.cursorNames cursor
  | .next cursor _ | .nextElement cursor _ | .removeCurrent cursor | .rest cursor
  | .dropCursor cursor => R.Walks cursor w
  | _ => False

/-- Whether an operation on the sets of a remit may panic. -/
def Remit.fails (R : Remit) (A : Condition) (n : Standing) : Prop :=
  ∃ s, R.sets s ∧ A.fails n s

/-- A condition that operations on the sets of a remit keep, and the other steps of commands, where code
stands as `n` says when they begin. -/
structure Condition.Honoured (A : Condition) (run : Runner) (R : Remit)
    (T : SetId → Ticket → Prop) (n : Standing) : Prop extends A.Lends run where
  upheld : ∀ {s}, R.sets s → A.Upheld run s (T s) n
  borrow : ∀ {F w name e}, w.owners.find? name = some e → A n F w → A n (e ::ₘ F) (w.acquire e)
  remark : ∀ {F w x}, Entry.isRemark x → A n F w → A n F (w.note x)
  predicate : ∀ {F script}, R.scripts script → Sustains A.panics (A n F) (run .predicate script)
  own : ∀ {F w name e}, w.owners.find? name = none → A n (e ::ₘ F) w →
    A n F { w with owners := w.owners.put name e }
  save : ∀ {F w ts}, A n F w → A n F { w with tickets := ts }
  takeCursor : ∀ {F w name c}, R.cursorNames name → w.cursors.find? name = some c → A n F w →
    A n F (w.takeCursor name c)
  returnCursor : ∀ {F w name c}, R.cursorNames name → R.sets c.set → A n F w →
    A n F (w.returnCursor name c)
  putCursor : ∀ {F w name c}, R.cursorNames name → R.sets c.set → A n F w →
    A n F (w.putCursor name c)
  dropCursor : ∀ {F w name c}, R.cursorNames name → w.cursors.find? name = some c → A n F w →
    A n F (w.dropCursor name c)

namespace Condition.Honoured

variable {A : Condition} {run : Runner} {R : Remit} {T : SetId → Ticket → Prop} {n : Standing}
  (hA : A.Honoured run R T n) {F : Multiset ElementId} {s : SetId} {d : Prop}

section Names

omit hA

theorem refuse (r : Refusal) {E : World → Prop} :
    Ensures (A n F) (refuse r) (fun _ => A n F) E :=
  .pure fun _ hw => hw

/-- The reply to a result. -/
theorem reply {α : Type} {a : Act α} (f : α → Reply) (ha : Sustains d (A n F) a) :
    Sustains d (A n F) (f <$> a) :=
  .map ha

end Names

include hA

/-- The references that come with several owners. -/
theorem lend {es : List ElementId} {w : World}
    (h : ∀ e ∈ es, ∃ name, w.owners.find? name = some e) (hw : A n F w) :
    A n ((es : Multiset ElementId) + F) (es.foldl World.acquire w) := by
  induction es generalizing w F with
  | nil => simpa using hw
  | cons e es ih =>
    obtain ⟨name, hn⟩ := h e (by simp)
    rw [← Multiset.cons_coe, Multiset.cons_add, ← Multiset.add_cons]
    exact ih (fun e' he' => h e' (by simp [he'])) (hA.borrow hn hw)

/-- An act that borrows elements of owners. -/
theorem borrowing {es : List ElementId} {a : Act Reply}
    (ha : Sustains d (A n ((es : Multiset ElementId) + F)) a) :
    Ensures (fun w => A n F w ∧ ∀ e ∈ es, ∃ name, w.owners.find? name = some e)
      (borrowing run es a) (fun _ => A n F) fun w => A n F w ∧ d :=
  .change (fun _ hw => hA.lend hw.2 hw.1) (hA.balanced_holding ha)

theorem withOwners {names : List String} {body : List ElementId → Act Reply}
    (h : ∀ es F, Sustains d (A n F) (body es)) :
    Sustains d (A n F) (withOwners run names body) := by
  refine .get fun v => ?_
  cases hes : findAll v.owners names with
  | none => exact .left (refuse _)
  | some es =>
    refine .imp (hA.borrowing (h es _)) fun w hw => ⟨hw.1, fun e he => ?_⟩
    obtain ⟨rfl⟩ := hw.2
    exact find?_of_mem_findAll hes e he

theorem withOwner {name : String} {body : ElementId → Act Reply}
    (h : ∀ e F, Sustains d (A n (e ::ₘ F)) (body e)) :
    Sustains d (A n F) (withOwner run name body) := by
  refine .get fun v => ?_
  cases he : v.owners.find? name with
  | none => exact .left (refuse _)
  | some e =>
    have hbody : Sustains d (A n (([e] : List ElementId) + F)) (body e) := h e F
    refine .imp (hA.borrowing hbody) fun w hw => ⟨hw.1, fun e' he' => ?_⟩
    obtain ⟨rfl⟩ := hw.2
    obtain rfl := List.mem_singleton.mp he'
    exact ⟨name, he⟩

theorem withWanted {wanted : Wanted} {body : Query → Act Reply}
    (h : ∀ q F, Sustains d (A n F) (body q)) : Sustains d (A n F) (withWanted run wanted body) := by
  cases wanted with
  | value v => exact h _ _
  | owner o => exact hA.withOwner fun _ _ => h _ _

theorem withAllWanted {wanted : WantedAll} {body : List Query → Act Reply}
    (h : ∀ qs F, Sustains d (A n F) (body qs)) :
    Sustains d (A n F) (withAllWanted run wanted body) := by
  cases wanted with
  | values vs => exact h _ _
  | owners os => exact hA.withOwners fun es => h _

omit hA in
/-- A set is found under a name, and is one of the remit. -/
theorem withSetOf {name : String} {body : SetId → Act Reply} {P : World → Prop}
    (h : ∀ s, R.sets s → Ensures P (body s) (fun _ => A n F) fun w => A n F w ∧ d)
    (hP : ∀ w, P w → A n F w) :
    Ensures (fun w => P w ∧ R.Finds name w) (withSet name body) (fun _ => A n F)
      fun w => A n F w ∧ d := by
  refine .get fun v => ?_
  cases hs : v.setNames.find? name with
  | none => exact .pure fun w hw => hP w hw.1.1
  | some s =>
    refine .imp (.fact fun hr => h s hr) fun w hw => ⟨hw.1.1, ?_⟩
    obtain ⟨rfl⟩ := hw.2
    exact hw.1.2 s hs

omit hA in
theorem fails_of (hs : R.sets s) : A.fails n s → R.fails A n :=
  fun h => ⟨s, hs, h⟩

theorem withSet {name : String} {body : SetId → Act Reply}
    (h : ∀ s, A.Upheld run s (T s) n → Sustains (A.fails n s) (A n F) (body s)) :
    Ensures (fun w => A n F w ∧ R.Finds name w) (withSet name body) (fun _ => A n F)
      fun w => A n F w ∧ R.fails A n :=
  withSetOf (fun s hr => (h s (hA.upheld hr)).weaken (fails_of hr)) fun _ hw => hw

theorem ownAs (name : String) (e : ElementId) {E : World → Prop} :
    Ensures (A n (e ::ₘ F)) (ownAs name e) (fun b => A n (if b then F else e ::ₘ F)) E := by
  intro w hw
  rw [Session.ownAs, exec_update]
  rcases h : w.owners.find? name with _ | e'
  · exact hA.own h hw
  · exact hw

theorem saveAs (name : Option String) (t : Ticket) {E : World → Prop} :
    Ensures (A n F) (Session.save name t) (fun _ => A n F) E := by
  unfold Session.save
  split
  · exact .pure fun _ hw => hw
  · exact .last (.change (fun _ hw => hA.save hw) (.pure fun _ hw => hw))

theorem showElements (es : List ElementId) :
    Ensures (A n ((es : Multiset ElementId) + F)) (showElements run s es) (fun _ => A n F)
      fun w => A n F w ∧ d :=
  hA.balanced_holding (.last (.look fun _ => .pure fun _ hw => hw.1))

theorem showNext (keep : Option String) (e : ElementId) {E : World → Prop} :
    Ensures (A n (e ::ₘ F)) (showNext run keep s e) (fun _ => A n F) E := by
  refine .look fun reply => .left ?_
  cases keep with
  | none => exact .bind (hA.releaseOne e) fun _ => .pure fun _ hw => hw
  | some name =>
    refine .bind (hA.ownAs name e) fun b => ?_
    cases b with
    | true => exact .pure fun _ hw => hw
    | false => exact .bind (hA.releaseOne e) fun _ => refuse _

/-- A step of a cursor that is out of reach meanwhile, and the reply to it. -/
theorem withCursor {α : Type} {name : String}
    {step : Cursor → Act (Cursor.Step α)} {body : Cursor → α → Act Reply}
    {refs : α → Multiset ElementId}
    (hstep : ∀ c, A.Upheld run c.set (T c.set) n → Ensures (A n F) (step c)
      (Upheld.Stepped A (A.fails n c.set) n F refs) fun w => A n F w ∧ R.fails A n)
    (hsame : ∀ c, Yields (step c) fun x => x.cursor.set = c.set)
    (hbody : ∀ c a, Ensures (A n (refs a + F)) (body c a) (fun _ => A n F)
      fun w => A n F w ∧ R.fails A n) :
    Ensures (fun w => A n F w ∧ R.Walks name w) (withCursor name step body) (fun _ => A n F)
      fun w => A n F w ∧ R.fails A n := by
  refine .get fun v => ?_
  cases hc : v.cursors.find? name with
  | none => exact .pure fun w hw => hw.1.1
  | some c =>
    refine .imp (.fact fun hn : R.cursorNames name => ?_) fun w hw => ⟨hw, hw.1.2.1⟩
    refine .change (R := fun w => A n F w ∧ R.sets c.set) (fun w hw => ?_) (.fact fun hset => ?_)
    · obtain ⟨rfl⟩ := hw.2
      exact ⟨hA.takeCursor hn hc hw.1.1, hw.1.2.2 c hc⟩
    refine .bind ((hstep c (hA.upheld hset)).yields (hsame c)) fun x => .fact fun hx => ?_
    have hreply : Ensures (Upheld.Stepped A (A.fails n c.set) n F refs x)
        (do body x.cursor (← settle x.outcome)) (fun _ => A n F) fun w => A n F w ∧ R.fails A n :=
      .bind (Ensures.settle.weaken (fails_of hset)) fun a => hbody _ a
    have hback (w : World) (hw : A n F w) : A n F (w.returnCursor name x.cursor) :=
      hA.returnCursor hn (hx ▸ hset) hw
    refine .attempt hreply fun r => ?_
    cases r with
    | ok _ => exact .change hback (.pure fun _ hw => hw)
    | error p => exact .fact fun hd => .change hback (.throw fun _ hw => ⟨hw, hd⟩)

theorem predicateScript (keep : Face → Bool) {on : List (String × Script)}
    (hon : ∀ x ∈ on, R.scripts x.2) (e : ElementId) :
    Sustains A.panics (A n F) (Session.predicate run s keep on e) := by
  refine .look fun f => .left (.look fun hidden => .left ?_)
  cases hidden
  on_goal 1 => refine .note (fun _ hw => hA.remark rfl hw) ?_
  all_goals
    split
    · exact .pure fun _ hw => hw
    · rename_i script hs
      exact .bind (hA.predicate (hon _ (Table.mem_of_find? hs))) fun _ => .pure fun _ hw => hw

/-- A ticket is saved and the reply. -/
theorem replyTicket (name : Option String) (t : Ticket) {E : World → Prop} :
    Ensures (A n F) (do Session.save name t; return Reply.ticket t) (fun _ => A n F) E :=
  .bind (hA.saveAs name t) fun _ => .pure fun _ hw => hw

/-- A cursor goes to the next element, and the reply is `r` if there is none. -/
theorem nextOr {cursor : String} (keep : Option String) (r : Reply) :
    Ensures (fun w => A n F w ∧ R.Walks cursor w)
      (Session.withCursor cursor (·.next run) fun c e? =>
        match e? with
        | none => return r
        | some e => Session.showNext run keep c.set e)
      (fun _ => A n F) fun w => A n F w ∧ R.fails A n := by
  refine hA.withCursor (fun c hc => hc.next) (fun c => Cursor.yields_next c) fun c e? => ?_
  cases e? with
  | none => exact .pure fun w hw => (Multiset.zero_add F) ▸ hw
  | some e => exact hA.showNext keep e

/-- Every command that the remit covers keeps the condition. -/
theorem perform (inScript : Bool) (c : Command) :
    Ensures (fun w => A n F w ∧ R.Covers c w) (Session.perform run inScript c) (fun _ => A n F)
      fun w => A n F w ∧ R.fails A n := by
  cases c with
  | sameSet a b =>
    refine .imp (P := fun w => (A n F w ∧ R.Finds b w) ∧ R.Finds a w)
      (withSetOf (fun x hx => withSetOf (fun y hy => .look fun _ => .look fun _ => ?_) fun _ hw => hw)
        fun _ hw => hw.1) fun w hw => ⟨⟨hw.1, hw.2.2⟩, hw.2.1⟩
    refine .imp (P := A n F) ?_ fun w hw => hw.1.1
    split
    · exact reply _ (((hA.upheld hx).sameSets (hA.upheld hy)).weaken
        (Or.rec (fails_of hx) (fails_of hy)))
    · exact refuse _
  | settings name => exact hA.withSet fun s _ => .last (.look fun _ => .pure fun _ hw => hw.1)
  | describe name spread =>
    exact hA.withSet fun s hs => .bind hs.count fun _ => .last (.look fun _ =>
      .pure fun _ hw => hw.1)
  | hashSet name =>
    exact hA.withSet fun s hs => .bind hs.hashOf fun _ => .pure fun _ hw => hw
  | insert name owner saveAs =>
    refine hA.withSet fun s hs => hA.withOwner fun e F => .bind (hs.insert e) fun t? => ?_
    split
    · exact .pure fun _ hw => hw
    · exact hA.replyTicket saveAs _
  | add name owner =>
    exact hA.withSet fun s hs => hA.withOwner fun e F => reply _ (hs.add e)
  | addAll name owners =>
    exact hA.withSet fun s hs => hA.withOwners fun es F => reply _ (hs.addAll es)
  | contains name wanted =>
    exact hA.withSet fun s hs => hA.withWanted fun q F => reply _ (hs.contains q)
  | remove name wanted =>
    exact hA.withSet fun s hs => hA.withWanted fun q F => reply _ (hs.remove q)
  | ticketOf name wanted saveAs =>
    refine hA.withSet fun s hs => hA.withWanted fun q F => .bind (hs.ticketOf q) fun t? => ?_
    split
    · exact .pure fun _ hw => hw
    · exact hA.replyTicket saveAs _
  | containsAll name wanted =>
    exact hA.withSet fun s hs => hA.withAllWanted fun qs F => reply _ (hs.containsAll qs)
  | removeAll name wanted =>
    exact hA.withSet fun s hs => hA.withAllWanted fun qs F => reply _ (hs.removeAll qs)
  | retainAll name wanted =>
    exact hA.withSet fun s hs => hA.withAllWanted fun qs F => reply _ (hs.retainAll qs)
  | retain name modulus remainder on =>
    refine .imp (.fact fun hon : ∀ x ∈ on, R.scripts x.2 => hA.withSet fun s hs =>
      reply _ (hs.retain fun F e => hA.predicateScript _ hon e)) fun w hw => ?_
    exact ⟨⟨hw.1, hw.2.1⟩, hw.2.2⟩
  | retainBy name keep on =>
    refine .imp (.fact fun hon : ∀ x ∈ on, R.scripts x.2 => hA.withSet fun s hs =>
      reply _ (hs.retain fun F e => hA.predicateScript keep hon e)) fun w hw => ?_
    exact ⟨⟨hw.1, hw.2.1⟩, hw.2.2⟩
  | length name => exact hA.withSet fun s hs => reply _ hs.length
  | isEmpty name => exact hA.withSet fun s hs => .bind hs.length fun _ => .pure fun _ hw => hw
  | sweep name => exact hA.withSet fun s hs => reply _ hs.sweep
  | clear name => exact hA.withSet fun s hs => .bind hs.clear fun _ => .pure fun _ hw => hw
  | toList name | iterate name =>
    exact hA.withSet fun s hs => .bind hs.toList fun es => hA.showElements es
  | newCursor name cursor =>
    refine .imp (.fact fun hn : R.cursorNames cursor => withSetOf (fun s hr => .get fun v => ?_)
      fun _ hw => hw) fun w hw => ⟨⟨hw.1, hw.2.1⟩, hw.2.2⟩
    split
    · exact .left (refuse _)
    · refine .bind ((hA.upheld hr).start.weaken (fails_of hr)).left fun c => .fact ?_
      rintro rfl
      exact .change (R := A n F) (fun w hw => hA.putCursor hn hr hw) (.pure fun _ hw => hw)
  | next cursor keep => exact hA.nextOr keep .noElement
  | nextElement cursor keep => exact hA.nextOr keep (.fault .exhausted)
  | removeCurrent cursor =>
    rw [Session.perform]
    refine hA.withCursor (fun c hc => hc.removeCurrent)
      (fun c => (Cursor.yields_removeCurrent c).imp fun _ => congrArg Cursor.set) fun c b => ?_
    exact .pure fun w hw => (Multiset.zero_add F) ▸ hw
  | rest cursor =>
    rw [Session.perform]
    exact hA.withCursor (fun c hc => hc.rest) (fun c => (Cursor.yields_rest c).imp fun _ => And.left) fun c es =>
      hA.showElements es
  | dropCursor cursor =>
    refine .get fun v => ?_
    cases h : v.cursors.find? cursor with
    | none => exact .pure fun w hw => hw.1.1
    | some c =>
      refine .change (R := A n F) (fun w hw => ?_) (.pure fun _ hw => hw)
      obtain ⟨rfl⟩ := hw.2
      exact hA.dropCursor hw.1.2.1 h hw.1.1
  | _ => exact fun w hw => hw.2.elim

end Condition.Honoured

end WeakSet
