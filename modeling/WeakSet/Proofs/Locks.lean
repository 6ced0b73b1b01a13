import WeakSet.Proofs.Barred
import WeakSet.Proofs.Clients

/-!
# Locks are given back

Whatever code does, the sets of which a shard is locked afterwards are those of which one was before,
and the journal has at most more than before (`Session.returns_runner`). So every act of an operation
that enters a set finds it as the operation found it, and an operation of a set that nobody has locked
is not refused: unless code of the client's lets a panic out it has a result
(`Session.answers_unlocked`).
-/

namespace WeakSet

open Act

/-- The locks are those that code under way holds, and the journal begins with `j`. Code of the client's
panics only if `p`, and an entry is refused only where the code under way has locked the set. -/
def Condition.locking (j : List Entry) (p : Prop) : Condition where
  Holds n _ w := w.entered = n.locks ∧ j <+: w.journal.toList
  panics := p
  bars n s := s ∈ n.locks

/-- Scripts give back all locks and only add to a journal that begins with `j`. They panic only if
`p`. -/
def Runner.Returns (run : Runner) (j : List Entry) (p : Prop) : Prop :=
  ∀ n F role script, Sustains p (Condition.locking j p n F) (run role script)

variable {run : Runner} {p : Prop} {j : List Entry} {n n' : Standing} {F F' : Multiset ElementId}
  {w w' : World} {s : SetId}

namespace World

/-- A step that leaves the locks and adds to the journal. -/
theorem locking_step (h : Condition.locking j p n F w) (he : w'.entered = w.entered)
    (hj : w.journal.toList <+: w'.journal.toList) : Condition.locking j p n F' w' :=
  ⟨he.trans h.1, h.2.trans hj⟩

theorem locking_note {x : Entry} (h : Condition.locking j p n F w) :
    Condition.locking j p n F (w.note x) :=
  locking_step h rfl (prefix_push w x)

theorem locking_takeOut {t : Ticket} {d : Departure} (h : Condition.locking j p n F w) :
    Condition.locking j p n F (w.takeOut t d).2 := by
  rcases takeOut_cases w t d with ⟨-, e⟩ | ⟨x, -, e⟩ <;> rw [e]
  · exact h
  · exact locking_step h rfl (prefix_push w _)

theorem locking_takeAll {k : Nat} (h : Condition.locking j p n F w) :
    Condition.locking j p n F (w.takeAll s k).2 := by
  rw [takeAll_snd]
  exact locking_step h rfl (by rw [Array.toList_append]; exact List.prefix_append ..)

theorem locking_unmake (s : SetId) (h : Condition.locking j p n F w) :
    Condition.locking j p n F (w.unmake s) := by
  rw [unmake_eq]
  exact ⟨h.1, h.2⟩

theorem locking_release {e : ElementId} (h : Condition.locking j p n F w) :
    Condition.locking j p n F' (w.release e).2 := by
  obtain ⟨l, hl, -⟩ := journal_release w e
  exact locking_step h (by rw [release_eq]) (by rw [hl]; exact List.prefix_append _ _)

end World

open World

section Run

variable (hr : run.Returns j p)

include hr

theorem lends_locking : (Condition.locking j p).Lends run where
  acquire _ h := locking_step h rfl List.prefix_rfl
  release {n F w e} h := by
    have hw : Condition.locking j p n F (w.release e).2 := locking_release h
    rw [Act.release, exec_bind, exec_update]
    rcases hx : w.release e with ⟨_ | script, w'⟩ <;> rw [hx] at hw
    · exact hw
    · simp only [exec_discard, exec_attempt]
      exact Preserves.exec (hr n F .destructor script).forget hw

theorem kept_locking (s : SetId) : (Condition.locking j p).Kept run s fun _ => True where
  toLends := lends_locking hr
  note _ h := locking_note h
  tell _ h := locking_note h
  lock _ h := ⟨congrArg (s :: ·) h.1, h.2⟩
  unlock {n F w} h := ⟨by rw [World.unlock, h.1]; exact swapRemove_cons_self .., h.2⟩
  equality := (hr _ _ _ _).left
  listener := (hr _ _ _ _).left
  takeNotices h := by
    rw [takeNotices_eq]
    exact ⟨locking_step h rfl List.prefix_rfl, fun _ _ => trivial⟩
  takeOut _ _ h := locking_takeOut h
  takeAll h := locking_takeAll h
  unwatch _ h := by
    rw [unwatch_eq]
    exact locking_step h rfl List.prefix_rfl
  call _ _ h := ⟨h.1, h.2.trans (prefix_push _ _)⟩
  putDown h := ⟨h.1, h.2⟩
  store h := ⟨h.1, h.2.trans (prefix_push _ _)⟩

theorem upheld_locking (s : SetId) : (Condition.locking j p).Upheld run s (fun _ => True) n where
  toKept := kept_locking hr s
  barred hs h := ⟨locking_note h, (h.1 ▸ hs : s ∈ n.locks)⟩

end Run

theorem total_locking (hr : run.Obeys (.locking j True)) :
    (Condition.locking j True).Total run True n where
  toLends := lends_locking fun n F role script => .allow trivial (hr n F role script)
  panics := trivial
  indebted s _ := upheld_locking (fun n F role script => .allow trivial (hr n F role script)) s
  remark _ h := locking_note h
  create _ h := locking_step h rfl List.prefix_rfl
  newSet _ _ h := by
    rw [newSet_eq]
    exact ⟨h.1, h.2⟩
  unmake h := locking_unmake _ h
  predicate _ := hr _ _ _ _
  borrow _ h := ⟨h.1, h.2⟩
  own _ h := ⟨h.1, h.2⟩
  disown _ h := ⟨h.1, h.2⟩
  channels _ h := ⟨h.1, h.2⟩
  rename _ _ _ _ _ h := ⟨h.1, h.2⟩
  posted _ _ h := locking_note h
  drained _ h := locking_note h
  takeRecord _ h := ⟨h.1, h.2⟩

/-- Scripts give back all locks and only add to the journal, however deep they nest. -/
theorem Session.returns_runner (depth : Nat) (j : List Entry) :
    (Session.runner depth).Returns j True :=
  fun n F role script => .allow trivial
    (Runner.obeys (A := .locking j True) locking_note total_locking depth n F role script)

/-! ## Operations of sets that are not locked -/

/-- The sets that a command is an operation of. -/
def Command.sets (c : Command) (w : World) : List SetId :=
  (c.set? w).toList ++ match c with
    | .sameSet _ name => (w.setNames.find? name).toList
    | _ => []

/-- The name of the cursor that a command is about. -/
def Command.cursorName? : Command → Option String
  | .newCursor _ name | .next name _ | .nextElement name _ | .removeCurrent name | .rest name
  | .dropCursor name => some name
  | _ => none

/-- The scripts that the predicate of a command may run. -/
def Command.scripts : Command → List Script
  | .retain _ _ _ on | .retainBy _ _ on => on.map Prod.snd
  | _ => []

/-- A remit covers the operations of its sets. -/
theorem Remit.covers {R : Remit} {c : Command} (hc : (c.set? w).isSome)
    (hs : ∀ s ∈ c.sets w, R.sets s) (hcursor : ∀ name ∈ c.cursorName?, R.cursorNames name)
    (hscripts : ∀ script ∈ c.scripts, R.scripts script) : R.Covers c w := by
  have hfind : ∀ {name s}, c.set? w = w.setNames.find? name → w.setNames.find? name = some s →
      R.sets s := fun h e => hs _ (by simp [Command.sets, h, e])
  have hwalk : ∀ {name cu}, c.set? w = (w.cursors.find? name).map Cursor.set →
      w.cursors.find? name = some cu → R.sets cu.set := fun h e => hs _ (by simp [Command.sets, h, e])
  cases c with
  | sameSet a b => exact ⟨fun s h => hfind rfl h, fun s h => hs s (by simp [Command.sets, h])⟩
  | retain | retainBy =>
    exact ⟨fun s h => hfind rfl h, fun x hx => hscripts _ (List.mem_map_of_mem hx)⟩
  | newCursor => exact ⟨fun s h => hfind rfl h, hcursor _ rfl⟩
  | next | nextElement | removeCurrent | rest | dropCursor =>
    exact ⟨hcursor _ rfl, fun cu h => hwalk rfl h⟩
  | settings | describe | hashSet | insert | add | addAll | contains | remove | ticketOf | containsAll
  | removeAll | retainAll | length | isEmpty | sweep | clear | toList | iterate =>
    exact fun s h => hfind rfl h
  | _ => cases hc

/-- Code of the client's that gives back all locks and lets no panic out. -/
def Runner.Calm (run : Runner) : Prop :=
  ∀ role script w, ∃ w', (run role script).exec w = (.ok (), w') ∧ w'.entered = w.entered

theorem Runner.Calm.returns (hr : run.Calm) : run.Returns [] False := by
  intro n F role script w hw
  obtain ⟨w', hx, he⟩ := hr role script w
  rw [hx]
  exact ⟨he.trans hw.1, List.nil_prefix⟩

/-- An operation of sets that are not locked has a result, unless code of the client's panics. -/
theorem Session.answers_unlocked {c : Command} {inScript : Bool} (hr : run.Calm)
    (hc : (c.set? w).isSome) (hs : ∀ s ∈ c.sets w, s ∉ w.entered) :
    ∃ r w', (perform run inScript c).exec w = (.ok r, w') ∧ w'.entered = w.entered := by
  let A : Condition := .locking [] False
  let R : Remit := { sets := (· ∉ w.entered), cursorNames _ := True, scripts _ := True }
  have hA : A.Honoured run R (fun _ _ => True) { locks := w.entered } :=
    { toLends := lends_locking hr.returns
      upheld := fun _ => upheld_locking hr.returns _
      borrow := fun _ h => ⟨h.1, h.2⟩
      remark := fun _ h => locking_note h
      predicate := fun _ => hr.returns _ _ _ _
      own := fun _ h => ⟨h.1, h.2⟩
      save := fun h => ⟨h.1, h.2⟩
      takeCursor := fun _ _ h => ⟨h.1, h.2⟩
      returnCursor := fun _ _ h => putCursor_keeps (P := A _ _) ⟨h.1, h.2⟩ fun s h => locking_unmake s h
      putCursor := fun _ _ h => putCursor_keeps (P := A _ _) ⟨h.1, h.2⟩ fun s h => locking_unmake s h
      dropCursor := fun _ _ h => retire_keeps (P := A _ _) _ ⟨h.1, h.2⟩ fun h => locking_unmake _ h }
  have h := hA.perform (F := 0) inScript c w
    ⟨⟨rfl, List.nil_prefix⟩, Remit.covers hc hs (fun _ _ => trivial) fun _ _ => trivial⟩
  rcases hx : (perform run inScript c).exec w with ⟨p | r, w'⟩ <;> rw [hx] at h
  · obtain ⟨s, hn, hp | hm⟩ := h.2
    · exact hp.elim
    · exact absurd hm hn
  · exact ⟨r, w', rfl, h.1⟩

end WeakSet
