import WeakSet.Proofs.Commands

/-!
# The books of a world

The journal tells which handles came into sets, which were removed from them, which a sweep took out
and which were reported. `World.books` reads this off the journal. Every move makes at most one kind
of entry (`Move.booking`), and so the books are kept at every point of every run (`Course.kept`): each
ticket is stored at most once, is there until it departs, and what sweeps took out is what was
reported and what code under way has yet to report.
-/

namespace WeakSet

open Act Duties

/-- The tickets of the handles that came and went, and of those that were reported. -/
structure Books where
  stored : List Ticket := []
  /-- The tickets of handles that were removed, filtered out or cleared. -/
  removed : List Ticket := []
  swept : List Ticket := []
  reported : List Ticket := []

/-- Enter what the journal says into the books. -/
def Books.enter (b : Books) : Entry → Books
  | .stored t _ => { b with stored := b.stored ++ [t] }
  | .departed t .swept => { b with swept := b.swept ++ [t] }
  | .departed t _ => { b with removed := b.removed ++ [t] }
  | .reported t _ _ _ => { b with reported := b.reported ++ [t] }
  | _ => b

/-- The books that the journal makes. -/
def World.books (w : World) : Books :=
  w.journal.toList.foldl Books.enter {}

namespace World

theorem books_congr {w w' : World} (h : w'.journal = w.journal) : w'.books = w.books := by
  rw [books, books, h]

theorem books_append {w w' : World} {l : List Entry}
    (h : w'.journal.toList = w.journal.toList ++ l) : w'.books = l.foldl Books.enter w.books := by
  rw [books, h, List.foldl_append, books]

theorem books_push {w w' : World} {x : Entry} (h : w'.journal = w.journal.push x) :
    w'.books = w.books.enter x :=
  books_append (l := [x]) (by rw [h, Array.toList_push])

@[simp] theorem books_note (w : World) (x : Entry) : (w.note x).books = w.books.enter x :=
  books_push rfl

theorem foldl_enter_eq {l : List Entry} (b : Books) (h : ∀ x ∈ l, ∀ b : Books, b.enter x = b) :
    l.foldl Books.enter b = b := by
  induction l with
  | nil => rfl
  | cons x l ih =>
    rw [List.foldl_cons, h x (by simp)]
    exact ih fun y hy => h y (by simp [hy])

theorem foldl_enter_departed {d : Departure} (hd : d ≠ .swept) (ts : List Ticket) (b : Books) :
    (ts.map (Entry.departed · d)).foldl Books.enter b =
      { b with removed := b.removed ++ ts } := by
  induction ts generalizing b with
  | nil => simp
  | cons t ts ih =>
    rw [List.map_cons, List.foldl_cons, ih]
    cases d <;> simp_all [Books.enter]

/-- The end of an element is in no book. -/
theorem books_release (w : World) (e : ElementId) : (w.release e).2.books = w.books := by
  obtain ⟨l, hl, hall⟩ := w.journal_release e
  rw [books_append hl]
  refine foldl_enter_eq _ fun x hx b => ?_
  have := hall x hx
  cases x <;> first | rfl | cases this

/-- What was stored is in the books. -/
theorem mem_stored {w : World} {t : Ticket} :
    t ∈ w.books.stored ↔ ∃ e, .stored t e ∈ w.journal.toList := by
  have h : ∀ (l : List Entry) (b : Books),
      t ∈ (l.foldl Books.enter b).stored ↔ t ∈ b.stored ∨ ∃ e, .stored t e ∈ l := by
    intro l
    induction l with
    | nil => simp
    | cons x l ih =>
      intro b
      rw [List.foldl_cons, ih]
      rcases x with ⟨t', e'⟩ | ⟨t', _ | _⟩ <;> simp [Books.enter, or_assoc, exists_or]
  exact (h _ _).trans (by simp)

/-- What a sweep took out is in the books. -/
theorem mem_swept {w : World} {t : Ticket} :
    t ∈ w.books.swept ↔ .departed t .swept ∈ w.journal.toList := by
  have h : ∀ (l : List Entry) (b : Books),
      t ∈ (l.foldl Books.enter b).swept ↔ t ∈ b.swept ∨ .departed t .swept ∈ l := by
    intro l
    induction l with
    | nil => simp
    | cons x l ih =>
      intro b
      rw [List.foldl_cons, ih]
      rcases x with _ | ⟨t', _ | _⟩ <;> simp [Books.enter, or_assoc]
  exact (h _ _).trans (by simp)

/-- What was removed, filtered out or cleared is in the books. -/
theorem mem_removed {w : World} {t : Ticket} :
    t ∈ w.books.removed ↔ ∃ d, d ≠ .swept ∧ .departed t d ∈ w.journal.toList := by
  have h : ∀ (l : List Entry) (b : Books), t ∈ (l.foldl Books.enter b).removed ↔
      t ∈ b.removed ∨ ∃ d, d ≠ .swept ∧ .departed t d ∈ l := by
    intro l
    induction l with
    | nil => simp
    | cons x l ih =>
      intro b
      rw [List.foldl_cons, ih]
      rcases x with _ | ⟨t', _ | _⟩ <;> simp [Books.enter, or_assoc, exists_or, and_or_left]
  exact (h _ _).trans (by simp)

/-- What was reported is in the books. -/
theorem mem_reported {w : World} {t : Ticket} :
    t ∈ w.books.reported ↔
      ∃ hash last named, .reported t hash last named ∈ w.journal.toList := by
  have h : ∀ (l : List Entry) (b : Books), t ∈ (l.foldl Books.enter b).reported ↔
      t ∈ b.reported ∨ ∃ hash last named, .reported t hash last named ∈ l := by
    intro l
    induction l with
    | nil => simp
    | cons x l ih =>
      intro b
      rw [List.foldl_cons, ih]
      rcases x with _ | ⟨t', _ | _⟩ | _ | _ | _ | _ | _ | _ | ⟨t', hash', last', named'⟩ <;>
        simp [Books.enter, or_assoc, exists_or]
  exact (h _ _).trans (by simp)

/-- What was stored stays in the books. -/
theorem Later.mem_stored {w w' : World} (h : Later w w') {t : Ticket} (ht : t ∈ w.books.stored) :
    t ∈ w'.books.stored := by
  obtain ⟨e, he⟩ := World.mem_stored.mp ht
  exact World.mem_stored.mpr ⟨e, h.mem_journal he⟩

/-- What was reported stays in the books. -/
theorem Later.mem_reported {w w' : World} (h : Later w w') {t : Ticket} (ht : t ∈ w.books.reported) :
    t ∈ w'.books.reported := by
  obtain ⟨hash, last, named, hr⟩ := World.mem_reported.mp ht
  exact World.mem_reported.mpr ⟨hash, last, named, h.mem_journal hr⟩

end World

/-- What a move does to handles and books. -/
inductive Booking (w w' : World) (D D' : Duties) : Prop
  | nothing (hh : ∀ t, w'.handle? t = w.handle? t) (hz : ∀ s, w'.size s = w.size s)
      (hb : w'.books = w.books) (hd : ∀ t, D'.count (.report t) = D.count (.report t))
  | stored (t : Ticket) (h : Handle) (ht : w.handle? t = none) (hn : t ∉ w.books.stored)
      (hs : ∃ s k, w.Admits s k h ∧ .hold h.element ∈ D ∧ t = w.nextTicket s k h ∧
        w' = (w.store s k h).2)
      (hh : ∀ t', w'.handle? t' = if t' = t then some h else w.handle? t')
      (hz : ∀ s, w'.size s = w.size s + if t.owner = s then 1 else 0)
      (hb : w'.books = { w.books with stored := w.books.stored ++ [t] })
      (hd : ∀ t, D'.count (.report t) = D.count (.report t))
  | removed (ts : List Ticket) (hn : ts.Nodup) (ht : ∀ t ∈ ts, (w.handle? t).isSome)
      (hh : ∀ t, w'.handle? t = if t ∈ ts then none else w.handle? t)
      (hz : ∀ s, w'.size s + ts.countP (·.owner = s) = w.size s)
      (hb : w'.books = { w.books with removed := w.books.removed ++ ts })
      (hd : ∀ t, D'.count (.report t) = D.count (.report t))
  | swept (t : Ticket) (ht : (w.handle? t).isSome)
      (hh : ∀ t', w'.handle? t' = if t' = t then none else w.handle? t')
      (hz : ∀ s, w'.size s + (if t.owner = s then 1 else 0) = w.size s)
      (hb : w'.books = { w.books with swept := w.books.swept ++ [t] })
      (hd : ∀ t', D'.count (.report t') = D.count (.report t') + if t' = t then 1 else 0)
  | reported (t : Ticket) (hh : ∀ t, w'.handle? t = w.handle? t) (hz : ∀ s, w'.size s = w.size s)
      (hb : w'.books = { w.books with reported := w.books.reported ++ [t] })
      (hd : ∀ t', D.count (.report t') = D'.count (.report t') + if t' = t then 1 else 0)

section Count

variable (t : Ticket) (D : Duties)

theorem count_report_add {A : Duties} (h : .report t ∉ A) :
    (A + D).count (.report t) = D.count (.report t) := by
  rw [Multiset.count_add, Multiset.count_eq_zero_of_notMem h, Nat.zero_add]

theorem count_report_holds (es : List ElementId) :
    (holds es + D).count (.report t) = D.count (.report t) :=
  count_report_add t D (not_mem_holds (by simp) es)

end Count

variable {L : Scene} {w w' : World} {D D' : Duties}

/-- The sets stay as they are, and no entry is made. -/
theorem Booking.of_sets (hs : w'.sets = w.sets) (hb : w'.books = w.books)
    (hd : ∀ t, D'.count (.report t) = D.count (.report t)) : Booking w w' D D' :=
  .nothing (World.handle?_congr hs)
    (fun s => by rw [World.size, World.size, World.collection_congr hs]) hb hd

theorem World.size_modify {w : World} (s : SetId) {f : Collection → Collection}
    (hf : ∀ c, (f c).shards = c.shards) (s' : SetId) :
    World.size { w with sets := w.sets.modify s f } s' = w.size s' := by
  by_cases hs : s < w.sets.size
  · rw [World.size, World.collection_modify hs, Collection.size]
    split
    · subst_vars; rw [hf]; rfl
    · rfl
  · rw [World.modify_sets_of_size_le (Nat.le_of_not_lt hs)]

theorem World.size_push (w : World) (b : Blueprint) (c : ChannelId) (s : SetId) :
    World.size { w with sets := w.sets.push (b.toCollection c) } s = w.size s := by
  rw [World.size, World.collection_push]
  split
  · rename_i h
    rw [World.size, World.collection_default (Nat.le_of_eq h.symm), Collection.size_eq,
      Collection.size_eq]
    simp [Blueprint.toCollection]
    rfl
  · rfl

/-- Every move books what it does to handles. -/
theorem Move.booking (hw : w.Sane D) (hm : Move L (w, D) (w', D')) : Booking w w' D D' := by
  cases hm with
  | @note _ _ x hx =>
    refine .of_sets rfl ?_ fun _ => rfl
    rw [World.books_note]
    cases x <;> first | rfl | cases hx
  | bar => exact .of_sets rfl (World.books_note w _) fun _ => rfl
  | post c => exact .of_sets rfl (World.books_note w (.posted c _)) fun _ => rfl
  | takeRecord => exact .of_sets rfl rfl fun t => count_report_holds t D _
  | putDown => exact .of_sets rfl rfl fun t => count_report_holds t D _
  | @release _ _ e =>
    exact .of_sets (by rw [World.release_eq]) (w.books_release e) fun t => by simp
  | drain c =>
    refine .of_sets (by rw [World.drain_eq]; rfl) ?_ fun _ => rfl
    rw [World.drain_eq]
    exact World.books_note w (.drained c)
  | takeNotices =>
    refine .of_sets (by rw [World.takeNotices_eq]) ?_ fun t => ?_
    · rw [World.takeNotices_eq]; rfl
    · exact count_report_add t D (not_mem_deals (by simp) _ _)
  | @reap _ _ t h _ hh =>
    refine .swept t (by simp [hh]) (World.handle?_takeOut hh _) (fun s => ?_) ?_ fun t' => ?_
    · simpa [eq_comm] using World.size_takeOut hh .swept s
    · rw [World.takeOut_snd hh]
      exact World.books_note _ (.departed t .swept)
    · rw [Multiset.count_cons, Multiset.count_cons_of_ne (by simp)]
      simp
  | unwatch =>
    refine .of_sets (by rw [World.unwatch_eq]) ?_ fun t => by simp
    rw [World.unwatch_eq]; rfl
  | call r =>
    refine .reported r.ticket (World.handle?_call w r) (fun s => ?_)
      (World.books_note (w.countCall r.ticket.owner).2 (.reported r.ticket _ _ _)) fun t => ?_
    · exact World.size_modify _ (f := fun c => { c with calls := c.calls + 1 }) (fun _ => rfl) s
    · rw [Multiset.count_cons, count_report_holds]; simp
  | @takeOut _ _ t h d _ hh hd =>
    refine .removed [t] (by simp) (by simp [hh]) (fun t' => ?_) (fun s => ?_) ?_ fun t' => by simp
    · rw [World.handle?_takeOut hh]; simp
    · simpa [eq_comm, List.countP_cons] using World.size_takeOut hh d s
    · rw [World.takeOut_snd hh]
      refine (World.books_note _ (.departed t d)).trans ?_
      cases d <;> first | rfl | exact hd.elim
  | @takeAll _ _ s k _ hk =>
    refine .removed ((w.ticketsIn s k).map Prod.fst) World.nodup_ticketsIn
      (fun t ht => (World.mem_map_ticketsIn.mp ht).2.2) (World.handle?_takeAll_of_tickets hk)
      (fun s' => ?_) ?_ fun t => ?_
    · have h : ∀ t ∈ (w.ticketsIn s k).map Prod.fst, t.owner = s := fun t ht =>
        (World.mem_map_ticketsIn.mp ht).1
      rw [← World.size_takeAll hk s']
      congr 1
      split
      · subst_vars
        rw [List.countP_eq_length.mpr (by simpa using h), List.length_map]
      · rw [List.countP_eq_zero]
        intro t ht
        rw [h t ht]
        simpa using Ne.symm ‹_›
    · refine (World.books_append (w := w) (l := ((w.ticketsIn s k).map Prod.fst).map
        (Entry.departed · .cleared)) ?_).trans (World.foldl_enter_departed (by decide) _ _)
      rw [World.takeAll_snd, Array.toList_append, List.map_map]
      rfl
    · exact count_report_add t D (not_mem_unwatches (by simp) _)
  | @store _ _ s k h _ ha =>
    refine .stored (w.nextTicket s k h) h ?_ ?_ ⟨s, k, ha, Multiset.mem_cons_self _ _, rfl, rfl⟩
      (World.handle?_store hw.formed.shards ha.shard h) (fun s' => ?_)
      (World.books_push (x := .stored (w.nextTicket s k h) h.element) rfl) fun t => rfl
    · rcases hn : w.handle? (w.nextTicket s k h) with _ | h'
      · rfl
      · exact absurd (World.issued_of_handle? hn) (World.not_issued_nextTicket h)
    · rw [World.mem_stored]
      rintro ⟨e, he⟩
      exact World.not_issued_nextTicket h (hw.recorded.issued _ _ he).1
    · rw [World.size_store hw.formed.shards ha.shard]
      exact congrArg _ (if_congr eq_comm rfl rfl)
  | @newSet _ _ b channel =>
    refine .nothing (World.handle?_newSet w b channel) (fun s => ?_) ?_ fun _ => rfl
    · obtain ⟨c, v, hv, e⟩ := w.newSet_snd b channel
      rw [e, World.size_push]
      rcases hv with ⟨-, rfl⟩ | ⟨-, -, rfl⟩ <;> rfl
    · rw [World.newSet_eq]; rfl
  | @unmake _ _ s =>
    refine .nothing (World.handle?_unmake w s) (fun s' => ?_) ?_ fun _ => rfl
    · rw [World.unmake_eq]
      exact World.size_modify _ (f := fun c => { c with isLive := false }) (fun _ => rfl) s'
    · rw [World.unmake_eq]; rfl
  | _ => exact .of_sets rfl rfl fun t => by simp

/-- The books tally with the sets, with each other and with the reports that are due. -/
structure World.Kept (w : World) (D : Duties) : Prop where
  once : ∀ t, w.books.stored.count t ≤ 1
  there : ∀ t, w.books.stored.count t =
    (if (w.handle? t).isSome then 1 else 0) + w.books.removed.count t + w.books.swept.count t
  swept : ∀ t, w.books.swept.count t = w.books.reported.count t + D.count (.report t)
  sets : ∀ s, w.books.stored.countP (·.owner = s) =
    w.size s + w.books.removed.countP (·.owner = s) + w.books.swept.countP (·.owner = s)

theorem count_snoc (ts : List Ticket) (t t' : Ticket) :
    (ts ++ [t]).count t' = ts.count t' + if t' = t then 1 else 0 := by
  rw [List.count_append, List.count_singleton]
  exact congrArg _ (if_congr (beq_iff_eq.trans eq_comm) rfl rfl)

theorem countP_snoc (ts : List Ticket) (t : Ticket) (s : SetId) :
    (ts ++ [t]).countP (·.owner = s) =
      ts.countP (·.owner = s) + if t.owner = s then 1 else 0 := by
  rw [List.countP_append, List.countP_singleton]
  simp only [decide_eq_true_eq]

/-- What a move books keeps the books. -/
theorem Booking.kept (h : Booking w w' D D') (hk : w.Kept D) : w'.Kept D' := by
  cases h with
  | nothing hh hz hb hd =>
    refine ⟨fun t => ?_, fun t => ?_, fun t => ?_, fun s => ?_⟩ <;> rw [hb]
    · exact hk.once t
    · rw [hh]; exact hk.there t
    · rw [hd]; exact hk.swept t
    · rw [hz]; exact hk.sets s
  | stored t h ht hn _ hh hz hb hd =>
    have hzero : w.books.stored.count t = 0 := List.count_eq_zero.mpr hn
    refine ⟨fun t' => ?_, fun t' => ?_, fun t' => ?_, fun s => ?_⟩ <;> simp only [hb]
    · rw [count_snoc]
      have := hk.once t'
      by_cases e : t' = t
      · subst e; simp [hzero]
      · simpa [e] using this
    · rw [count_snoc, hh, hk.there t']
      by_cases e : t' = t
      · subst e; simp [ht]; omega
      · simp [e]
    · rw [hd]; exact hk.swept t'
    · rw [countP_snoc, hk.sets s, hz]; omega
  | removed ts hn ht hh hz hb hd =>
    refine ⟨fun t => ?_, fun t => ?_, fun t => ?_, fun s => ?_⟩ <;> simp only [hb]
    · exact hk.once t
    · rw [List.count_append, hh, hk.there t]
      by_cases e : t ∈ ts
      · simp [e, ht t e, List.count_eq_one_of_mem hn e]; omega
      · simp [e, List.count_eq_zero.mpr e]
    · rw [hd]; exact hk.swept t
    · rw [List.countP_append, hk.sets s, ← hz]; omega
  | swept t ht hh hz hb hd =>
    refine ⟨fun t' => ?_, fun t' => ?_, fun t' => ?_, fun s => ?_⟩ <;> simp only [hb]
    · exact hk.once t'
    · rw [count_snoc, hh, hk.there t']
      by_cases e : t' = t
      · subst e; simp [ht]; omega
      · simp [e]
    · rw [count_snoc, hd, hk.swept t', Nat.add_assoc]
    · rw [countP_snoc, hk.sets s, ← hz]; omega
  | reported t hh hz hb hd =>
    refine ⟨fun t' => ?_, fun t' => ?_, fun t' => ?_, fun s => ?_⟩ <;> simp only [hb]
    · exact hk.once t'
    · rw [hh]; exact hk.there t'
    · rw [count_snoc, hk.swept t', hd]; omega
    · rw [hz]; exact hk.sets s

/-- Every course keeps the books. -/
theorem Course.kept (h : Course L (w, D) (w', D')) (hw : w.Sane D) (hk : w.Kept D) : w'.Kept D' :=
  (h.keeps (I := fun q => q.1.Sane q.2 ∧ q.1.Kept q.2)
    (fun _ _ hm hI => ⟨hm.sane hI.1, (hm.booking hI.1).kept hI.2⟩) ⟨hw, hk⟩).2

theorem World.kept_empty : World.empty.Kept 0 where
  once t := by simp [World.books, World.empty]
  there t := by rw [World.handle?_empty]; rfl
  swept t := by simp [World.books, World.empty]
  sets s := by
    rw [World.size, World.collection_empty]
    simp [World.books, World.empty]
    rfl

/-- What was reported was reported once. -/
theorem World.Kept.count_reported (h : w.Kept D) {t : Ticket} (ht : t ∈ w.books.reported) :
    w.books.reported.count t = 1 := by
  have := List.count_pos_iff.mpr ht
  have := h.once t
  have := h.there t
  have := h.swept t
  omega

/-- A handle that is there was neither removed nor reported, and need not be. -/
theorem World.Kept.of_handle? (h : w.Kept D) {t : Ticket} (ht : (w.handle? t).isSome) :
    t ∈ w.books.stored ∧ t ∉ w.books.reported ∧ .report t ∉ D := by
  have honce := h.once t
  have hthere := h.there t
  have hswept := h.swept t
  rw [if_pos ht] at hthere
  exact ⟨List.count_pos_iff.mp (by omega), List.count_eq_zero.mp (by omega),
    Multiset.count_eq_zero.mp (by omega)⟩

/-- A handle that went was either removed or reported, once, if no report is due. -/
theorem World.Kept.accounted (h : w.Kept D) {t : Ticket} (hs : t ∈ w.books.stored)
    (hn : w.handle? t = none) (hr : .report t ∉ D) :
    w.books.removed.count t + w.books.reported.count t = 1 := by
  have hstored := List.count_pos_iff.mpr hs
  have honce := h.once t
  have hthere := h.there t
  have hswept := h.swept t
  rw [Multiset.count_eq_zero_of_notMem hr] at hswept
  rw [hn] at hthere
  simp only [Option.isSome_none, Bool.false_eq_true, ite_false] at hthere
  omega

/-- What was removed was stored. -/
theorem World.Kept.stored_of_removed (h : w.Kept D) {t : Ticket} (ht : t ∈ w.books.removed) :
    t ∈ w.books.stored := by
  have := List.count_pos_iff.mpr ht
  have := h.there t
  exact List.count_pos_iff.mp (by omega)

/-- What sweeps took out was stored. -/
theorem World.Kept.stored_of_swept (h : w.Kept D) {t : Ticket} (ht : t ∈ w.books.swept) :
    t ∈ w.books.stored := by
  have := List.count_pos_iff.mpr ht
  have := h.there t
  exact List.count_pos_iff.mp (by omega)

/-- What was removed is gone and was not reported. -/
theorem World.Kept.of_removed (h : w.Kept D) {t : Ticket} (ht : t ∈ w.books.removed) :
    w.handle? t = none ∧ t ∉ w.books.reported := by
  have hout := List.count_pos_iff.mpr ht
  have honce := h.once t
  have hthere := h.there t
  have hswept := h.swept t
  refine ⟨?_, fun hr => ?_⟩
  · by_contra hn
    rw [if_pos (Option.isSome_iff_ne_none.mpr hn)] at hthere
    omega
  · have := List.count_pos_iff.mpr hr
    omega

theorem World.Point.kept {w : World} {D : Duties} (h : w.Point D) : w.Kept D :=
  Course.kept h World.sane_empty World.kept_empty

end WeakSet
