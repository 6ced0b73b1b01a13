import WeakSet.Proofs.Lookups

/-!
# Operations that run no client code

In a quiet world every operation comes to a result that can be read off the world:

* `exec_find`: a lookup comes to what the dictionary has, and changes nothing;
* `exec_sweep`: a sweep takes out handles of elements that ended, and leaves the queue empty.
-/

namespace WeakSet

open Act Duties

namespace World

/-- No element has a script. -/
def Scriptless (w : World) : Prop :=
  ∀ e x, w.element? e = some x → x.onDrop = none ∧ x.onEqual = none

variable {w w' : World} {s : SetId} {v : Value} {e : ElementId} {es : List ElementId}

theorem Scriptless.unhooked (hw : w.Scriptless) : w.Unhooked := fun e => by
  rw [onEqual_eq]
  rcases hx : w.element? e with _ | x
  · rfl
  · exact (hw e x hx).2

end World

section

variable {run : Runner} {w w' : World} {D : Duties} {s : SetId} {q : Query} {e : ElementId}
  {es : List ElementId}

/-! ## Probes -/

/-- A probe comes to what the dictionary has. -/
theorem World.hit_eq (hf : w.Formed) (hq : w.Quiet) (s : SetId) (v : Value) :
    (w.hit s v).map (fun key => (⟨s, w.shardFor s v, key⟩ : Ticket)) =
      (w.dict s v).map Prod.snd := by
  refine (World.hit_eq_locate? hf hq.distinct s v).trans (Option.ext fun t => ?_)
  rw [World.locate?_eq_some hq.distinct, Option.map_eq_some_iff]
  constructor
  · rintro ⟨ho, x, hx, hs, hv⟩
    have hhas : w.Has s v x.element t := ⟨ho, ⟨x, hx, rfl⟩, World.isAlive_of_shows hs, hv⟩
    exact ⟨(x.element, t), hq.dict_eq_some.mpr hhas, rfl⟩
  · rintro ⟨⟨e, t⟩, hd, rfl⟩
    obtain ⟨ho, ⟨x, hx, rfl⟩, ha, hv⟩ := hq.dict_eq_some.mp hd
    refine ⟨ho, x, hx, ?_, hv⟩
    simp [World.shows, hq.weak t x hx, ha]

variable (run) in
/-- A lookup comes to what the dictionary has, and changes nothing. -/
theorem exec_find (hf : w.Formed) (hq : w.Quiet) (q : Query) :
    (find run s q).exec w = (.ok ((w.dict s (q.target w)).map Prod.snd), w) := by
  rw [exec_lookup run (World.Scriptless.unhooked hq.scriptless) (by simp [hq.unlocked]),
    World.hit_eq hf hq]

/-! ## Sweeping -/

theorem World.unwatch_of_not_isAlive (h : ¬ w.isAlive e) (t : Ticket) : w.unwatch e t = w := by
  rw [World.unwatch, if_neg h]

/-- The books are closed on a handle whose element ended. -/
theorem exec_closeBooks {t : Ticket} {h : Handle} (hd : ¬ w.isAlive h.element) :
    (closeBooks t h).exec w = (.ok ⟨t, h.hash, none⟩, w.note (.line (.reclaimed t true))) := by
  have hs : w.shows h = false := by simp [World.shows, hd]
  rw [exec_closeBooks_eq, World.recordOf, World.close, World.unwatch_of_not_isAlive hd, hs,
    Bool.eq_false_iff.mpr hd]
  rfl

variable (run) in
/-- A listener without scripts is called. -/
theorem exec_report_plain (t : Ticket) (hash : UInt64)
    (hl : ∀ s, (w.collection s).listener.IsPlain) :
    (report run t.owner ⟨t, hash, none⟩).exec w =
      (.ok (), { w.call ⟨t, hash, none⟩ with hands := w.hands }) := by
  have hm := (World.Framed.call t.owner w ⟨t, hash, none⟩).mould t.owner
  have hp : ((w.call ⟨t, hash, none⟩).collection t.owner).listener.IsPlain := by
    have he : ((w.call ⟨t, hash, none⟩).collection t.owner).listener =
        (w.collection t.owner).listener := Collection.listener_eq hm
    rw [he]
    exact hl t.owner
  refine (exec_report run ⟨t, hash, none⟩ w).trans ?_
  rw [listen, exec_bind_ok (exec_attempt _ _), exec_bind_ok (exec_look _ _), hp]
  rfl

/-- What a queue delivers, and what is left of it. -/
theorem World.drain_queue {c : ChannelId} (hk : w.kind? c = some .queue) :
    (w.drain c).1 = w.pending c ∧ (w.drain c).2.pending c = [] := by
  obtain ⟨ch, hch, hq⟩ := Option.map_eq_some_iff.mp hk
  have hd : ch.drain = (ch.pending, { ch with pending := [] }) := by
    rw [Channel.drain, Channel.delivers, hq]
    rfl
  refine ⟨?_, ?_⟩
  · rw [World.drain, hch, World.pending, hch]
    simp only
    rw [hd]
    rfl
  · rw [World.pending, World.getElem?_channels_drain, hch, Option.map_some, if_pos rfl, hd]
    rfl

variable (run) in
/-- A sweep takes out handles of elements that ended, and leaves the queue empty. -/
theorem exec_sweep (hq : w.Quiet) (hs : s < w.sets.size) :
    ∃ n w', (sweep run s).exec w = (.ok n, w') ∧ World.Framed s [] w w' ∧
      World.Trims s (fun _ => True) w w' ∧ w'.pending (w.channelOf s) = [] := by
  obtain ⟨n, w', hx, hf, hh, hc⟩ := exec_sweep_plain run (hq.deaf s) (by simp [hq.unlocked])
  obtain ⟨hb, hp⟩ := World.drain_queue (hq.queue s hs)
  refine ⟨n, w', hx, hf, ⟨fun t h ht => ?_, fun t h ho ha ht => iff_of_true ?_ trivial⟩, ?_⟩
  · by_cases ho : t.owner = s
    · rw [hh t ho, World.left?] at ht
      split at ht
      · cases ht
      · exact ht
    · rwa [hf.handles t ho] at ht
  · rw [hh t ho, World.left?, if_neg, ht]
    intro hm
    subst ho
    exact (hq.notices t.owner hs t (hb ▸ hm) rfl).2 h ht ha
  · rw [World.pending_congr hc]
    exact hp

end

end WeakSet
