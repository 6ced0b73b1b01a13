import WeakSet.Proofs.Commands
import WeakSet.Proofs.Distinct

/-!
# Every handle is where it belongs

At every point of every run a set has its handles where their hashes say, each with the hash of its
element's value, and a set that can reach its elements has at most one living one of each value
(`World.Point.inPlace`).

Points are more than the worlds between commands. Whatever client code runs, of a listener, a
predicate, a comparison or a destructor, starts at a point and comes to one, whether it ends or
panics: a runner has to be sound at points only for the commands that use it to come to points
(`Session.point_perform`). So nothing that client code sees or does is ever out of place.
-/

namespace WeakSet

open Act Duties

namespace World

/-- The handles of all sets are where they belong, and weak sets have no living element twice. -/
structure InPlace (w : World) : Prop where
  unique : ∀ t t' h h', t.owner = t'.owner → (w.collection t.owner).settings.kind = .weak →
    w.handle? t = some h → w.handle? t' = some h' → w.isAlive h.element → w.isAlive h'.element →
    w.value h.element = w.value h'.element → t = t'
  hash : ∀ t h, w.handle? t = some h →
    h.hash = (w.collection t.owner).scheme.hash (w.value h.element)
  shard : ∀ t h, w.handle? t = some h → t.shard = shardOf (w.shardCount t.owner) h.hash

theorem Point.inPlace {w : World} {D : Duties} (h : w.Point D) : w.InPlace where
  unique t t' x x' ho hk hx hx' := by
    have hf := h.formed.fits t x hx
    have hf' := h.formed.fits t' x' hx'
    exact h.distinct t t' x x' ho hx hx' (hf.kind.trans hk) (hf'.kind.trans (ho ▸ hk))
  hash t x hx := (h.formed.fits t x hx).hash
  shard t x hx := (h.formed.fits t x hx).place

end World

namespace Session

variable {run : Runner} {w : World} {D : Duties}

/-- A command that starts at a point of a run comes to one, if the client code that it runs does so
from every point. Of client code in other worlds nothing is asked, so it is not run there. -/
theorem point_perform (hr : run.Sound) (hw : w.Point D) (inScript : Bool) (c : Command) :
    ((perform run inScript c).exec w).2.Point D :=
  ((balanced_perform hr inScript (fun _ => rfl) c).course hw (.idle w)).point hw

/-- A script that starts at a point of a run comes to one, also if it panics. -/
theorem point_script (depth : Nat) (role : Role) (cs : Script) (hw : w.Point D) :
    ((runner depth role cs).exec w).2.Point D :=
  (course_script depth hw role cs).point hw

/-- Uniqueness and placement. The worlds between the commands of a client are points of runs; the
scripts of a listener, a predicate, a comparison or a destructor, and each command in them, lead from
points to points; no command runs client code anywhere but at points; and at every point each handle
of each set has the hash of its element's value and is in the shard of that hash, and no weak set has
two handles of living elements with equal values. -/
theorem in_place_at_every_point (depth : Nat) :
    (∀ cs, (carryOutAll depth .empty cs).Point 0) ∧
    (∀ (w : World) D role cs, w.Point D → ((runner depth role cs).exec w).2.Point D) ∧
    (∀ (w : World) D (run : Runner) inScript c,
      (∀ L role cs (v : World) E, v.Point E → L.On v →
        Course L (v, E) (((run role cs).exec v).2, E)) →
      w.Point D → ((perform run inScript c).exec w).2.Point D) ∧
    ∀ (w : World) D, w.Point D → w.InPlace := by
  refine ⟨point_carryOutAll depth, fun w D role cs hw => point_script depth role cs hw,
    fun w D run b c hr hw => point_perform (fun L role cs v E hv ho => ?_) hw b c,
    fun w D hw => hw.inPlace⟩
  rw [due_same]
  exact hr L role cs v E hv ho

/-- Two elements of one value under one hash: the second comes in only when the first has ended, while
the stale handle of the first is still there. -/
def staleRun : List Command :=
  [.new "x" (.number 1) none none, .new "c" (.number 2) none none,
    .newChannel "gate" (.ok .gated),
    .build "s" (.ok ⟨{ capacity := 4, concurrency := 1 }, some "gate", .constant 7, .silent⟩),
    .insert "s" "x" none, .insert "s" "c" none, .drop ["x"], .new "y" (.number 1) none none,
    .insert "s" "y" none]

/-- A stale handle of the same value does not count, and the handles of living elements differ. -/
theorem in_place_stale :
    let w := carryOutAll 0 .empty staleRun
    w.handle? ⟨0, 0, 0, 1⟩ = some ⟨0, 7, .weak⟩ ∧ w.handle? ⟨0, 0, 2, 1⟩ = some ⟨2, 7, .weak⟩ ∧
      w.value 0 = w.value 2 ∧ w.InPlace :=
  have h := in_place_at_every_point 0
  ⟨by decide +kernel, by decide +kernel, by decide +kernel, h.2.2.2 _ 0 (h.1 staleRun)⟩

end Session

end WeakSet
