import WeakSet.Proofs.Locks
import Mathlib.Data.List.Perm.Basic

/-!
# Guards are balanced

A guard is what a thread is given when it enters a set, and releasing it is leaving the set. The operations
of sets release their guards in the order opposite to that in which they were given, and all of them
(`Session.guards_balance`). A thread that releases guards in any other order (`Holder`) has entered just the
sets of which it has a guard, each once, and is refused entry to no other (`Holder.Exact`).
-/

namespace WeakSet

open Act

/-- What a thread does with guards. -/
inductive Turn where
  /-- Enter a set, for a guard. -/
  | enter (s : SetId)
  /-- Release one of the guards, by its place among those that are not released. -/
  | release (i : Nat)

/-- A thread, and the sets of which it has a guard that it has not released. -/
structure Holder where
  world : World
  guards : List SetId

namespace Holder

/-- An entry that is refused gives no guard. -/
def take (x : Holder) : Turn → Holder
  | .enter s =>
    match (Act.enter s).exec x.world with
    | (.ok (), w) => ⟨w, s :: x.guards⟩
    | (.error _, w) => ⟨w, x.guards⟩
  | .release i =>
    match x.guards[i]? with
    | none => x
    | some s => ⟨((leave s).exec x.world).2, x.guards.eraseIdx i⟩

/-- What the thread has entered is what it has guards of, in some order, and nothing of it twice. -/
structure Exact (x : Holder) : Prop where
  perm : x.world.entered.Perm x.guards
  nodup : x.world.entered.Nodup

variable {x : Holder}

/-- A thread without guards that has entered nothing. -/
theorem Exact.fresh {w : World} (hw : w.entered = []) : Exact ⟨w, []⟩ where
  perm := by rw [hw]
  nodup := by rw [hw]; exact List.nodup_nil

theorem Exact.enter (h : x.Exact) (s : SetId) : (x.take (.enter s)).Exact := by
  by_cases hs : s ∈ x.world.entered
  · simp only [take, exec_enter_of_mem hs]
    exact ⟨h.perm, h.nodup⟩
  · simp only [take, exec_enter_of_not_mem hs]
    exact ⟨h.perm.cons s, List.nodup_cons.mpr ⟨hs, h.nodup⟩⟩

theorem Exact.release (h : x.Exact) (i : Nat) : (x.take (.release i)).Exact := by
  simp only [take]
  split
  · exact h
  · rename_i s hs
    obtain ⟨hi, rfl⟩ := List.getElem?_eq_some_iff.mp hs
    have hleft : (x.guards[i] :: x.guards.eraseIdx i).Perm x.guards :=
      List.getElem_cons_eraseIdx_perm hi
    -- the lock that goes is the only one of its set
    refine ⟨?_, (swapRemove_perm ..).nodup_iff.mpr (h.nodup.erase _)⟩
    exact (swapRemove_perm ..).trans
      ((h.perm.erase _).trans (by simpa using (hleft.symm.erase x.guards[i])))

/-- What a thread does with guards, one turn after the other. -/
theorem Exact.run (h : x.Exact) (ts : List Turn) : (ts.foldl take x).Exact := by
  induction ts generalizing x with
  | nil => exact h
  | cons t ts ih =>
    cases t with
    | enter s => exact ih (h.enter s)
    | release i => exact ih (h.release i)

end Holder

/-- Operations leave the sets in which code is as they were: whatever an operation comes to and whatever
scripts run in it. So between the commands of a client every set lets the client in.

With guards released in any order, the sets that a thread has entered are just those of which it has a
guard, without repetition, and an entry is refused just to them, which changes nothing but the journal. -/
theorem Session.guards_balance :
    (∀ (depth : Nat) (inScript : Bool) (c : Command) (w : World),
      ((perform (runner depth) inScript c).exec w).2.entered = w.entered) ∧
    (∀ (depth : Nat) (cs : List Command) (s : SetId),
      (enter s).exec (carryOutAll depth .empty cs) =
        (.ok (), { carryOutAll depth .empty cs with entered := [s] })) ∧
    ∀ (w : World) (ts : List Turn),
      let x := ts.foldl Holder.take ⟨{ w with entered := [] }, []⟩
      x.world.entered.Nodup ∧ (∀ s, s ∈ x.world.entered ↔ s ∈ x.guards) ∧
      ∀ s, (enter s).exec x.world =
        if s ∈ x.guards then (.error reentered, x.world.note (.barred s))
        else (.ok (), { x.world with entered := s :: x.world.entered }) := by
  have hop (depth : Nat) (inScript : Bool) (c : Command) (w : World) :
      ((perform (runner depth) inScript c).exec w).2.entered = w.entered := by
    have hA := total_locking (j := []) (n := { locks := w.entered })
      (Runner.obeys World.locking_note total_locking depth)
    exact ((hA.perform (c := c) (F := 0) (.inr trivial) inScript).exec ⟨rfl, List.nil_prefix⟩).1
  have hrun (depth : Nat) (cs : List Command) : (carryOutAll depth .empty cs).entered = [] :=
    List.foldlRecOn (motive := fun w : World => w.entered = []) cs _ rfl fun w hw c _ =>
      (hop depth false c w).trans hw
  refine ⟨hop, fun depth cs s => ?_, fun w ts => ?_⟩
  · rw [exec_enter_of_not_mem (by simp [hrun]), World.lock, hrun]
  · have h : Holder.Exact (ts.foldl Holder.take ⟨{ w with entered := [] }, []⟩) :=
      (Holder.Exact.fresh rfl).run ts
    refine ⟨h.nodup, fun s => h.perm.mem_iff, fun s => ?_⟩
    by_cases hs : s ∈ (ts.foldl Holder.take ⟨{ w with entered := [] }, []⟩).world.entered
    · rw [exec_enter_of_mem hs, if_pos (h.perm.mem_iff.mp hs)]
    · rw [exec_enter_of_not_mem hs, if_neg (mt h.perm.mem_iff.mpr hs)]
      rfl

end WeakSet
