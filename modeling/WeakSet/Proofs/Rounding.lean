import WeakSet.Settings
import Mathlib.Tactic.Ring

/-!
# The numbers of shards

A concurrency level is rounded up to a power of two (`Settings.shardCount_least`), so the shard of a hash is
its upper half modulo the number of shards (`shardOf_eq_mod`), and a capacity is divided among the shards
and rounded up (`Settings.mul_shardCapacity`). `Word` has the same computations on
words of 64 bits, which have no result where one of their steps overflows or divides by zero.
-/

namespace WeakSet

/-! ## Powers of two -/

theorem roundUp_eq_ite (n : Nat) : roundUp n = if n ≤ 1 then 1 else 2 ^ ((n - 1).log2 + 1) := by
  rw [roundUp, Nat.one_shiftLeft]

theorem isPowerOfTwo_roundUp (n : Nat) : (roundUp n).isPowerOfTwo := by
  rw [roundUp_eq_ite]
  split
  · exact Nat.isPowerOfTwo_one
  · exact ⟨_, rfl⟩

theorem le_roundUp (n : Nat) : n ≤ roundUp n := by
  rw [roundUp_eq_ite]
  split
  · assumption
  · have := Nat.lt_log2_self (n := n - 1)
    omega

theorem roundUp_le {n m : Nat} (h : n ≤ 2 ^ m) : roundUp n ≤ 2 ^ m := by
  rw [roundUp_eq_ite]
  split
  · exact Nat.one_le_two_pow
  · exact Nat.pow_le_pow_right (by decide) ((Nat.log2_lt (by omega)).mpr (by omega))

/-- Below a power of two a mask is a remainder. -/
theorem shardOf_eq_mod {count : Nat} (h : count.isPowerOfTwo) (hash : UInt64) :
    shardOf count hash = hash.toNat / 2 ^ 32 % count := by
  obtain ⟨k, rfl⟩ := h
  rw [shardOf, Nat.and_two_pow_sub_one_eq_mod, UInt64.toNat_shiftRight, Nat.shiftRight_eq_div_pow]
  rfl

namespace Settings

variable {c : Settings}

theorem fault?_eq_none_iff :
    c.fault? = none ↔
      1 ≤ c.concurrency ∧ c.concurrency ≤ maxConcurrency ∧ c.capacity ≤ maxCapacity := by
  unfold fault?
  split_ifs <;> simp <;> omega

theorem fault?_sized (n : Nat) :
    { standard with capacity := min n maxCapacity }.fault? = none :=
  fault?_eq_none_iff.mpr ⟨show 1 ≤ 16 by decide, show 16 ≤ maxConcurrency by decide, Nat.min_le_right ..⟩

/-- There are enough shards, and half as many would not be enough. -/
theorem shardCount_least (c : Settings) : c.shardCount.isPowerOfTwo ∧ c.concurrency ≤ c.shardCount ∧
    ∀ k, c.concurrency ≤ 2 ^ k → c.shardCount ≤ 2 ^ k :=
  ⟨isPowerOfTwo_roundUp _, le_roundUp _, fun _ => roundUp_le⟩

theorem shardCount_pos (c : Settings) : 0 < c.shardCount :=
  Nat.pos_of_isPowerOfTwo (isPowerOfTwo_roundUp _)

theorem shardCount_le (h : c.concurrency ≤ maxConcurrency) : c.shardCount ≤ maxConcurrency :=
  roundUp_le (m := 16) h

theorem shardOf_lt (c : Settings) (hash : UInt64) : shardOf c.shardCount hash < c.shardCount := by
  rw [shardOf_eq_mod c.shardCount_least.1]
  exact Nat.mod_lt _ c.shardCount_pos

/-- The shards together have the room that was asked for, and less than one place each besides. -/
theorem mul_shardCapacity (h : c.capacity ≤ maxCapacity) :
    c.capacity ≤ c.shardCount * c.shardCapacity ∧
      c.shardCount * c.shardCapacity < c.capacity + c.shardCount := by
  have hpos := c.shardCount_pos
  have hdiv := Nat.div_add_mod (c.capacity + c.shardCount - 1) c.shardCount
  have hmod := Nat.mod_lt (c.capacity + c.shardCount - 1) hpos
  rw [shardCapacity, Nat.min_eq_left h]
  omega

end Settings

/-! ## Words -/

/-- To divide and round up is to divide, and one more if there is a remainder. -/
theorem div_up (a : Nat) {b : Nat} (hb : 0 < b) :
    (a + b - 1) / b = a / b + if 0 < a % b then 1 else 0 := by
  have h : a + b - 1 = b * (a / b) + (a % b + b - 1) := by
    have := Nat.div_add_mod a b
    omega
  have hmod := Nat.mod_lt a hb
  rw [h, Nat.mul_add_div hb]
  congr 1
  split
  · exact Nat.div_eq_of_lt_le (by omega) (by omega)
  · exact Nat.div_eq_of_lt (by omega)

namespace Word

def add (a b : UInt64) : Option UInt64 :=
  if a.toNat + b.toNat < 2 ^ 64 then some (a + b) else none

def sub (a b : UInt64) : Option UInt64 :=
  if b ≤ a then some (a - b) else none

/-- Quotient and remainder. -/
def divMod (a b : UInt64) : Option (UInt64 × UInt64) :=
  if b = 0 then none else some (a / b, a % b)

/-- All bits below the highest one of what is less by one, and one more. -/
def roundUp (x : UInt64) : Option UInt64 := do
  if x ≤ 1 then add 0 1
  else
    let p ← sub x 1
    add (0xFFFFFFFFFFFFFFFF >>> (63 - p.log2)) 1

def divCeil (a b : UInt64) : Option UInt64 := do
  let (d, r) ← divMod a b
  if 0 < r then add d 1 else some d

def shardCapacity (capacity count : UInt64) : Option UInt64 :=
  divCeil (if capacity ≤ .ofNat maxCapacity then capacity else .ofNat maxCapacity) count

def shardOf (count hash : UInt64) : Option UInt64 := do
  return (hash >>> 32) &&& (← sub count 1)

theorem add_eq {a b : UInt64} (h : a.toNat + b.toNat < 2 ^ 64) :
    ∃ c, add a b = some c ∧ c.toNat = a.toNat + b.toNat :=
  ⟨a + b, if_pos h, by rw [UInt64.toNat_add, Nat.mod_eq_of_lt h]⟩

theorem sub_eq {a b : UInt64} (h : b.toNat ≤ a.toNat) :
    ∃ c, sub a b = some c ∧ c.toNat = a.toNat - b.toNat :=
  ⟨a - b, if_pos h, UInt64.toNat_sub_of_le _ _ h⟩

/-- The bits up to the one at place `k`. -/
theorem toNat_ones_shiftRight {p : UInt64} (h : p ≠ 0) :
    ((0xFFFFFFFFFFFFFFFF : UInt64) >>> (63 - p.log2)).toNat = 2 ^ (p.toNat.log2 + 1) - 1 := by
  have hlog : p.log2.toNat = p.toNat.log2 := rfl
  have hlt : p.toNat.log2 < 64 := (Nat.log2_lt (by simpa [← UInt64.toNat_inj] using h)).mpr p.toNat_lt
  have hsub : (63 - p.log2).toNat = 63 - p.toNat.log2 := by
    have hle : p.log2 ≤ 63 := UInt64.le_iff_toNat_le.mpr (by rw [hlog]; exact Nat.le_of_lt_succ hlt)
    rw [UInt64.toNat_sub_of_le _ _ hle, hlog]
    rfl
  have hpow : 2 ^ 64 = 2 ^ (63 - p.toNat.log2) * 2 ^ (p.toNat.log2 + 1) := by
    rw [← pow_add]
    congr 1
    omega
  rw [UInt64.toNat_shiftRight, hsub, Nat.mod_eq_of_lt (by omega), Nat.shiftRight_eq_div_pow]
  change (2 ^ 64 - (0 + 1)) / 2 ^ (63 - p.toNat.log2) = _
  rw [hpow, Nat.mul_sub_div _ _ _ (hpow ▸ Nat.two_pow_pos 64), Nat.zero_div]

theorem roundUp_eq {x : UInt64} (h : x.toNat ≤ 2 ^ 63) :
    ∃ c, roundUp x = some c ∧ c.toNat = WeakSet.roundUp x.toNat := by
  rw [roundUp_eq_ite]
  unfold roundUp
  by_cases hx : x.toNat ≤ 1
  · rw [if_pos (UInt64.le_iff_toNat_le.mpr hx), if_pos hx]
    exact ⟨1, rfl, rfl⟩
  · obtain ⟨p, hp, hpx⟩ := sub_eq (a := x) (b := 1) (show 1 ≤ x.toNat by omega)
    have hpx : p.toNat = x.toNat - 1 := hpx
    have hne : p ≠ 0 := by
      rintro rfl
      exact absurd hpx (show 0 ≠ _ by omega)
    have hlog : 2 ^ (p.toNat.log2 + 1) ≤ 2 ^ 63 :=
      Nat.pow_le_pow_right (by decide) ((Nat.log2_lt (by omega)).mpr (by omega))
    rw [if_neg (mt UInt64.le_iff_toNat_le.mp hx), if_neg hx, hp, ← hpx]
    have hones := toNat_ones_shiftRight hne
    obtain ⟨c, hc, hcx⟩ := add_eq (a := 0xFFFFFFFFFFFFFFFF >>> (63 - p.log2)) (b := 1)
      (by rw [hones, UInt64.toNat_one]; omega)
    refine ⟨c, hc, ?_⟩
    rw [hcx, hones, UInt64.toNat_one]
    exact Nat.sub_add_cancel Nat.one_le_two_pow

theorem divCeil_eq {a b : UInt64} (hb : 0 < b.toNat) (h : a.toNat + b.toNat < 2 ^ 64) :
    ∃ c, divCeil a b = some c ∧ c.toNat = (a.toNat + b.toNat - 1) / b.toNat := by
  have hne : b ≠ 0 := by
    rintro rfl
    exact absurd hb (by decide)
  have hmod : (0 < a % b) = (0 < a.toNat % b.toNat) := by
    rw [UInt64.lt_iff_toNat_lt, UInt64.toNat_mod, UInt64.toNat_zero]
  rw [div_up _ hb, ← UInt64.toNat_div, divCeil, divMod, if_neg hne]
  simp only [Option.bind_eq_bind, Option.bind_some, hmod]
  split
  · refine add_eq ?_
    have := Nat.div_le_self a.toNat b.toNat
    rw [UInt64.toNat_div, UInt64.toNat_one]
    omega
  · exact ⟨_, rfl, rfl⟩

theorem shardCapacity_eq (capacity : UInt64) {count : UInt64} (hpos : 0 < count.toNat)
    (hcount : count.toNat ≤ maxConcurrency) :
    ∃ c, shardCapacity capacity count = some c ∧
      c.toNat = (min capacity.toNat maxCapacity + count.toNat - 1) / count.toNat := by
  have hmin : (if capacity ≤ .ofNat maxCapacity then capacity else .ofNat maxCapacity : UInt64).toNat =
      min capacity.toNat maxCapacity := by
    split
    · rename_i h
      exact (Nat.min_eq_left (UInt64.le_iff_toNat_le.mp h)).symm
    · rename_i h
      exact (Nat.min_eq_right (Nat.le_of_not_le (mt UInt64.le_iff_toNat_le.mpr h))).symm
  rw [← hmin]
  refine divCeil_eq hpos ?_
  rw [hmin]
  have : min capacity.toNat maxCapacity ≤ 1073741824 := Nat.min_le_right ..
  have : count.toNat ≤ 65536 := hcount
  omega

theorem shardOf_eq {count hash : UInt64} (h : 0 < count.toNat) :
    ∃ k, shardOf count hash = some k ∧ k.toNat = WeakSet.shardOf count.toNat hash := by
  obtain ⟨c, hc, hcx⟩ := sub_eq (a := count) (b := 1) h
  refine ⟨(hash >>> 32) &&& c, by rw [shardOf, hc]; rfl, ?_⟩
  rw [UInt64.toNat_and, hcx]
  rfl

end Word

/-! ## Settings without fault -/

/-- What a set with these settings counts on: there are as many shards as the least power of two that is
enough, every hash has its shard, a ticket has room for it, and the capacities add up. On words of 64 bits
all of it is computed without fail. -/
structure Settings.FitTogether (c : Settings) : Prop where
  power : c.shardCount.isPowerOfTwo
  enough : c.concurrency ≤ c.shardCount
  least : ∀ n, n.isPowerOfTwo → c.concurrency ≤ n → c.shardCount ≤ n
  bounds : 1 ≤ c.shardCount ∧ c.shardCount ≤ 65536
  shard : ∀ hash : UInt64, shardOf c.shardCount hash < c.shardCount ∧
    shardOf c.shardCount hash = hash.toNat / 2 ^ 32 % c.shardCount
  /-- Shards are kept in tickets as words of 32 bits. -/
  narrow : ∀ k < c.shardCount, (UInt32.ofNat k).toNat = k
  room : c.capacity ≤ c.shardCount * c.shardCapacity ∧
    c.shardCount * c.shardCapacity < c.capacity + c.shardCount
  fit : c.concurrency < 2 ^ 64 ∧ c.capacity < 2 ^ 64
  words : ∀ concurrency capacity : UInt64,
    concurrency.toNat = c.concurrency → capacity.toNat = c.capacity →
      ∃ count each, Word.roundUp concurrency = some count ∧ count.toNat = c.shardCount ∧
        Word.shardCapacity capacity count = some each ∧ each.toNat = c.shardCapacity ∧
        ∀ hash, ∃ k, Word.shardOf count hash = some k ∧ k.toNat = shardOf c.shardCount hash

theorem Settings.fitTogether {c : Settings} (h : c.fault? = none) : c.FitTogether := by
  obtain ⟨-, hconc, hcap⟩ := fault?_eq_none_iff.mp h
  have hle : c.shardCount ≤ 65536 := shardCount_le hconc
  exact
    { power := c.shardCount_least.1
      enough := c.shardCount_least.2.1
      least := by rintro _ ⟨k, rfl⟩ hn; exact c.shardCount_least.2.2 k hn
      bounds := ⟨c.shardCount_pos, hle⟩
      shard hash := ⟨c.shardOf_lt hash, shardOf_eq_mod c.shardCount_least.1 hash⟩
      narrow k hk := UInt32.toNat_ofNat_of_lt' (by rw [UInt32.size]; omega)
      room := mul_shardCapacity hcap
      fit := ⟨hconc.trans_lt (by decide), hcap.trans_lt (by decide)⟩
      words concurrency capacity hn hm := by
        obtain ⟨count, hx, hcount⟩ := Word.roundUp_eq (x := concurrency)
          (hn ▸ hconc.trans (by decide : maxConcurrency ≤ 2 ^ 63))
        have hcount : count.toNat = c.shardCount := by rw [hcount, hn, shardCount]
        obtain ⟨each, hy, heach⟩ := Word.shardCapacity_eq capacity
          (hcount ▸ c.shardCount_pos) (hcount ▸ hle)
        exact ⟨count, each, hx, hcount, hy, by rw [heach, hm, hcount, shardCapacity], fun hash =>
          hcount ▸ Word.shardOf_eq (hcount ▸ c.shardCount_pos)⟩ }

end WeakSet
