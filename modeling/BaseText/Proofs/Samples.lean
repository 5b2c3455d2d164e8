import BaseText.Sample
import Mathlib.Logic.Function.Iterate
import Mathlib.Tactic.Common

/-!
# Samples that never degenerate

A step of the sample data loses nothing: a word that is changed by its own shift can be told from
what it has become, so that the step is injective. Zero is its own successor, and therefore no other
state ever leads to it.
-/

namespace BaseText.Proofs

open Sample

section Shifts

variable {w k : Nat} {z : BitVec w}

/-- From the lowest bit up, every bit is a bit further down, or none. -/
lemma eq_zero_of_shiftLeft (hk : 0 < k) (h : z <<< k = z) : z = 0#w := by
  apply BitVec.eq_of_getLsbD_eq
  intro i hi
  rw [BitVec.getLsbD_zero]
  induction i using Nat.strongRecOn with
  | ind i ih =>
    rw [← h, BitVec.getLsbD_shiftLeft]
    by_cases hlow : i < k
    · simp [hlow]
    · rw [ih (i - k) (by omega) (by omega), Bool.and_false]

/-- From the highest bit down, every bit is a bit further up, or none. -/
lemma eq_zero_of_ushiftRight (hk : 0 < k) (h : z >>> k = z) : z = 0#w := by
  apply BitVec.eq_of_getLsbD_eq
  intro i hi
  rw [BitVec.getLsbD_zero]
  induction hleft : w - i using Nat.strongRecOn generalizing i with
  | ind left ih =>
    rw [← h, BitVec.getLsbD_ushiftRight]
    by_cases hhigh : k + i < w
    · exact ih (w - (k + i)) (by omega) (k + i) hhigh rfl
    · exact BitVec.getLsbD_of_ge z (k + i) (Nat.not_lt.1 hhigh)

/-- What two words differ in is the same as its own shift if they are changed into the same. -/
lemma xor_shift_injective (shift : BitVec w → BitVec w)
    (hxor : ∀ x y, shift (x ^^^ y) = shift x ^^^ shift y) (hzero : ∀ z, shift z = z → z = 0#w) :
    Function.Injective fun x => x ^^^ shift x := by
  intro x y h
  have hsame : x ^^^ shift x = y ^^^ shift y := h
  have hdiff : shift (x ^^^ y) = x ^^^ y := by
    calc shift (x ^^^ y) = shift x ^^^ shift y := hxor x y
      _ = x ^^^ (x ^^^ shift x) ^^^ shift y := by
        rw [← BitVec.xor_assoc x, BitVec.xor_self, BitVec.zero_xor]
      _ = x ^^^ (y ^^^ shift y) ^^^ shift y := by rw [hsame]
      _ = x ^^^ y := by rw [BitVec.xor_assoc, BitVec.xor_assoc, BitVec.xor_self, BitVec.xor_zero]
  exact BitVec.xor_eq_zero_iff.1 (hzero _ hdiff)

lemma xor_shiftLeft_injective (hk : 0 < k) :
    Function.Injective fun x : BitVec w => x ^^^ x <<< k :=
  xor_shift_injective (· <<< k) (fun x y => BitVec.shiftLeft_xor_distrib x y k)
    fun _ => eq_zero_of_shiftLeft hk

lemma xor_ushiftRight_injective (hk : 0 < k) :
    Function.Injective fun x : BitVec w => x ^^^ x >>> k :=
  xor_shift_injective (· >>> k) (fun x y => BitVec.ushiftRight_xor_distrib x y k)
    fun _ => eq_zero_of_ushiftRight hk

end Shifts

/-- The state after some steps from a seed. -/
def stateAfter (seed : UInt64) (steps : Nat) : UInt64 := advance^[steps] (start seed)

lemma advance_injective : Function.Injective advance := by
  intro x y h
  have hword := congrArg UInt64.toBitVec h
  simp only [advance, UInt64.toBitVec_xor, UInt64.toBitVec_shiftLeft,
    UInt64.toBitVec_shiftRight] at hword
  apply UInt64.toBitVec_inj.1
  have hthird := xor_shiftLeft_injective (w := 64) (by decide : 0 < 17) hword
  have hsecond := xor_ushiftRight_injective (w := 64) (by decide : 0 < 7) hthird
  exact xor_shiftLeft_injective (w := 64) (by decide : 0 < 13) hsecond

lemma start_eq_max (seed : UInt64) : start seed = max seed 1 := by
  rw [start, UInt64.max_def]
  split_ifs with hzero hle hle
  · rfl
  · rw [hzero] at hle
    exact absurd (by decide) hle
  · have hone : seed.toNat ≤ 1 := UInt64.le_iff_toNat_le.1 hle
    have hpos : seed.toNat ≠ 0 := fun h => hzero (UInt64.toNat_inj.1 h)
    exact UInt64.toNat_inj.1 (Nat.le_antisymm hone (Nat.one_le_iff_ne_zero.2 hpos))
  · rfl

lemma start_ne_zero (seed : UInt64) : start seed ≠ 0 := by
  unfold start
  split
  · decide
  · assumption

/-- Only zero leads to zero. -/
lemma stateAfter_ne_zero (seed : UInt64) (steps : Nat) : stateAfter seed steps ≠ 0 := by
  have hzero : advance^[steps] 0 = 0 := Function.iterate_fixed (by decide) steps
  intro h
  apply start_ne_zero seed
  exact advance_injective.iterate steps (h.trans hzero.symm)

lemma bytesFrom_eq (state : UInt64) (n : Nat) :
    bytesFrom state n = (List.range n).map fun i => (advance^[i + 1] state).toUInt8 := by
  induction n generalizing state with
  | zero => rfl
  | succ n ih =>
    rw [bytesFrom, ih, List.range_succ_eq_map, List.map_cons, List.map_map]
    rfl

/-- The state is never zero, and a step can be told backward: states that differ go on to differ. A
shorter sample of a seed is the beginning of every longer one. -/
theorem sample_states :
    (∀ seed, start seed = max seed 1) ∧ (∀ seed steps, stateAfter seed steps ≠ 0) ∧
      Function.Injective advance ∧
      (∀ seed seed', seed ≠ 0 → seed' ≠ 0 → seed ≠ seed' →
        ∀ steps, stateAfter seed steps ≠ stateAfter seed' steps) ∧
      (∀ seed n, bytes seed n = (List.range n).map fun i => (stateAfter seed (i + 1)).toUInt8) ∧
      ∀ seed m n, m ≤ n → bytes seed m = (bytes seed n).take m := by
  have hbytes (seed : UInt64) (n : Nat) := bytesFrom_eq (start seed) n
  refine ⟨start_eq_max, stateAfter_ne_zero, advance_injective, ?_, hbytes, ?_⟩
  · intro seed seed' hseed hseed' hne steps h
    have hstart := advance_injective.iterate steps h
    rw [start, start, if_neg hseed, if_neg hseed'] at hstart
    exact hne hstart
  · intro seed m n hle
    rw [bytes, bytes, hbytes, hbytes, ← List.map_take, List.take_range, Nat.min_eq_left hle]

/-- Two seeds, of which one is the state that the other leads to. -/
theorem sample_states_successor :
    stateAfter 1 3 ≠ stateAfter (advance 1) 3 ∧ bytes 1 2 = (bytes 1 3).take 2 :=
  ⟨sample_states.2.2.2.1 1 (advance 1) (by decide) (by decide) (by decide) 3,
    sample_states.2.2.2.2.2 1 2 3 (by decide)⟩

end BaseText.Proofs
