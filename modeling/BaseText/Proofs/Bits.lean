import BaseText.Digits
import Mathlib.Algebra.Order.Ring.Nat
import Mathlib.Tactic.Common

/-!
# Digits as bits

Digits of a fixed width are a list of bits, read from the end that the bit order names. Gathering
digits in one number and cutting a number into digits of another width both keep that list, up to
the zeros that fill the number and the bits that are cut off.
-/

namespace BaseText.Proofs

/-- The bit at place `p` of a digit. -/
def digitBit (order : BitOrder) (width digit p : Nat) : Bool :=
  match order with
  | .bigEndian => digit.testBit (width - 1 - p)
  | .littleEndian => digit.testBit p

/-- The bits of a digit. -/
def digitBits (order : BitOrder) (width digit : Nat) : List Bool :=
  (List.range width).map (digitBit order width digit)

/-- The bits of digits one after the other. -/
def bitsOf (order : BitOrder) (width : Nat) (digits : List Nat) : List Bool :=
  digits.flatMap (digitBits order width)

section Lists

variable (order : BitOrder) (width : Nat)

@[simp] lemma length_digitBits (digit : Nat) : (digitBits order width digit).length = width := by
  simp [digitBits]

@[simp] lemma bitsOf_nil : bitsOf order width [] = [] := rfl

@[simp] lemma bitsOf_cons (d : Nat) (digits : List Nat) :
    bitsOf order width (d :: digits) = digitBits order width d ++ bitsOf order width digits := rfl

@[simp] lemma bitsOf_append (digits more : List Nat) :
    bitsOf order width (digits ++ more) = bitsOf order width digits ++ bitsOf order width more :=
  List.flatMap_append

@[simp] lemma length_bitsOf (digits : List Nat) :
    (bitsOf order width digits).length = width * digits.length := by
  induction digits with
  | nil => rfl
  | cons d digits ih =>
    rw [bitsOf_cons, List.length_append, length_digitBits, ih, List.length_cons, Nat.mul_succ,
      Nat.add_comm]

variable {width}

lemma getElem_bitsOf (hwidth : 0 < width) (digits : List Nat) (p : Nat) :
    (bitsOf order width digits)[p]? =
      digits[p / width]?.map fun d => digitBit order width d (p % width) := by
  induction digits generalizing p with
  | nil => simp
  | cons d digits ih =>
    by_cases hp : p < width
    · have hdiv : p / width = 0 := Nat.div_eq_of_lt hp
      rw [bitsOf_cons, List.getElem?_append_left (by simpa using hp), hdiv, Nat.mod_eq_of_lt hp]
      simp [digitBits, hp]
    · obtain ⟨q, rfl⟩ : ∃ q, p = q + width := ⟨p - width, by omega⟩
      have hdiv : (q + width) / width = q / width + 1 := Nat.add_div_right q hwidth
      rw [bitsOf_cons, List.getElem?_append_right (by simp), length_digitBits, Nat.add_sub_cancel,
        ih, hdiv, Nat.add_mod_right, List.getElem?_cons_succ]

lemma digitBits_injective {d d' : Nat} (hd : d < 2 ^ width) (hd' : d' < 2 ^ width)
    (h : digitBits order width d = digitBits order width d') : d = d' := by
  have hbits : ∀ p, p < width → digitBit order width d p = digitBit order width d' p := by
    intro p hp
    have hplace := congrArg (fun l => l[p]?) h
    simpa [digitBits, hp] using hplace
  apply Nat.eq_of_testBit_eq
  intro i
  by_cases hi : i < width
  · cases order with
    | bigEndian =>
      have hplace := hbits (width - 1 - i) (by omega)
      have hback : width - 1 - (width - 1 - i) = i := by omega
      simpa [digitBit, hback] using hplace
    | littleEndian => exact hbits i hi
  · have hpow : 2 ^ width ≤ 2 ^ i := Nat.pow_le_pow_right (by decide) (by omega)
    rw [Nat.testBit_lt_two_pow (Nat.lt_of_lt_of_le hd hpow),
      Nat.testBit_lt_two_pow (Nat.lt_of_lt_of_le hd' hpow)]

lemma bitsOf_injective {digits digits' : List Nat} (hwidth : 0 < width)
    (hd : ∀ d ∈ digits, d < 2 ^ width) (hd' : ∀ d ∈ digits', d < 2 ^ width)
    (h : bitsOf order width digits = bitsOf order width digits') : digits = digits' := by
  have hlength : digits.length = digits'.length := by
    have hlength := congrArg List.length h
    rw [length_bitsOf, length_bitsOf] at hlength
    exact Nat.eq_of_mul_eq_mul_left hwidth hlength
  induction digits generalizing digits' with
  | nil => exact (List.length_eq_zero_iff.1 hlength.symm).symm
  | cons d digits ih =>
    obtain _ | ⟨d', digits'⟩ := digits'
    · simp at hlength
    · obtain ⟨hhead, htail⟩ := List.append_inj h (by simp)
      rw [digitBits_injective order (hd d (by simp)) (hd' d' (by simp)) hhead,
        ih (fun d h => hd d (List.mem_cons_of_mem _ h))
          (fun d h => hd' d (List.mem_cons_of_mem _ h)) htail (by simpa using hlength)]

end Lists

section Number

variable {order : BitOrder} {width count : Nat}

lemma digitBit_or (order : BitOrder) (width a b p : Nat) :
    digitBit order width (a ||| b) p = (digitBit order width a p || digitBit order width b p) := by
  cases order <;> simp [digitBit]

/-- A digit that is shifted to its place in a number has its bits at that place, and no others. -/
lemma digitBit_shift {d i p : Nat} (hd : d < 2 ^ width) (hi : i < count) (hp : p < width * count) :
    digitBit order (width * count) (d <<< order.shift width count i) p =
      (decide (p / width = i) && digitBit order width d (p % width)) := by
  have hwidth : 0 < width := Nat.pos_of_ne_zero fun h => by simp [h] at hp
  have hmod := Nat.mod_lt p hwidth
  have hplace := Nat.div_add_mod p width
  have hend : width * (i + 1) ≤ width * count := Nat.mul_le_mul_left _ hi
  have hzero : ∀ q, width ≤ q → d.testBit q = false := fun q hq =>
    Nat.testBit_lt_two_pow (Nat.lt_of_lt_of_le hd (Nat.pow_le_pow_right (by decide) hq))
  rw [Nat.mul_succ] at hend
  rcases Nat.lt_trichotomy (p / width) i with hlt | rfl | hgt
  · have hbelow : width * (p / width + 1) ≤ width * i := Nat.mul_le_mul_left _ hlt
    rw [Nat.mul_succ] at hbelow
    rw [decide_eq_false (Nat.ne_of_lt hlt), Bool.false_and]
    cases order with
    | bigEndian =>
      simp only [digitBit, BitOrder.shift, Nat.mul_succ, Nat.testBit_shiftLeft]
      rw [hzero _ (by omega), Bool.and_false]
    | littleEndian =>
      simp only [digitBit, BitOrder.shift, Nat.testBit_shiftLeft]
      rw [decide_eq_false (by omega), Bool.false_and]
  · rw [decide_eq_true rfl, Bool.true_and]
    cases order with
    | bigEndian =>
      simp only [digitBit, BitOrder.shift, Nat.mul_succ, Nat.testBit_shiftLeft]
      rw [decide_eq_true (by omega), Bool.true_and]
      congr 1
      omega
    | littleEndian =>
      simp only [digitBit, BitOrder.shift, Nat.testBit_shiftLeft]
      rw [decide_eq_true (by omega), Bool.true_and]
      congr 1
      omega
  · have habove : width * (i + 1) ≤ width * (p / width) := Nat.mul_le_mul_left _ hgt
    rw [Nat.mul_succ] at habove
    rw [decide_eq_false (Nat.ne_of_gt hgt), Bool.false_and]
    cases order with
    | bigEndian =>
      simp only [digitBit, BitOrder.shift, Nat.mul_succ, Nat.testBit_shiftLeft]
      rw [decide_eq_false (by omega), Bool.false_and]
    | littleEndian =>
      simp only [digitBit, BitOrder.shift, Nat.testBit_shiftLeft]
      rw [hzero _ (by omega), Bool.and_false]

lemma digitBit_foldl (order : BitOrder) {digits : List Nat} (hd : ∀ d ∈ digits, d < 2 ^ width)
    {n k p : Nat} (hk : k + digits.length ≤ count) (hp : p < width * count) :
    digitBit order (width * count)
        ((digits.zipIdx k).foldl (fun n (d, i) => n ||| d <<< order.shift width count i) n) p =
      (digitBit order (width * count) n p || (decide (k ≤ p / width) &&
        digits[p / width - k]?.any fun d => digitBit order width d (p % width))) := by
  induction digits generalizing n k with
  | nil => simp
  | cons d digits ih =>
    rw [List.zipIdx_cons, List.foldl_cons, ih (fun d h => hd d (List.mem_cons_of_mem _ h))
      (by simp at hk; omega), digitBit_or,
      digitBit_shift (hd d (by simp)) (by simp at hk; omega) hp, Bool.or_assoc]
    congr 1
    rcases Nat.lt_trichotomy (p / width) k with hlt | rfl | hgt
    · rw [decide_eq_false (Nat.ne_of_lt hlt), decide_eq_false (by omega),
        decide_eq_false (by omega)]
      rfl
    · rw [decide_eq_true rfl, decide_eq_false (by omega), decide_eq_true (Nat.le_refl _),
        Nat.sub_self]
      simp
    · have hsub : p / width - k = p / width - (k + 1) + 1 := by omega
      rw [decide_eq_false (Nat.ne_of_gt hgt), decide_eq_true (by omega), decide_eq_true (by omega),
        hsub, List.getElem?_cons_succ]
      rfl

lemma getElem_digitBits {digit p : Nat} (hp : p < width) :
    (digitBits order width digit)[p]? = some (digitBit order width digit p) := by
  simp [digitBits, hp]

/-- Gathering digits in a number keeps their bits and fills up with zeros. -/
theorem digitBits_toNat {digits : List Nat} (hd : ∀ d ∈ digits, d < 2 ^ width)
    (hlength : digits.length ≤ count) :
    digitBits order (width * count) (Digits.toNat order width count digits) =
      bitsOf order width digits ++ List.replicate (width * (count - digits.length)) false := by
  have htotal : width * digits.length + width * (count - digits.length) = width * count := by
    rw [← Nat.mul_add, Nat.add_sub_cancel' hlength]
  apply List.ext_getElem?
  intro p
  by_cases hp : p < width * count
  · have hwidth : 0 < width := Nat.pos_of_ne_zero fun h => by simp [h] at hp
    have hbit := digitBit_foldl order (n := 0) (k := 0) hd (by omega) hp
    have hzero : digitBit order (width * count) 0 p = false := by cases order <;> simp [digitBit]
    rw [hzero, decide_eq_true (Nat.zero_le _), Nat.sub_zero, Bool.true_and, Bool.false_or] at hbit
    rw [getElem_digitBits hp, Digits.toNat, hbit]
    by_cases hin : p < width * digits.length
    · have hdiv : p / width < digits.length := Nat.div_lt_of_lt_mul hin
      rw [List.getElem?_append_left (by simpa using hin), getElem_bitsOf order hwidth,
        List.getElem?_eq_getElem hdiv]
      rfl
    · have hdiv : digits.length ≤ p / width := by
        rw [Nat.le_div_iff_mul_le hwidth, Nat.mul_comm]
        omega
      rw [List.getElem?_append_right (by simpa using hin), List.getElem?_eq_none hdiv,
        length_bitsOf, List.getElem?_replicate, if_pos (by omega)]
      rfl
  · rw [List.getElem?_eq_none (by simp; omega), List.getElem?_eq_none (by simp; omega)]

lemma digitBit_cut {i p : Nat} (hi : i < count) (hp : p < width) (n : Nat) :
    digitBit order width ((n >>> order.shift width count i) % 2 ^ width) p =
      digitBit order (width * count) n (width * i + p) := by
  have hend : width * (i + 1) ≤ width * count := Nat.mul_le_mul_left _ hi
  rw [Nat.mul_succ] at hend
  cases order with
  | bigEndian =>
    simp only [digitBit, BitOrder.shift, Nat.testBit_mod_two_pow, Nat.testBit_shiftRight,
      Nat.mul_succ]
    rw [decide_eq_true (by omega), Bool.true_and]
    congr 1
    omega
  | littleEndian =>
    simp only [digitBit, BitOrder.shift, Nat.testBit_mod_two_pow, Nat.testBit_shiftRight]
    rw [decide_eq_true hp, Bool.true_and]

/-- Cutting a number into digits keeps its bits as far as there are digits. -/
theorem bitsOf_ofNat {wanted : Nat} (hwanted : wanted ≤ count) (n : Nat) :
    bitsOf order width (Digits.ofNat order width count wanted n) =
      (digitBits order (width * count) n).take (width * wanted) := by
  have hle : width * wanted ≤ width * count := Nat.mul_le_mul_left _ hwanted
  apply List.ext_getElem?
  intro p
  by_cases hp : p < width * wanted
  · have hwidth : 0 < width := Nat.pos_of_ne_zero fun h => by simp [h] at hp
    have hdiv : p / width < wanted := Nat.div_lt_of_lt_mul hp
    rw [getElem_bitsOf order hwidth, List.getElem?_take_of_lt hp,
      getElem_digitBits (Nat.lt_of_lt_of_le hp hle)]
    simp only [Digits.ofNat, List.getElem?_map, List.getElem?_range hdiv, Option.map_some,
      Nat.pow_eq]
    rw [digitBit_cut (Nat.lt_of_lt_of_le hdiv hwanted) (Nat.mod_lt p hwidth), Nat.div_add_mod]
  · rw [List.getElem?_eq_none (by simp [Digits.ofNat]; omega), List.getElem?_take,
      if_neg hp]

end Number

end BaseText.Proofs
