import BaseText.Codec
import Mathlib.Algebra.Order.Ring.Nat
import Mathlib.Tactic.Common

/-!
# Symbols and their values

Reading a symbol undoes writing its value, and the padding symbol never has a value where it is
read as padding.
-/

namespace BaseText.Proofs

/-- The characters that carry data: hexadecimal digits of either case, or the entries of a table. -/
def IsSymbol : Codec → Char → Prop
  | .base16, c => ('0' ≤ c ∧ c ≤ '9') ∨ ('a' ≤ c ∧ c ≤ 'f') ∨ ('A' ≤ c ∧ c ≤ 'F')
  | .base32 a, c => ∃ b ∈ a.symbols.toList, Char.ofUInt8 b = c
  | .base64 a, c => ∃ b ∈ a.symbols.toList, Char.ofUInt8 b = c

section Alphabet

variable {bits : Nat} (a : Alphabet bits)

lemma ofUInt8_injective {b b' : UInt8} (h : Char.ofUInt8 b = Char.ofUInt8 b') : b = b' := by
  have hval : b.toUInt32 = b'.toUInt32 := congrArg Char.val h
  exact UInt8.toUInt32_inj.1 hval

lemma alphabet_value_isSome (c : Char) :
    (a.value? c).isSome ↔ ∃ b ∈ a.symbols.toList, Char.ofUInt8 b = c := by
  rw [Alphabet.value?, List.findIdx?_isSome, List.any_eq_true]
  simp only [beq_iff_eq]

lemma alphabet_value_lt {c : Char} {v : Nat} (h : a.value? c = some v) : v < 2 ^ bits := by
  obtain ⟨hv, -⟩ := List.findIdx?_eq_some_iff_getElem.1 h
  simpa using hv

lemma alphabet_value_symbol (v : Nat) : a.value? (a.symbol v) = some (v % 2 ^ bits) := by
  have hv := Nat.mod_lt v (Nat.two_pow_pos bits)
  have hsize : v % 2 ^ bits < a.symbols.toList.length := by simpa using hv
  refine List.findIdx?_eq_some_iff_getElem.2 ⟨hsize, ?_, ?_⟩
  · exact beq_self_eq_true _
  · intro j hj
    have hne : a.symbols.toList[j] ≠ a.symbols.toList[v % 2 ^ bits] := by
      intro heq
      exact Nat.ne_of_lt hj ((List.getElem_inj a.distinct).1 heq)
    rw [Bool.not_eq_true, beq_eq_false_iff_ne]
    exact fun heq => hne (ofUInt8_injective heq)

lemma alphabet_symbol_value {c : Char} {v : Nat} (h : a.value? c = some v) : a.symbol v = c := by
  obtain ⟨hv, hc, -⟩ := List.findIdx?_eq_some_iff_getElem.1 h
  have hmod : v % 2 ^ bits = v := Nat.mod_eq_of_lt (by simpa using hv)
  rw [← beq_iff_eq.1 hc, Alphabet.symbol]
  congr 1
  simp [Vector.get, hmod]

lemma alphabet_value_pad : a.value? pad = none := by
  rw [Alphabet.value?, List.findIdx?_eq_none_iff]
  intro b hb
  have hvisible := a.visible b hb
  simp only [isSymbol, Bool.and_eq_true, bne_iff_ne] at hvisible
  simpa using hvisible.2

lemma alphabet_toNat_lt {c : Char} (h : ∃ b ∈ a.symbols.toList, Char.ofUInt8 b = c) :
    c.toNat < 128 := by
  obtain ⟨b, hb, rfl⟩ := h
  have hvisible := a.visible b hb
  simp only [isSymbol, Bool.and_eq_true, decide_eq_true_eq, UInt8.le_iff_toNat_le] at hvisible
  exact Nat.lt_of_le_of_lt hvisible.1.2 (by decide)

end Alphabet

lemma hexValue_isSome (c : Char) : (Codec.hexValue? c).isSome ↔ IsSymbol .base16 c := by
  unfold Codec.hexValue? IsSymbol
  split
  · simp [*]
  · split
    · simp [*]
    · split <;> simp [*]

lemma hexValue_lt {c : Char} {v : Nat} (h : Codec.hexValue? c = some v) : v < 16 := by
  unfold Codec.hexValue? at h
  simp only [Char.le_def, UInt32.le_iff_toNat_le, Char.toNat] at h
  have hcodes : '0'.val.toNat = 48 ∧ '9'.val.toNat = 57 ∧ 'a'.val.toNat = 97 ∧
      'f'.val.toNat = 102 ∧ 'A'.val.toNat = 65 ∧ 'F'.val.toNat = 70 :=
    ⟨rfl, rfl, rfl, rfl, rfl, rfl⟩
  grind

lemma hexValue_hexDigit (v : Nat) (upper : Bool) :
    Codec.hexValue? (Codec.hexDigit v upper) = some (v % 16) := by
  have hdigits : ∀ w : Fin 16, ∀ upper, Codec.hexValue? (Codec.hexDigit w upper) = some w.val := by
    decide
  have hmod : Codec.hexDigit v upper = Codec.hexDigit (v % 16) upper := by
    rw [Codec.hexDigit, Codec.hexDigit, Nat.mod_mod]
  rw [hmod]
  exact hdigits ⟨v % 16, Nat.mod_lt _ (by decide)⟩ upper

section Codec

variable (codec : Codec)

lemma value_isSome (c : Char) : (codec.value? c).isSome ↔ IsSymbol codec c := by
  cases codec with
  | base16 => exact hexValue_isSome c
  | base32 a => exact alphabet_value_isSome a c
  | base64 a => exact alphabet_value_isSome a c

instance : DecidablePred (IsSymbol codec) :=
  fun c => decidable_of_iff _ (value_isSome codec c)

variable {codec} in
lemma toNat_lt_of_isSymbol {c : Char} (h : IsSymbol codec c) : c.toNat < 128 := by
  cases codec with
  | base16 =>
    simp only [IsSymbol, Char.le_def, UInt32.le_iff_toNat_le] at h
    have hcodes : '9'.val.toNat = 57 ∧ 'f'.val.toNat = 102 ∧ 'F'.val.toNat = 70 := ⟨rfl, rfl, rfl⟩
    rw [Char.toNat]
    omega
  | base32 a => exact alphabet_toNat_lt a h
  | base64 a => exact alphabet_toNat_lt a h

lemma value_lt {c : Char} {v : Nat} (h : codec.value? c = some v) : v < 2 ^ codec.bits := by
  cases codec with
  | base16 => exact hexValue_lt h
  | base32 a => exact alphabet_value_lt a h
  | base64 a => exact alphabet_value_lt a h

/-- Reading a symbol gives the value it was written for. -/
theorem value_symbol (v : Nat) (upper : Bool) :
    codec.value? (codec.symbol v upper) = some (v % 2 ^ codec.bits) := by
  cases codec with
  | base16 => exact hexValue_hexDigit v upper
  | base32 a => exact alphabet_value_symbol a v
  | base64 a => exact alphabet_value_symbol a v

/-- The padding symbol carries no data in any codec. -/
theorem value_pad : codec.value? pad = none := by
  cases codec with
  | base16 => decide
  | base32 a => exact alphabet_value_pad a
  | base64 a => exact alphabet_value_pad a

end Codec

end BaseText.Proofs
