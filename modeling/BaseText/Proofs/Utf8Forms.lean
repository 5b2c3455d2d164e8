import BaseText.Proofs.Runs
import Mathlib.Data.List.Forall2
import Mathlib.Order.Bounds.Basic
import Mathlib.Tactic.Common

/-!
# UTF-8 taken exactly

Which bytes are the form of a character is told by ranges alone: no character has a longer form than
it needs, a surrogate has none, nor has anything above the last plane. Bytes that are one such form
after the other become the text of these characters. Of other bytes the longest beginning that is
one counts, whether or not a quick check has looked at the whole before.
-/

namespace BaseText.Proofs

/-- The characters by the ranges that their bytes are taken from, one after the other. -/
def characterForms : List (List (UInt8 × UInt8)) :=
  [[(0x00, 0x7F)],
   [(0xC2, 0xDF), (0x80, 0xBF)],
   [(0xE0, 0xE0), (0xA0, 0xBF), (0x80, 0xBF)],
   [(0xE1, 0xEC), (0x80, 0xBF), (0x80, 0xBF)],
   [(0xED, 0xED), (0x80, 0x9F), (0x80, 0xBF)],
   [(0xEE, 0xEF), (0x80, 0xBF), (0x80, 0xBF)],
   [(0xF0, 0xF0), (0x90, 0xBF), (0x80, 0xBF), (0x80, 0xBF)],
   [(0xF1, 0xF3), (0x80, 0xBF), (0x80, 0xBF), (0x80, 0xBF)],
   [(0xF4, 0xF4), (0x80, 0x8F), (0x80, 0xBF), (0x80, 0xBF)]]

/-- There is a byte in every range, in this order. -/
def InForm (form : List (UInt8 × UInt8)) (bytes : List UInt8) : Prop :=
  List.Forall₂ (fun range b => range.1 ≤ b ∧ b ≤ range.2) form bytes

/-- One character after the other. -/
inductive WellFormed : List UInt8 → Prop
  | nil : WellFormed []
  | character {form : List (UInt8 × UInt8)} {bytes rest : List UInt8}
      (hform : form ∈ characterForms) (hbytes : InForm form bytes) (hrest : WellFormed rest) :
      WellFormed (bytes ++ rest)

@[simp] lemma inForm_nil {bytes : List UInt8} : InForm [] bytes ↔ bytes = [] :=
  List.forall₂_nil_left_iff

@[simp] lemma inForm_cons {range : UInt8 × UInt8} {form : List (UInt8 × UInt8)}
    {bytes : List UInt8} :
    InForm (range :: form) bytes ↔
      ∃ b rest, bytes = b :: rest ∧ (range.1.toNat ≤ b.toNat ∧ b.toNat ≤ range.2.toNat) ∧
        InForm form rest := by
  simp only [InForm, List.forall₂_cons_left_iff, UInt8.le_iff_toNat_le]
  constructor
  · rintro ⟨b, rest, hb, hrest, rfl⟩
    exact ⟨b, rest, rfl, hb, hrest⟩
  · rintro ⟨b, rest, rfl, hb, hrest⟩
    exact ⟨b, rest, hb, hrest, rfl⟩

lemma exists_char {v : Nat} (hv : v.isValidChar) : ∃ c : Char, c.val.toNat = v :=
  ⟨.ofNatAux v hv, rfl⟩

lemma exists_form {bytes : List UInt8} (i : Nat) (hi : i < characterForms.length)
    (hbytes : InForm characterForms[i] bytes) : ∃ form ∈ characterForms, InForm form bytes :=
  ⟨_, List.getElem_mem hi, hbytes⟩

lemma inForm_encodeChar (c : Char) :
    ∃ form ∈ characterForms, InForm form (String.utf8EncodeChar c) := by
  have hcode : c.val.toNat.isValidChar := c.valid
  unfold Nat.isValidChar at hcode
  fun_cases String.utf8EncodeChar with
  | case1 v => exact exists_form 0 (by decide) (by simp [characterForms]; omega)
  | case2 v => exact exists_form 1 (by decide) (by simp [characterForms]; omega)
  | case3 v =>
    by_cases hlow : v < 0x1000
    · exact exists_form 2 (by decide) (by simp [characterForms]; omega)
    by_cases hmid : v < 0xD000
    · exact exists_form 3 (by decide) (by simp [characterForms]; omega)
    by_cases hbelow : v < 0xE000
    · exact exists_form 4 (by decide) (by simp [characterForms]; omega)
    · exact exists_form 5 (by decide) (by simp [characterForms]; omega)
  | case4 v =>
    by_cases hlow : v < 0x40000
    · exact exists_form 6 (by decide) (by simp [characterForms]; omega)
    by_cases hmid : v < 0x100000
    · exact exists_form 7 (by decide) (by simp [characterForms]; omega)
    · exact exists_form 8 (by decide) (by simp [characterForms]; omega)

section Bytes

variable {b₁ b₂ b₃ b₄ : UInt8}

/-- What a byte that is not the first of its character may be. -/
def Continues (b : UInt8) : Prop := 0x80 ≤ b.toNat ∧ b.toNat ≤ 0xBF

lemma encodes_one (h₁ : b₁.toNat ≤ 0x7F) : ∃ c, [b₁] = String.utf8EncodeChar c := by
  obtain ⟨c, hc⟩ := exists_char (v := b₁.toNat) (.inl (by omega))
  refine ⟨c, ?_⟩
  simp only [String.utf8EncodeChar, hc, if_pos h₁, UInt8.ofNat_toNat]

lemma encodes_two (h₁ : 0xC2 ≤ b₁.toNat ∧ b₁.toNat ≤ 0xDF) (h₂ : Continues b₂) :
    ∃ c, [b₁, b₂] = String.utf8EncodeChar c := by
  unfold Continues at h₂
  obtain ⟨c, hc⟩ := exists_char (v := (b₁.toNat - 0xC0) * 64 + (b₂.toNat - 0x80)) (.inl (by omega))
  refine ⟨c, ?_⟩
  simp only [String.utf8EncodeChar, hc]
  rw [if_neg (by omega), if_pos (by omega)]
  simp only [List.cons.injEq, ← UInt8.toNat_inj, UInt8.toNat_ofNat', and_true]
  constructor <;> omega

lemma encodes_three (h₁ : 0xE0 ≤ b₁.toNat ∧ b₁.toNat ≤ 0xEF) (h₂ : Continues b₂)
    (h₃ : Continues b₃) (hlow : b₁.toNat = 0xE0 → 0xA0 ≤ b₂.toNat)
    (hhigh : b₁.toNat = 0xED → b₂.toNat ≤ 0x9F) : ∃ c, [b₁, b₂, b₃] = String.utf8EncodeChar c := by
  unfold Continues at h₂ h₃
  obtain ⟨c, hc⟩ := exists_char
    (v := (b₁.toNat - 0xE0) * 4096 + (b₂.toNat - 0x80) * 64 + (b₃.toNat - 0x80))
    (by unfold Nat.isValidChar; omega)
  refine ⟨c, ?_⟩
  simp only [String.utf8EncodeChar, hc]
  rw [if_neg (by omega), if_neg (by omega), if_pos (by omega)]
  simp only [List.cons.injEq, ← UInt8.toNat_inj, UInt8.toNat_ofNat', and_true]
  refine ⟨?_, ?_, ?_⟩ <;> omega

lemma encodes_four (h₁ : 0xF0 ≤ b₁.toNat ∧ b₁.toNat ≤ 0xF4) (h₂ : Continues b₂)
    (h₃ : Continues b₃) (h₄ : Continues b₄) (hlow : b₁.toNat = 0xF0 → 0x90 ≤ b₂.toNat)
    (hhigh : b₁.toNat = 0xF4 → b₂.toNat ≤ 0x8F) :
    ∃ c, [b₁, b₂, b₃, b₄] = String.utf8EncodeChar c := by
  unfold Continues at h₂ h₃ h₄
  obtain ⟨c, hc⟩ := exists_char
    (v := (b₁.toNat - 0xF0) * 262144 + (b₂.toNat - 0x80) * 4096 + (b₃.toNat - 0x80) * 64 +
      (b₄.toNat - 0x80))
    (by unfold Nat.isValidChar; omega)
  refine ⟨c, ?_⟩
  simp only [String.utf8EncodeChar, hc]
  rw [if_neg (by omega), if_neg (by omega), if_neg (by omega)]
  simp only [List.cons.injEq, ← UInt8.toNat_inj, UInt8.toNat_ofNat', and_true]
  refine ⟨?_, ?_, ?_, ?_⟩ <;> omega

end Bytes

lemma exists_encodeChar {form : List (UInt8 × UInt8)} (hform : form ∈ characterForms)
    {bytes : List UInt8} (hbytes : InForm form bytes) : ∃ c, bytes = String.utf8EncodeChar c := by
  simp only [characterForms, List.mem_cons, List.not_mem_nil, or_false] at hform
  rcases hform with rfl | rfl | rfl | rfl | rfl | rfl | rfl | rfl | rfl
  all_goals simp at hbytes
  · obtain ⟨b₁, rfl, h₁⟩ := hbytes
    exact encodes_one h₁
  · obtain ⟨b₁, b₂, rfl, h₁, h₂⟩ := hbytes
    exact encodes_two h₁ h₂
  · obtain ⟨b₁, b₂, b₃, rfl, h₁, h₂, h₃⟩ := hbytes
    exact encodes_three (by omega) (by unfold Continues; omega) h₃ (by omega) (by omega)
  · obtain ⟨b₁, b₂, b₃, rfl, h₁, h₂, h₃⟩ := hbytes
    exact encodes_three (by omega) (by unfold Continues; omega) h₃ (by omega) (by omega)
  · obtain ⟨b₁, b₂, b₃, rfl, h₁, h₂, h₃⟩ := hbytes
    exact encodes_three (by omega) (by unfold Continues; omega) h₃ (by omega) (by omega)
  · obtain ⟨b₁, b₂, b₃, rfl, h₁, h₂, h₃⟩ := hbytes
    exact encodes_three (by omega) (by unfold Continues; omega) h₃ (by omega) (by omega)
  · obtain ⟨b₁, b₂, b₃, b₄, rfl, h₁, h₂, h₃, h₄⟩ := hbytes
    exact encodes_four (by omega) (by unfold Continues; omega) h₃ h₄ (by omega) (by omega)
  · obtain ⟨b₁, b₂, b₃, b₄, rfl, h₁, h₂, h₃, h₄⟩ := hbytes
    exact encodes_four (by omega) (by unfold Continues; omega) h₃ h₄ (by omega) (by omega)
  · obtain ⟨b₁, b₂, b₃, b₄, rfl, h₁, h₂, h₃, h₄⟩ := hbytes
    exact encodes_four (by omega) (by unfold Continues; omega) h₃ h₄ (by omega) (by omega)

lemma wellFormed_iff {bytes : List UInt8} :
    WellFormed bytes ↔ ∃ cs : List Char, bytes = cs.flatMap String.utf8EncodeChar := by
  constructor
  · intro h
    induction h with
    | nil => exact ⟨[], rfl⟩
    | character hform hbytes _ ih =>
      obtain ⟨c, rfl⟩ := exists_encodeChar hform hbytes
      obtain ⟨cs, rfl⟩ := ih
      exact ⟨c :: cs, rfl⟩
  · rintro ⟨cs, rfl⟩
    induction cs with
    | nil => exact .nil
    | cons c cs ih =>
      obtain ⟨form, hform, hbytes⟩ := inForm_encodeChar c
      exact .character hform hbytes ih

lemma eq_utf8Encode_iff {bytes : ByteArray} {cs : List Char} :
    bytes = cs.utf8Encode ↔ bytes.data.toList = cs.flatMap String.utf8EncodeChar := by
  rw [ByteArray.ext_iff, List.utf8Encode, ← Array.toList_inj, List.data_toByteArray]

lemma wellFormed_toList_iff {bytes : ByteArray} :
    WellFormed bytes.data.toList ↔ ∃ cs : List Char, bytes = cs.utf8Encode := by
  simp only [wellFormed_iff, eq_utf8Encode_iff]

lemma wellFormed_toList_iff_valid {bytes : ByteArray} :
    WellFormed bytes.data.toList ↔ bytes.IsValidUTF8 := by
  rw [wellFormed_toList_iff]
  exact ⟨fun ⟨cs, h⟩ => ⟨cs, h⟩, fun ⟨cs, h⟩ => ⟨cs, h⟩⟩

instance : DecidablePred WellFormed := fun bytes =>
  decidable_of_iff (ByteArray.IsValidUTF8 ⟨bytes.toArray⟩) wellFormed_toList_iff_valid.symm

/-- No overlong form, no surrogate, nothing above the last plane and no half a character. -/
example : ¬ WellFormed [0xC0, 0x80] ∧ ¬ WellFormed [0xED, 0xA0, 0x80] ∧
    ¬ WellFormed [0xF4, 0x90, 0x80, 0x80] ∧ ¬ WellFormed [0xE2, 0x82] := by
  decide

section Longest

variable {bytes : ByteArray} {start : Nat}

lemma drop_toList (bytes : ByteArray) (n : Nat) :
    bytes.data.toList.drop n = (bytes.extract n bytes.size).data.toList := by
  simp [← ByteArray.size_data, List.take_of_length_le]

/-- The bytes behind those that stand ahead of a place. -/
lemma extract_of_append {front rest : ByteArray}
    (h : bytes.extract start bytes.size = front ++ rest) :
    bytes.extract (start + front.size) bytes.size = rest := by
  have hdrop := congrArg (fun b => b.data.toList.drop front.size) h
  simp only [ByteArray.data_append, Array.toList_append, ← drop_toList, List.drop_drop] at hdrop
  rw [ByteArray.ext_iff, ← Array.toList_inj, ← drop_toList, hdrop, ← ByteArray.size_data]
  exact List.drop_left

lemma validLength_of_some {c : Char} (h : bytes.utf8DecodeChar? start = some c) :
    Utf8.validLength bytes start = Utf8.validLength bytes (start + c.utf8Size) := by
  rw [Utf8.validLength.eq_def]
  split
  · next c' hc' =>
    rw [hc'] at h
    cases h
    rfl
  · next hnone => rw [hnone] at h; cases h

/-- What has been read are characters. -/
lemma extract_validLength (bytes : ByteArray) (start : Nat) :
    start ≤ Utf8.validLength bytes start ∧
      (start ≤ bytes.size → Utf8.validLength bytes start ≤ bytes.size) ∧
      ∃ cs : List Char, bytes.extract start (Utf8.validLength bytes start) = cs.utf8Encode := by
  fun_induction Utf8.validLength bytes start with
  | case1 start c hc ih =>
    have hle := ByteArray.le_size_of_utf8DecodeChar?_eq_some hc
    obtain ⟨hge, hsize, cs, hcs⟩ := ih
    rw [ByteArray.utf8DecodeChar?_eq_utf8DecodeChar?_extract] at hc
    have hchar := String.toByteArray_utf8EncodeChar_of_utf8DecodeChar?_eq_some hc
    refine ⟨by omega, fun _ => hsize hle, c :: cs, ?_⟩
    rw [List.utf8Encode_cons, List.utf8Encode_singleton, ← hcs, hchar, ByteArray.extract_extract,
      Nat.add_zero, Nat.min_eq_left hle,
      ← ByteArray.extract_eq_extract_append_extract _ (by omega) hge]
  | case2 start hnone =>
    exact ⟨Nat.le_refl _, id, [], ByteArray.extract_same⟩

/-- Characters ahead of a place are all read from there, and perhaps more. -/
lemma le_validLength (cs : List Char) {rest : ByteArray}
    (h : bytes.extract start bytes.size = cs.utf8Encode ++ rest) :
    start + cs.utf8Encode.size ≤ Utf8.validLength bytes start := by
  induction cs generalizing start with
  | nil => exact (extract_validLength bytes start).1
  | cons c cs ih =>
    rw [List.utf8Encode_cons, List.utf8Encode_singleton, ByteArray.append_assoc] at h
    have hc : bytes.utf8DecodeChar? start = some c := by
      rw [ByteArray.utf8DecodeChar?_eq_utf8DecodeChar?_extract, h,
        ByteArray.utf8DecodeChar?_utf8EncodeChar_append]
    have hsize : (String.utf8EncodeChar c).toByteArray.size = c.utf8Size := by simp
    have hle := ih (extract_of_append h)
    rw [hsize] at hle
    rw [validLength_of_some hc, List.utf8Encode_cons, ByteArray.size_append,
      List.utf8Encode_singleton, hsize]
    omega

end Longest

/-- The longest beginning that is well formed. -/
lemma validLength_isGreatest (bytes : ByteArray) :
    IsGreatest {n | n ≤ bytes.size ∧ WellFormed (bytes.data.toList.take n)}
      (Utf8.validLength bytes 0) := by
  have htake (n : Nat) : bytes.data.toList.take n = (bytes.extract 0 n).data.toList := by simp
  obtain ⟨-, hle, hcs⟩ := extract_validLength bytes 0
  refine ⟨⟨hle (Nat.zero_le _), ?_⟩, ?_⟩
  · rw [htake, wellFormed_toList_iff]
    exact hcs
  · rintro n ⟨hn, hwell⟩
    rw [htake, wellFormed_toList_iff] at hwell
    obtain ⟨cs, hcs⟩ := hwell
    have hsplit : bytes.extract 0 bytes.size = cs.utf8Encode ++ bytes.extract n bytes.size := by
      rw [← hcs]
      exact ByteArray.extract_eq_extract_append_extract n (Nat.zero_le _) hn
    have hread := le_validLength cs hsplit
    rw [← hcs, ByteArray.size_extract] at hread
    omega

lemma decodeVia_cases {quick : ByteArray → Option String}
    (hquick : ∀ bytes text, quick bytes = some text → text.toByteArray = bytes)
    (bytes : ByteArray) :
    (∃ text, Utf8.decodeVia quick bytes = .ok text ∧ text.toByteArray = bytes) ∨
      ¬ bytes.IsValidUTF8 ∧ Utf8.decodeVia quick bytes = .error (Utf8.validLength bytes 0) := by
  unfold Utf8.decodeVia
  cases hq : quick bytes with
  | some text => exact .inl ⟨text, rfl, hquick bytes text hq⟩
  | none =>
    unfold Utf8.decode
    split_ifs with hvalid
    · exact .inl ⟨_, rfl, rfl⟩
    · exact .inr ⟨hvalid, rfl⟩

/-- The bytes become a cursor if and only if they are characters, and then the cursor is over just
these. Otherwise they are refused behind the longest beginning that is characters. A quick check
changes nothing as long as it takes no bytes for another text than theirs. -/
theorem ofUtf8_exact {quick : ByteArray → Option String}
    (hquick : ∀ bytes text, quick bytes = some text → text.toByteArray = bytes)
    (bytes : ByteArray) :
    (∀ cs : List Char, (∃ s, TextCursor.ofUtf8Via quick bytes = .ok s ∧
      (Cursor.collect s).result = .ok cs) ↔ bytes = cs.utf8Encode) ∧
    ((∃ s, TextCursor.ofUtf8Via quick bytes = .ok s) ↔ WellFormed bytes.data.toList) ∧
    (¬ WellFormed bytes.data.toList → ∃ k,
      TextCursor.ofUtf8Via quick bytes = .error ⟨.invalidUtf8, k⟩ ∧
        IsGreatest {n | n ≤ bytes.size ∧ WellFormed (bytes.data.toList.take n)} k) := by
  rcases decodeVia_cases hquick bytes with ⟨text, hok, rfl⟩ | ⟨hinvalid, herror⟩
  · have hcursor : TextCursor.ofUtf8Via quick text.toByteArray =
        .ok (TextCursor.ofString text) := by
      rw [TextCursor.ofUtf8Via, hok]
    have hcollect : (Cursor.collect (TextCursor.ofString text)).result = .ok text.toList :=
      (collect_shows simulation (text_shows text)).result
    have hwell := wellFormed_toList_iff_valid.2 text.isValidUTF8
    refine ⟨fun cs => ⟨?_, ?_⟩, ⟨fun _ => hwell, fun _ => ⟨_, hcursor⟩⟩, absurd hwell⟩
    · rintro ⟨s, hs, hcs⟩
      rw [hcursor] at hs
      cases hs
      rw [hcollect] at hcs
      cases hcs
      exact (String.utf8Encode_toList ..).symm
    · intro h
      have htext : text = String.ofList cs := by
        rw [← String.toByteArray_inj, h, String.toByteArray_ofList]
      refine ⟨_, hcursor, ?_⟩
      rw [hcollect, htext, String.toList_ofList]
  · have hcursor : TextCursor.ofUtf8Via quick bytes =
        .error ⟨.invalidUtf8, Utf8.validLength bytes 0⟩ := by
      rw [TextCursor.ofUtf8Via, herror]
    have hnone (s : TextCursor) : TextCursor.ofUtf8Via quick bytes ≠ .ok s := by
      rw [hcursor]
      exact fun h => nomatch h
    refine ⟨fun cs => ⟨?_, ?_⟩, ⟨?_, ?_⟩, fun _ => ⟨_, hcursor, validLength_isGreatest bytes⟩⟩
    · rintro ⟨s, hs, -⟩
      exact absurd hs (hnone s)
    · intro h
      exact absurd ⟨cs, h⟩ hinvalid
    · rintro ⟨s, hs⟩
      exact absurd hs (hnone s)
    · intro hwell
      exact absurd (wellFormed_toList_iff_valid.1 hwell) hinvalid

/-- A letter of two bytes before a surrogate. -/
theorem ofUtf8_exact_surrogate :
    TextCursor.ofUtf8Via String.fromUTF8? ⟨#[0xC3, 0xA9, 0xED, 0xA0, 0x80]⟩ =
      .error ⟨.invalidUtf8, 2⟩ := by
  have hquick (bytes : ByteArray) (text : String) (h : String.fromUTF8? bytes = some text) :
      text.toByteArray = bytes := by
    rw [String.fromUTF8?] at h
    split at h
    · cases h
      rfl
    · cases h
  obtain ⟨k, herror, ⟨hle, hwell⟩, hgreatest⟩ :=
    (ofUtf8_exact hquick ⟨#[0xC3, 0xA9, 0xED, 0xA0, 0x80]⟩).2.2 (by decide)
  have hge : 2 ≤ k := hgreatest (by decide)
  have hk : k = 2 := by
    by_contra hne
    have hmore : k = 3 ∨ k = 4 ∨ k = 5 := by
      have hsize : k ≤ 5 := hle
      omega
    rcases hmore with rfl | rfl | rfl
    all_goals exact absurd hwell (by decide)
  rw [herror, hk]

end BaseText.Proofs
