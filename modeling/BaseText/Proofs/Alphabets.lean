import BaseText.Tables
import BaseText.Proofs.Symbols
import Mathlib.Order.Bounds.Defs

/-!
# Alphabets

A table of symbols is refused for its first offending entry. One that is accepted has every value
and every symbol once, and looking up undoes itself in both directions. Of the two tables an
alphabet is kept in, the second one always holds the places of the first one, and nothing else:
this is what filling keeps from one symbol to the next.
-/

namespace BaseText.Proofs

open Alphabet (firstFault?)

/-- The entry at this place is not visible, is the padding symbol, or stands among `seen` or earlier
in the table. -/
def Offends (seen symbols : List UInt8) (i : Nat) : Prop :=
  ∃ b, symbols[i]? = some b ∧
    (¬ (0x21 ≤ b ∧ b ≤ 0x7e) ∨ b = 0x3d ∨ b ∈ seen ∨ b ∈ symbols.take i)

section Offends

variable {seen rest : List UInt8} {b : UInt8} {i : Nat}

lemma isSymbol_iff : isSymbol b = true ↔ 0x21 ≤ b ∧ b ≤ 0x7e ∧ b ≠ 0x3d := by
  have hpad : Char.ofUInt8 b = pad ↔ b = 0x3d := by
    constructor
    · intro h
      have hcode : Char.ofUInt8 b = Char.ofUInt8 0x3d := h
      exact ofUInt8_injective hcode
    · rintro rfl
      rfl
  simp only [isSymbol, Bool.and_eq_true, decide_eq_true_eq, bne_iff_ne, ne_eq, hpad, and_assoc]

lemma offends_zero : Offends seen (b :: rest) 0 ↔ (isSymbol b && !seen.contains b) = false := by
  have hsymbol := isSymbol_iff (b := b)
  simp only [Offends, List.getElem?_cons_zero, List.take_zero, Option.some.injEq]
  grind

lemma offends_succ : Offends seen (b :: rest) (i + 1) ↔ Offends (b :: seen) rest i := by
  simp only [Offends, List.getElem?_cons_succ, List.take_succ_cons, List.mem_cons]
  grind

/-- The fault that is named is the first one there is. -/
lemma firstFault_eq_some_iff {symbols : List UInt8} :
    firstFault? seen symbols = some i ↔ IsLeast {j | Offends seen symbols j} i := by
  induction symbols generalizing seen i with
  | nil =>
    simp [firstFault?, IsLeast, Offends]
  | cons b rest ih =>
    rw [firstFault?]
    cases hfine : isSymbol b && !seen.contains b with
    | false =>
      have hzero : Offends seen (b :: rest) 0 := offends_zero.2 hfine
      rw [if_neg Bool.false_ne_true, Option.some_inj]
      constructor
      · rintro rfl
        exact ⟨hzero, fun j _ => Nat.zero_le j⟩
      · intro hleast
        exact (Nat.le_zero.1 (hleast.2 hzero)).symm
    | true =>
      have hzero : ¬ Offends seen (b :: rest) 0 := by
        rw [offends_zero, hfine]
        exact Bool.noConfusion
      rw [if_pos rfl, Option.map_eq_some_iff]
      constructor
      · rintro ⟨j, hj, rfl⟩
        obtain ⟨hoffends, hleast⟩ := ih.1 hj
        refine ⟨offends_succ.2 hoffends, ?_⟩
        rintro (_ | k) hk
        · exact absurd hk hzero
        · exact Nat.succ_le_succ (hleast (offends_succ.1 hk))
      · rintro ⟨hoffends, hleast⟩
        cases i with
        | zero => exact absurd hoffends hzero
        | succ j =>
          refine ⟨j, ih.2 ⟨offends_succ.1 hoffends, fun k hk => ?_⟩, rfl⟩
          exact Nat.le_of_succ_le_succ (hleast (offends_succ.2 hk))

end Offends

/-- The tables have these symbols entered, each for the value of its place, and no others. -/
structure Entered (t : Tables) (entries : List UInt8) : Prop where
  symbols : t.symbols.toList = entries ++ List.replicate (64 - entries.length) 0
  values : ∀ code (h : code < 128), t.values[code] =
    ((entries.findIdx? (·.toNat == code)).map UInt8.ofNat).getD Tables.noValue

section Entered

variable {t t' : Tables} {entries rest seen : List UInt8} {b : UInt8} {v : Nat}

lemma toNat_lt_of_visible (h : isSymbol b = true) : b.toNat < 128 := by
  have hle := (isSymbol_iff.1 h).2.1
  rw [UInt8.le_iff_toNat_le] at hle
  exact Nat.lt_of_le_of_lt hle (by decide)

lemma ofNat_ne_noValue (h : v < 64) : UInt8.ofNat v ≠ Tables.noValue := by
  intro heq
  have hval := congrArg UInt8.toNat heq
  rw [UInt8.toNat_ofNat_of_lt' (by rw [UInt8.size]; omega)] at hval
  change v = 255 at hval
  omega

lemma entered_empty (order : BitOrder) : Entered (.empty order) [] := by
  refine ⟨?_, ?_⟩
  · simp [Tables.empty]
  · intro code h
    simp [Tables.empty]

/-- The tables are known by what is entered. -/
lemma Entered.unique (h : Entered t entries) (h' : Entered t' entries)
    (horder : t.order = t'.order) : t = t' := by
  obtain ⟨symbols, values, order⟩ := t
  obtain ⟨symbols', values', order'⟩ := t'
  obtain rfl : symbols = symbols' := by
    have hsame := h.symbols.trans h'.symbols.symm
    exact Vector.toList_inj.1 hsame
  obtain rfl : values = values' := by
    ext code hcode
    rw [h.values code hcode, h'.values code hcode]
  obtain rfl : order = order' := horder
  rfl

/-- A code has a value exactly if its symbol is entered. -/
lemma Entered.isTaken_iff (h : Entered t entries) (hb : b.toNat < 128)
    (hlength : entries.length ≤ 64) : t.isTaken b = true ↔ b ∈ entries := by
  rw [Tables.isTaken, Vector.getElem?_eq_getElem hb, h.values _ hb, Option.any_some, bne_iff_ne]
  cases hfind : entries.findIdx? (·.toNat == b.toNat) with
  | none =>
    have hnone := List.findIdx?_eq_none_iff.1 hfind
    simp only [Option.map_none, Option.getD_none, ne_eq, not_true_eq_false, false_iff]
    intro hmem
    simpa using hnone b hmem
  | some v =>
    obtain ⟨hv, hsame, -⟩ := List.findIdx?_eq_some_iff_getElem.1 hfind
    have hentry : entries[v] = b := UInt8.toNat_inj.1 (beq_iff_eq.1 hsame)
    have hne := ofNat_ne_noValue (Nat.lt_of_lt_of_le hv hlength)
    simp only [Option.map_some, Option.getD_some, ne_eq, hne, not_false_eq_true, true_iff]
    exact hentry ▸ List.getElem_mem hv

/-- One more symbol is entered for the next value. -/
lemma Entered.enter (h : Entered t entries) (hlength : entries.length < 64) (hb : b ∉ entries) :
    Entered (t.enter entries.length b) (entries ++ [b]) := by
  refine ⟨?_, ?_⟩
  · obtain ⟨left, hleft⟩ : ∃ left, 64 - entries.length = left + 1 := ⟨63 - entries.length, by omega⟩
    have hrest : 64 - (entries ++ [b]).length = left := by
      rw [List.length_append, List.length_singleton]
      omega
    have hset : (t.enter entries.length b).symbols.toList =
        t.symbols.toList.set entries.length b := by
      simp [Tables.enter]
    rw [hset, h.symbols, hleft, hrest, List.replicate_succ,
      List.set_append_right _ _ (Nat.le_refl _), Nat.sub_self, List.set_cons_zero,
      List.append_assoc, List.singleton_append]
  · intro code hcode
    have hput : (t.enter entries.length b).values[code] =
        if b.toNat = code then UInt8.ofNat entries.length else t.values[code] := by
      simp [Tables.enter, Vector.getElem_setIfInBounds]
    rw [hput, h.values code hcode, List.findIdx?_append]
    by_cases hcode' : b.toNat = code
    · subst hcode'
      have hnone : entries.findIdx? (·.toNat == b.toNat) = none := by
        rw [List.findIdx?_eq_none_iff]
        intro b' hb'
        rw [beq_eq_false_iff_ne]
        intro hsame
        exact hb (UInt8.toNat_inj.1 hsame ▸ hb')
      simp [hnone, List.findIdx?_cons]
    · simp [hcode', List.findIdx?_cons]

lemma Entered.enterAll (h : Entered t entries) (hlength : entries.length + rest.length ≤ 64)
    (hdistinct : (entries ++ rest).Nodup) :
    Entered (t.enterAll entries.length rest) (entries ++ rest) := by
  induction rest generalizing t entries with
  | nil => rwa [List.append_nil]
  | cons b rest ih =>
    rw [List.length_cons] at hlength
    have hb : b ∉ entries := by
      intro hmem
      exact (List.nodup_append.1 hdistinct).2.2 b hmem b (by simp) rfl
    have hnext := ih (h.enter (by omega) hb)
      (by rw [List.length_append, List.length_singleton]; omega) (by rwa [List.append_assoc])
    rwa [List.append_assoc, List.length_append, List.length_singleton] at hnext

/-- Filling the tables stops where the first fault is, and otherwise enters all symbols. -/
lemma Entered.fill (h : Entered t entries) (hlength : entries.length + rest.length ≤ 64)
    (hseen : ∀ b, b ∈ seen ↔ b ∈ entries) :
    t.fill entries.length rest =
      match firstFault? seen rest with
      | some i => .error ⟨.invalidAlphabet, entries.length + i⟩
      | none => .ok (t.enterAll entries.length rest) := by
  induction rest generalizing t entries seen with
  | nil => rfl
  | cons b rest ih =>
    rw [List.length_cons] at hlength
    rw [Tables.fill, firstFault?]
    by_cases hvisible : isSymbol b = true
    · have htaken := h.isTaken_iff (toNat_lt_of_visible hvisible) (by omega)
      by_cases hmem : b ∈ entries
      · simp [hvisible, htaken.2 hmem, (hseen b).2 hmem]
      · have hfree : t.isTaken b = false := by rwa [← htaken, Bool.not_eq_true] at hmem
        have hseen' : ∀ b', b' ∈ b :: seen ↔ b' ∈ entries ++ [b] := by simp [hseen, or_comm]
        have hnext := ih (h.enter (by omega) hmem)
          (by rw [List.length_append, List.length_singleton]; omega) hseen'
        rw [List.length_append, List.length_singleton] at hnext
        have hmem' : seen.contains b = false := by simpa [hseen] using hmem
        rw [hvisible, hfree, hmem', if_neg (by decide), hnext, if_pos (by decide)]
        cases firstFault? (b :: seen) rest with
        | none => rfl
        | some i => simp only [Option.map_some, Nat.add_comm i, Nat.add_assoc]
    · simp [hvisible]

end Entered

section Alphabet

variable {bits : Nat} (a : Alphabet bits)

/-- The width leaves room for all symbols in the tables. -/
lemma two_pow_le_of_width (h : bits = 5 ∨ bits = 6) : 2 ^ bits ≤ 64 := by
  obtain rfl | rfl := h <;> decide

lemma entered_tables : Entered a.tables a.symbols.toList := by
  have hlength : ([] : List UInt8).length + a.symbols.toList.length ≤ 64 := by
    simpa using two_pow_le_of_width a.width
  exact (entered_empty a.order).enterAll hlength a.distinct

lemma enterAll_order (t : Tables) (v : Nat) (entries : List UInt8) :
    (t.enterAll v entries).order = t.order := by
  induction entries generalizing t v with
  | nil => rfl
  | cons b rest ih =>
    rw [Tables.enterAll, ih]
    rfl

lemma tables_order : a.tables.order = a.order := enterAll_order ..

lemma tables_symbol (v : Nat) : a.tables.symbol bits v = a.symbol v := by
  have hv : v % 2 ^ bits < 2 ^ bits := Nat.mod_lt v (Nat.two_pow_pos bits)
  have hsize : v % 2 ^ bits < a.symbols.toList.length := by simpa using hv
  have hentry : a.tables.symbols[v % 2 ^ bits]? = some (a.symbols.toList[v % 2 ^ bits]) := by
    rw [← Vector.getElem?_toList, (entered_tables a).symbols, List.getElem?_append_left hsize,
      List.getElem?_eq_getElem hsize]
  rw [Tables.symbol, Nat.pow_eq, Nat.and_two_pow_sub_one_eq_mod, hentry, Alphabet.symbol]
  congr 1

lemma ofUInt8_beq (b : UInt8) (c : Char) : (Char.ofUInt8 b == c) = (b.toNat == c.toNat) := by
  rw [Bool.eq_iff_iff, beq_iff_eq, beq_iff_eq]
  constructor
  · rintro rfl
    rfl
  · intro h
    exact Char.toNat_inj.1 h

lemma tables_value (c : Char) : a.tables.value? c = a.value? c := by
  have hvalue : a.value? c = a.symbols.toList.findIdx? (·.toNat == c.toNat) := by
    simp only [Alphabet.value?, ofUInt8_beq]
  rw [Tables.value?, hvalue]
  by_cases hc : c.toNat < 128
  · rw [Vector.getElem?_eq_getElem hc, (entered_tables a).values _ hc]
    cases hfind : a.symbols.toList.findIdx? (·.toNat == c.toNat) with
    | none => rfl
    | some v =>
      obtain ⟨hv, -⟩ := List.findIdx?_eq_some_iff_getElem.1 hfind
      rw [Vector.length_toList] at hv
      have hv' : v < 64 := Nat.lt_of_lt_of_le hv (two_pow_le_of_width a.width)
      have hval : (UInt8.ofNat v).toNat = v :=
        UInt8.toNat_ofNat_of_lt' (by rw [UInt8.size]; omega)
      simp [ofNat_ne_noValue hv', hval]
  · rw [Vector.getElem?_eq_none (Nat.le_of_not_lt hc)]
    symm
    rw [Option.filter_none, Option.map_none, List.findIdx?_eq_none_iff]
    intro b hb
    have hlt := toNat_lt_of_visible (a.visible b hb)
    rw [beq_eq_false_iff_ne]
    omega

lemma tables_withOrder (order : BitOrder) :
    (a.withOrder order).tables = a.tables.withOrder order := by
  have h := entered_tables a
  have hsame : Entered (a.tables.withOrder order) (a.withOrder order).symbols.toList :=
    ⟨h.symbols, h.values⟩
  exact (entered_tables (a.withOrder order)).unique hsame (tables_order _)

variable {a} {b : Alphabet bits}

lemma alphabet_eq_iff : a = b ↔ a.symbols.toList = b.symbols.toList ∧ a.order = b.order := by
  constructor
  · rintro rfl
    exact ⟨rfl, rfl⟩
  · rintro ⟨hsymbols, horder⟩
    cases a
    cases b
    obtain rfl := Vector.toList_inj.1 hsymbols
    obtain rfl := horder
    rfl

lemma tables_symbols_take (a : Alphabet bits) :
    a.tables.symbols.toList.take (2 ^ bits) = a.symbols.toList := by
  have hlength : a.symbols.toList.length = 2 ^ bits := by simp
  rw [(entered_tables a).symbols, ← hlength, List.take_left]

lemma tables_eq_iff : a.tables = b.tables ↔ a = b := by
  constructor
  · intro h
    rw [alphabet_eq_iff, ← tables_symbols_take a, ← tables_symbols_take b, ← tables_order a,
      ← tables_order b, h]
    exact ⟨rfl, rfl⟩
  · rintro rfl
    rfl

end Alphabet

/-- Where a table of symbols is refused: at its first offending entry, if its size is right. -/
def FaultAt (bits : Nat) (symbols : List UInt8) (i : Nat) : Prop :=
  if bits = 5 ∨ bits = 6 then
    if symbols.length = 2 ^ bits then IsLeast {j | Offends [] symbols j} i
    else i = min symbols.length (2 ^ bits)
  else i = 0

section Accepted

variable {bits : Nat} {symbols : List UInt8} {order : BitOrder}

lemma ofSymbols_of_width (h : ¬ (bits = 5 ∨ bits = 6)) :
    Alphabet.ofSymbols bits symbols order = .error ⟨.invalidAlphabet, 0⟩ := by
  unfold Alphabet.ofSymbols
  rw [dif_neg h]

lemma ofSymbols_of_length (h : bits = 5 ∨ bits = 6) (hlength : symbols.length ≠ Nat.pow 2 bits) :
    Alphabet.ofSymbols bits symbols order =
      .error ⟨.invalidAlphabet, min symbols.length (2 ^ bits)⟩ := by
  unfold Alphabet.ofSymbols
  rw [dif_pos h, dif_neg hlength, Nat.pow_eq]

lemma ofSymbols_of_fault (h : bits = 5 ∨ bits = 6) (hlength : symbols.length = Nat.pow 2 bits)
    {i : Nat} (hfault : firstFault? [] symbols = some i) :
    Alphabet.ofSymbols bits symbols order = .error ⟨.invalidAlphabet, i⟩ := by
  unfold Alphabet.ofSymbols
  rw [dif_pos h, dif_pos hlength]
  split
  · rename_i j hj
    obtain rfl : i = j := Option.some.inj (hfault.symm.trans hj)
    rfl
  · rename_i hnone
    rw [hfault] at hnone
    cases hnone

/-- An alphabet is what its own table is accepted as. -/
lemma ofSymbols_eq_ok_iff {a : Alphabet bits} :
    Alphabet.ofSymbols bits symbols order = .ok a ↔
      a.symbols.toList = symbols ∧ a.order = order := by
  constructor
  · intro h
    unfold Alphabet.ofSymbols at h
    split at h
    · split at h
      · split at h
        · cases h
        · obtain rfl := Except.ok.inj h
          exact ⟨rfl, rfl⟩
      · cases h
    · cases h
  · rintro ⟨rfl, rfl⟩
    have hlength : a.symbols.toList.length = Nat.pow 2 bits := a.symbols.length_toList
    unfold Alphabet.ofSymbols
    rw [dif_pos a.width, dif_pos hlength]
    split
    · rename_i i hfault
      have hnone := (Alphabet.firstFault?_eq_none_iff [] _).2 ⟨a.visible, a.distinct, by simp⟩
      rw [hnone] at hfault
      cases hfault
    · rfl

lemma exists_ofSymbols_iff :
    (∃ a : Alphabet bits, Alphabet.ofSymbols bits symbols order = .ok a) ↔
      (bits = 5 ∨ bits = 6) ∧ symbols.length = 2 ^ bits ∧
        (∀ b ∈ symbols, 0x21 ≤ b ∧ b ≤ 0x7e ∧ b ≠ 0x3d) ∧ symbols.Nodup := by
  simp only [← isSymbol_iff]
  constructor
  · rintro ⟨a, h⟩
    obtain ⟨rfl, -⟩ := ofSymbols_eq_ok_iff.1 h
    exact ⟨a.width, by simp, a.visible, a.distinct⟩
  · rintro ⟨hwidth, hlength, hvisible, hdistinct⟩
    exact ⟨⟨⟨symbols.toArray, hlength⟩, order, hwidth, hvisible, hdistinct⟩,
      ofSymbols_eq_ok_iff.2 ⟨rfl, rfl⟩⟩

lemma exists_ofSymbols_of_none (order : BitOrder) (hwidth : bits = 5 ∨ bits = 6)
    (hlength : symbols.length = 2 ^ bits) (hfault : firstFault? [] symbols = none) :
    ∃ a : Alphabet bits, Alphabet.ofSymbols bits symbols order = .ok a := by
  have hvalid := (Alphabet.firstFault?_eq_none_iff [] symbols).1 hfault
  simp only [isSymbol_iff] at hvalid
  exact exists_ofSymbols_iff.2 ⟨hwidth, hlength, hvalid.1, hvalid.2.1⟩

lemma ofSymbols_eq_error_iff {e : CodingError} :
    Alphabet.ofSymbols bits symbols order = .error e ↔
      e.cause = .invalidAlphabet ∧ FaultAt bits symbols e.offset := by
  obtain ⟨cause, offset⟩ := e
  unfold FaultAt
  by_cases hwidth : bits = 5 ∨ bits = 6
  · rw [if_pos hwidth]
    by_cases hlength : symbols.length = 2 ^ bits
    · rw [if_pos hlength, ← firstFault_eq_some_iff]
      cases hfault : firstFault? [] symbols with
      | some i =>
        rw [ofSymbols_of_fault hwidth hlength hfault]
        simp [eq_comm]
      | none =>
        obtain ⟨a, ha⟩ := exists_ofSymbols_of_none order hwidth hlength hfault
        simp [ha]
    · rw [ofSymbols_of_length hwidth hlength, if_neg hlength]
      simp [eq_comm]
  · rw [ofSymbols_of_width hwidth, if_neg hwidth]
    simp [eq_comm]

/-- The pass that fills both tables accepts and refuses alike. -/
lemma tables_ofSymbols : Tables.ofSymbols bits symbols order =
    (Alphabet.ofSymbols bits symbols order).map Alphabet.tables := by
  unfold Tables.ofSymbols
  rw [Nat.pow_eq]
  by_cases hwidth : bits = 5 ∨ bits = 6
  · rw [if_neg (by omega)]
    by_cases hlength : symbols.length = 2 ^ bits
    · have hroom : ([] : List UInt8).length + symbols.length ≤ 64 := by
        rw [List.length_nil, Nat.zero_add, hlength]
        exact two_pow_le_of_width hwidth
      have hfill := (entered_empty order).fill hroom fun _ => Iff.rfl
      rw [if_neg (not_not.2 hlength)]
      rw [List.length_nil] at hfill
      cases hfault : firstFault? [] symbols with
      | some i =>
        simp only [hfault, Nat.zero_add] at hfill
        rw [hfill, ofSymbols_of_fault hwidth hlength hfault]
        rfl
      | none =>
        obtain ⟨a, ha⟩ := exists_ofSymbols_of_none order hwidth hlength hfault
        obtain ⟨rfl, rfl⟩ := ofSymbols_eq_ok_iff.1 ha
        rw [hfault] at hfill
        rw [hfill, ha]
        rfl
    · rw [ofSymbols_of_length hwidth hlength, if_pos hlength]
      rfl
  · rw [ofSymbols_of_width hwidth, if_pos (by omega)]
    rfl

end Accepted

/-- The tables answer what the alphabet answers. -/
structure KeptIn {bits : Nat} (t : Tables) (a : Alphabet bits) : Prop where
  symbols : t.symbols.toList.take (2 ^ bits) = a.symbols.toList
  order : t.order = a.order
  symbol : ∀ v, t.symbol bits v = a.symbol v
  value : ∀ c, t.value? c = a.value? c

lemma kept_tables {bits : Nat} (a : Alphabet bits) : KeptIn a.tables a :=
  ⟨tables_symbols_take a, tables_order a, tables_symbol a, tables_value a⟩

/-- A table of symbols is accepted exactly if it has the right size, all its entries are visible
symbols other than padding, and each stands in it once; otherwise its first fault is named. Both
tables of an alphabet undo each other, in either order of bits, and an alphabet is known by its
symbols and its order. -/
theorem alphabet_exact (bits : Nat) :
    (∀ (symbols : List UInt8) (order : BitOrder),
      ((∃ a : Alphabet bits, Alphabet.ofSymbols bits symbols order = .ok a) ↔
        (bits = 5 ∨ bits = 6) ∧ symbols.length = 2 ^ bits ∧
          (∀ b ∈ symbols, 0x21 ≤ b ∧ b ≤ 0x7e ∧ b ≠ 0x3d) ∧ symbols.Nodup) ∧
      (∀ e, Alphabet.ofSymbols bits symbols order = .error e ↔
        e.cause = .invalidAlphabet ∧ FaultAt bits symbols e.offset) ∧
      (∀ a, Alphabet.ofSymbols bits symbols order = .ok a ↔
        a.symbols.toList = symbols ∧ a.order = order) ∧
      Tables.ofSymbols bits symbols order =
        (Alphabet.ofSymbols bits symbols order).map Alphabet.tables) ∧
    (∀ (a : Alphabet bits) (order : BitOrder),
      (a.withOrder order).symbols = a.symbols ∧
      KeptIn (a.tables.withOrder order) (a.withOrder order) ∧
      ∀ c v, (a.withOrder order).value? c = some v ↔
        v < 2 ^ bits ∧ (a.withOrder order).symbol v = c) ∧
    ∀ a b : Alphabet bits,
      (a = b ↔ a.symbols.toList = b.symbols.toList ∧ a.order = b.order) ∧
        (a.tables = b.tables ↔ a = b) := by
  refine ⟨?_, ?_, ?_⟩
  · intro symbols order
    exact ⟨exists_ofSymbols_iff, fun e => ofSymbols_eq_error_iff, fun a => ofSymbols_eq_ok_iff,
      tables_ofSymbols⟩
  · intro a order
    refine ⟨rfl, ?_, fun c v => ?_⟩
    · rw [← tables_withOrder]
      exact kept_tables _
    · constructor
      · intro h
        exact ⟨alphabet_value_lt _ h, alphabet_symbol_value _ h⟩
      · rintro ⟨hv, rfl⟩
        rw [alphabet_value_symbol, Nat.mod_eq_of_lt hv]
  · intro a b
    exact ⟨alphabet_eq_iff, tables_eq_iff⟩

end BaseText.Proofs
