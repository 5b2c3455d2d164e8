import BaseText.Proofs.Reading

/-!
# The format of a text

A text is read exactly if it is some symbols of data, padding symbols that fill up the last group
or are left out, and nothing else. Its bytes are the leading bits of all symbol values, whatever the
groups are.
-/

namespace BaseText.Proofs

/-- The symbols of data that a short group may have. -/
def shortCounts : Codec → List Nat
  | .base16 => []
  | .base32 _ => [2, 4, 5, 7]
  | .base64 _ => [2, 3]

/-- A text may end with `n` symbols of data and `pads` padding symbols. -/
def MayEnd (d : Decoding) (n pads : Nat) : Prop :=
  n % d.codec.groupSymbols = 0 ∧ pads = 0 ∨
    n % d.codec.groupSymbols ∈ shortCounts d.codec ∧
      (pads = d.codec.groupSymbols - n % d.codec.groupSymbols ∨
        pads = 0 ∧ d.options.requirePadding = false)

/-- The text is some data and padding symbols where they may stand. -/
structure Written (d : Decoding) (data : List Char) (pads : Nat) (text : String) : Prop where
  text_eq : text.toList = data ++ List.replicate pads pad
  data_symbol : ∀ c ∈ data, IsSymbol d.codec c
  may_end : MayEnd d data.length pads

section Counts

variable {codec : Codec} {n : Nat}

lemma lt_groupSymbols_of_mem (h : n ∈ shortCounts codec) : n < codec.groupSymbols := by
  cases codec <;> simp only [shortCounts, List.mem_cons, List.not_mem_nil, or_false] at h <;>
    simp only [Codec.groupSymbols] <;> omega

lemma ne_zero_of_mem (h : n ∈ shortCounts codec) : n ≠ 0 := by
  cases codec <;> simp only [shortCounts, List.mem_cons, List.not_mem_nil, or_false] at h <;> omega

lemma isPadded_of_mem (h : n ∈ shortCounts codec) : codec.isPadded = true := by
  cases codec with
  | base16 => cases h
  | base32 a => rfl
  | base64 a => rfl

lemma ne_base16_of_mem (h : n ∈ shortCounts codec) : codec ≠ .base16 := by
  rintro rfl
  cases h

lemma isByteAligned_iff (h : n < codec.groupSymbols) :
    codec.isByteAligned n = true ↔ n ∈ shortCounts codec := by
  cases codec with
  | base16 =>
    have hall : ∀ n < 2, Codec.base16.isByteAligned n = true ↔ n ∈ shortCounts .base16 := by decide
    exact hall n h
  | base32 a =>
    have hall : ∀ n < 8, (decide (0 < n * 5 / 8) && (n * 5 / 8 * 8 + 5 - 1) / 5 == n) = true ↔
        n ∈ [2, 4, 5, 7] := by decide
    exact hall n h
  | base64 a =>
    have hall : ∀ n < 4, (decide (0 < n * 6 / 8) && (n * 6 / 8 * 8 + 6 - 1) / 6 == n) = true ↔
        n ∈ [2, 3] := by decide
    exact hall n h

lemma endFault_eq_none_iff {d : Decoding} (h : n < d.codec.groupSymbols) :
    endFault? d n = none ↔
      n = 0 ∨ n ∈ shortCounts d.codec ∧ d.options.requirePadding = false := by
  have hzero := fun hmem : n ∈ shortCounts d.codec => ne_zero_of_mem hmem
  have hpadded := fun hmem : n ∈ shortCounts d.codec => isPadded_of_mem hmem
  have halign := isByteAligned_iff h
  unfold endFault?
  split_ifs <;> simp_all [Codec.isPadded]

lemma endFault_of_mem {d : Decoding} (h : n ∈ shortCounts d.codec)
    (hrequire : d.options.requirePadding = true) : endFault? d n = some .expectedPadding := by
  have halign := (isByteAligned_iff (lt_groupSymbols_of_mem h)).2 h
  rw [endFault?, if_neg (ne_zero_of_mem h), if_neg (ne_base16_of_mem h), if_neg (not_not.2 halign),
    if_pos hrequire]

end Counts

section Split

variable {codec : Codec} {data data' rest rest' : List Char}

lemma not_isSymbol_pad (codec : Codec) : ¬ IsSymbol codec pad := by
  rw [← value_isSome, value_pad]
  exact Bool.false_ne_true

lemma exists_data (codec : Codec) (symbols : List Char) :
    ∃ data rest, symbols = data ++ rest ∧ (∀ c ∈ data, IsSymbol codec c) ∧
      ∀ c ∈ rest.head?, ¬ IsSymbol codec c := by
  induction symbols with
  | nil => exact ⟨[], [], rfl, by simp, by simp⟩
  | cons c symbols ih =>
    by_cases hc : IsSymbol codec c
    · obtain ⟨data, rest, rfl, hdata, hrest⟩ := ih
      exact ⟨c :: data, rest, rfl, List.forall_mem_cons.2 ⟨hc, hdata⟩, hrest⟩
    · exact ⟨[], c :: symbols, rfl, by simp, by simpa using hc⟩

lemma data_unique (h : data ++ rest = data' ++ rest')
    (hdata : ∀ c ∈ data, IsSymbol codec c) (hrest : ∀ c ∈ rest.head?, ¬ IsSymbol codec c)
    (hdata' : ∀ c ∈ data', IsSymbol codec c) (hrest' : ∀ c ∈ rest'.head?, ¬ IsSymbol codec c) :
    data = data' ∧ rest = rest' := by
  induction data generalizing data' with
  | nil =>
    cases data' with
    | nil => exact ⟨rfl, h⟩
    | cons c data' =>
      subst h
      exact absurd (hdata' c (by simp)) (hrest c rfl)
  | cons c data ih =>
    cases data' with
    | nil =>
      subst h
      exact absurd (hdata c (by simp)) (hrest' c rfl)
    | cons c' data' =>
      obtain ⟨rfl, htail⟩ := List.cons.inj h
      obtain ⟨rfl, hrest⟩ := ih htail (fun c hc => hdata c (List.mem_cons_of_mem _ hc))
        (fun c hc => hdata' c (List.mem_cons_of_mem _ hc))
      exact ⟨rfl, hrest⟩

lemma head_pads (codec : Codec) (pads : Nat) :
    ∀ c ∈ (List.replicate pads pad).head?, ¬ IsSymbol codec c := by
  cases pads with
  | zero => simp
  | succ pads =>
    intro c hc
    obtain rfl : pad = c := by simpa [List.replicate_succ] using hc
    exact not_isSymbol_pad codec

lemma leadingPads_replicate (pads : Nat) : leadingPads (List.replicate pads pad) = pads := by
  rw [leadingPads, List.takeWhile_replicate_eq_filter]
  simp

end Split

section Shape

variable {d : Decoding} {data rest : List Char} {pads : Nat}

lemma padRoom_pos (d : Decoding) (n : Nat) : 0 < padRoom d n := by
  have hmod := Nat.mod_lt n (groupSymbols_pos d.codec)
  rw [padRoom]
  omega

lemma faultBehind_replicate_eq_none_iff (n : Nat) :
    faultBehind d n (List.replicate pads pad) = none ↔ MayEnd d n pads := by
  have hmod := Nat.mod_lt n (groupSymbols_pos d.codec)
  have halign := isByteAligned_iff hmod
  have hroom := padRoom_pos d n
  cases pads with
  | zero =>
    rw [List.replicate_zero, faultBehind, Option.map_eq_none_iff, endFault_eq_none_iff hmod, MayEnd]
    rw [padRoom] at hroom
    constructor
    · rintro (hzero | ⟨hmem, hoptions⟩)
      · exact .inl ⟨hzero, rfl⟩
      · exact .inr ⟨hmem, .inr ⟨rfl, hoptions⟩⟩
    · rintro (⟨hzero, -⟩ | ⟨hmem, hpads | ⟨-, hoptions⟩⟩)
      · exact .inl hzero
      · omega
      · exact .inr ⟨hmem, hoptions⟩
  | succ pads =>
    have hleading := leadingPads_replicate (pads + 1)
    rw [List.replicate_succ] at hleading ⊢
    rw [faultBehind, hleading, MayEnd, ← padRoom]
    simp only [List.length_cons, List.length_replicate]
    constructor
    · intro hnone
      split_ifs at hnone with hpad hmem hless hmore
      refine .inr ⟨halign.1 (by simpa using hmem), .inl ?_⟩
      omega
    · rintro (⟨-, hpads⟩ | ⟨hmem, hpads | ⟨hpads, -⟩⟩)
      · cases hpads
      · have hpad : d.isPad pad = true := isPad_iff.2 ⟨isPadded_of_mem hmem, rfl⟩
        rw [hpad, halign.2 hmem, if_neg (by decide), if_neg (by decide), if_neg (by omega),
          if_neg (by omega)]
      · cases hpads

lemma rest_of_faultBehind_eq_none {n : Nat} (h : faultBehind d n rest = none) :
    rest = List.replicate rest.length pad := by
  cases rest with
  | nil => rfl
  | cons c rest =>
    obtain ⟨tail, htail, -⟩ := exists_behind_pads (c :: rest)
    rw [faultBehind] at h
    split_ifs at h with hpad hmem hless hmore
    have hlength := congrArg List.length htail
    rw [List.length_append, List.length_replicate] at hlength
    obtain rfl : tail = [] := List.eq_nil_of_length_eq_zero (by omega)
    rw [List.append_nil] at htail
    rw [List.length_nil, Nat.add_zero] at hlength
    rw [hlength]
    exact htail

end Shape

variable (d : Decoding) (text : String)

/-- A text is written in the format exactly if its data has no fault behind it. -/
lemma written_iff {data rest : List Char} (htext : text.toList = data ++ rest)
    (hdata : ∀ c ∈ data, IsSymbol d.codec c) (hrest : ∀ c ∈ rest.head?, ¬ IsSymbol d.codec c) :
    (∃ data pads, Written d data pads text) ↔ faultBehind d data.length rest = none := by
  constructor
  · rintro ⟨data', pads, htext', hdata', hend⟩
    obtain ⟨rfl, rfl⟩ := data_unique (htext.symm.trans htext') hdata hrest hdata'
      (head_pads d.codec pads)
    exact (faultBehind_replicate_eq_none_iff _).2 hend
  · intro hnone
    have hpads := rest_of_faultBehind_eq_none hnone
    rw [hpads] at htext hnone
    exact ⟨data, rest.length, htext, hdata, (faultBehind_replicate_eq_none_iff _).1 hnone⟩

lemma Written.decode {data : List Char} {pads : Nat} (h : Written d data pads text) :
    ∃ bytes, d.decode text = .ok bytes ∧ bytes.length = d.codec.byteCount data.length ∧
      byteBits d.codec bytes =
        (valueBits d.codec (valuesOf d.codec data)).take (8 * bytes.length) :=
  decode_of_none h.text_eq h.data_symbol (head_pads d.codec pads)
    ((faultBehind_replicate_eq_none_iff _).2 h.may_end)

/-- The data of a text that is read. -/
lemma exists_written {bytes : List UInt8} (h : d.decode text = .ok bytes) :
    ∃ data pads, Written d data pads text := by
  obtain ⟨data, rest, htext, hdata, hrest⟩ := exists_data d.codec text.toList
  rw [written_iff d text htext hdata hrest]
  by_contra hfault
  obtain ⟨e, he⟩ := Option.ne_none_iff_exists'.1 hfault
  rw [decode_of_fault htext hdata hrest he] at h
  cases h

/-- Decoding accepts exactly the texts in the format, and gives the leading bits of all their data
as whole bytes. -/
theorem decode_ok_iff :
    ((∃ bytes, d.decode text = .ok bytes) ↔ ∃ data pads, Written d data pads text) ∧
      ∀ bytes, d.decode text = .ok bytes ↔
        ∃ data pads, Written d data pads text ∧
          bytes.length = d.codec.bits * data.length / 8 ∧
          byteBits d.codec bytes =
            (valueBits d.codec (valuesOf d.codec data)).take (8 * bytes.length) := by
  refine ⟨⟨?_, ?_⟩, fun bytes => ⟨?_, ?_⟩⟩
  · rintro ⟨bytes, hok⟩
    exact exists_written d text hok
  · rintro ⟨data, pads, hwritten⟩
    obtain ⟨bytes, hok, -⟩ := hwritten.decode
    exact ⟨bytes, hok⟩
  · intro hok
    obtain ⟨data, pads, hwritten⟩ := exists_written d text hok
    obtain ⟨bytes', hok', hlength, hbits⟩ := hwritten.decode
    obtain rfl : bytes' = bytes := Except.ok.inj (hok'.symm.trans hok)
    refine ⟨data, pads, hwritten, ?_, hbits⟩
    rw [hlength, Codec.byteCount, Nat.mul_comm]
  · rintro ⟨data, pads, hwritten, hlength, hbits⟩
    obtain ⟨bytes', hok, hlength', hbits'⟩ := hwritten.decode
    rw [Codec.byteCount, Nat.mul_comm, ← hlength] at hlength'
    rw [hlength', ← hbits] at hbits'
    rw [hok, byteBits_injective d.codec hbits']

end BaseText.Proofs
