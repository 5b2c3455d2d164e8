import BaseText.Proofs.Format

/-!
# The place of a rejection

A text that is rejected is rejected at the first place at which nothing that could follow makes it
a text in the format, and for the reason that place gives.
-/

namespace BaseText.Proofs

variable (d : Decoding)

/-- Some text that starts with these symbols is read. -/
def Viable (front : List Char) : Prop :=
  ∃ more bytes, d.decode (String.ofList (front ++ more)) = .ok bytes

/-- The symbols behind the last complete group. -/
def openGroup (front : List Char) : List Char :=
  front.drop (front.length / d.codec.groupSymbols * d.codec.groupSymbols)

/-- The last group is complete, and there is padding in it. -/
def EndsPadded (front : List Char) : Prop :=
  d.codec.groupSymbols ∣ front.length ∧ pad ∈ front.drop (front.length - d.codec.groupSymbols)

instance (front : List Char) : Decidable (EndsPadded d front) :=
  inferInstanceAs (Decidable (_ ∧ _))

/-- Why the symbol `c` cannot follow. -/
def causeAt (front : List Char) (c : Char) : Cause :=
  if EndsPadded d front then .trailingSymbols
  else if c ≠ pad ∧ pad ∈ openGroup d front then .expectedPadding
  else if c = pad ∧ d.codec.isPadded then .unexpectedPadding
  else .invalidCharacter

/-- Why a text cannot end. -/
def causeAtEnd (symbols : List Char) : Cause :=
  if pad ∈ openGroup d symbols ∨
      (openGroup d symbols).length ∈ shortCounts d.codec ∧ d.options.requirePadding then
    .expectedPadding
  else if d.codec = .base16 then .oddLength
  else .incompleteGroup

/-- An error stands at the earliest place, and names the cause. -/
structure RejectedAt (symbols : List Char) (e : CodingError) : Prop where
  offset_le : e.offset ≤ symbols.length
  viable_before : Viable d (symbols.take e.offset)
  not_viable_behind : e.offset < symbols.length → ¬ Viable d (symbols.take (e.offset + 1))
  not_read : ∀ bytes, d.decode (String.ofList symbols) ≠ .ok bytes
  cause_at : ∀ c, symbols[e.offset]? = some c → e.cause = causeAt d (symbols.take e.offset) c
  cause_at_end : e.offset = symbols.length → e.cause = causeAtEnd d symbols

variable {d} {data rest tail : List Char} {pads : Nat} {c : Char}

lemma add_padRoom (d : Decoding) (n : Nat) :
    n + padRoom d n = d.codec.groupSymbols * (n / d.codec.groupSymbols + 1) := by
  have hmod := Nat.mod_lt n (groupSymbols_pos d.codec)
  have hdiv := Nat.div_add_mod n d.codec.groupSymbols
  rw [padRoom, Nat.mul_succ]
  omega

/-- Any data can be completed, and so can padding where a group of data is short enough for it. -/
lemma viable_iff (hdata : ∀ c ∈ data, IsSymbol d.codec c)
    (hrest : ∀ c ∈ rest.head?, ¬ IsSymbol d.codec c) :
    Viable d (data ++ rest) ↔
      rest = [] ∨ data.length % d.codec.groupSymbols ∈ shortCounts d.codec ∧
        rest = List.replicate rest.length pad ∧ rest.length ≤ padRoom d data.length := by
  constructor
  · rintro ⟨more, bytes, hok⟩
    obtain ⟨data', pads, htext, hdata', hend⟩ := exists_written d _ hok
    rw [String.toList_ofList, List.append_assoc] at htext
    by_cases hnil : rest = []
    · exact .inl hnil
    · have hhead : ∀ c ∈ (rest ++ more).head?, ¬ IsSymbol d.codec c := by
        obtain ⟨c, rest, rfl⟩ := List.exists_cons_of_ne_nil hnil
        exact hrest
      obtain ⟨rfl, hpads⟩ := data_unique htext hdata hhead hdata' (head_pads d.codec pads)
      obtain ⟨hlength, hreplicate, -⟩ := List.append_eq_replicate_iff.1 hpads
      have hpos := List.length_pos_iff.2 hnil
      obtain ⟨-, hzero⟩ | ⟨hmem, hroom | ⟨hzero, -⟩⟩ := hend
      · omega
      · rw [← padRoom] at hroom
        exact .inr ⟨hmem, hreplicate, by omega⟩
      · omega
  · rintro (rfl | ⟨hmem, hreplicate, hle⟩)
    · have hsymbol : IsSymbol d.codec (d.codec.symbol 0 false) := by
        rw [← value_isSome, value_symbol]
        rfl
      have hwritten : Written d (data ++ List.replicate (padRoom d data.length)
          (d.codec.symbol 0 false)) 0 (String.ofList (data ++ [] ++
            List.replicate (padRoom d data.length) (d.codec.symbol 0 false))) := by
        refine ⟨by simp, ?_, .inl ⟨?_, rfl⟩⟩
        · intro c hc
          obtain hc | hc := List.mem_append.1 hc
          · exact hdata c hc
          · rwa [List.eq_of_mem_replicate hc]
        · rw [List.length_append, List.length_replicate, add_padRoom, Nat.mul_mod_right]
      obtain ⟨bytes, hok, -⟩ := hwritten.decode
      exact ⟨_, bytes, hok⟩
    · have hwritten : Written d data (padRoom d data.length) (String.ofList (data ++ rest ++
          List.replicate (padRoom d data.length - rest.length) pad)) := by
        refine ⟨?_, hdata, .inr ⟨hmem, .inl rfl⟩⟩
        rw [String.toList_ofList, List.append_assoc, hreplicate, List.length_replicate,
          List.replicate_append_replicate, Nat.add_sub_cancel' hle]
      obtain ⟨bytes, hok, -⟩ := hwritten.decode
      exact ⟨_, bytes, hok⟩

lemma pad_not_mem_of_data (hdata : ∀ c ∈ data, IsSymbol d.codec c) : pad ∉ data :=
  fun hpad => not_isSymbol_pad d.codec (hdata pad hpad)

lemma pad_mem_drop {m : Nat} (hm : m ≤ data.length) (hpads : pads ≠ 0) :
    pad ∈ (data ++ List.replicate pads pad).drop m := by
  rw [List.drop_append_of_le_length hm]
  exact List.mem_append_right _ (List.mem_replicate.2 ⟨hpads, rfl⟩)

lemma causeAt_data (hdata : ∀ c ∈ data, IsSymbol d.codec c) :
    causeAt d data c = if d.isPad c then .unexpectedPadding else .invalidCharacter := by
  have hpad := pad_not_mem_of_data hdata
  have hends : ¬ EndsPadded d data := fun h => hpad (List.mem_of_mem_drop h.2)
  have hopen : ¬ (c ≠ pad ∧ pad ∈ openGroup d data) := fun h => hpad (List.mem_of_mem_drop h.2)
  rw [causeAt, if_neg hends, if_neg hopen]
  simp only [isPad_iff, and_comm]

lemma openGroup_pads (hpads : pads ≠ 0) (hless : pads < padRoom d data.length) :
    pad ∈ openGroup d (data ++ List.replicate pads pad) ∧
      ¬ EndsPadded d (data ++ List.replicate pads pad) := by
  have hpos := groupSymbols_pos d.codec
  have hdiv := Nat.div_add_mod data.length d.codec.groupSymbols
  have hlength : (data ++ List.replicate pads pad).length =
      d.codec.groupSymbols * (data.length / d.codec.groupSymbols) +
        (data.length % d.codec.groupSymbols + pads) := by
    rw [List.length_append, List.length_replicate]
    omega
  have hlt : data.length % d.codec.groupSymbols + pads < d.codec.groupSymbols := by
    rw [padRoom] at hless
    omega
  refine ⟨?_, ?_⟩
  · rw [openGroup, hlength, Nat.mul_add_div hpos, Nat.div_eq_of_lt hlt]
    exact pad_mem_drop (Nat.div_mul_le_self _ _) hpads
  · rintro ⟨hdvd, -⟩
    rw [hlength, Nat.dvd_iff_mod_eq_zero, Nat.mul_add_mod, Nat.mod_eq_of_lt hlt] at hdvd
    omega

lemma endsPadded_pads (hpads : pads = padRoom d data.length) :
    EndsPadded d (data ++ List.replicate pads pad) := by
  have hpos := padRoom_pos d data.length
  have hlength : (data ++ List.replicate pads pad).length = data.length + pads := by simp
  refine ⟨?_, ?_⟩
  · rw [hlength, hpads, add_padRoom]
    exact Nat.dvd_mul_right _ _
  · refine pad_mem_drop ?_ (by omega)
    rw [padRoom] at hpads
    rw [hlength]
    omega

/-- A text is rejected as it should be if what stands in front of the error can be completed, what
follows it cannot, and the cause is the one of its place. -/
lemma rejectedAt_of_split {symbols front : List Char} {cause : Cause}
    (hsplit : symbols = front ++ tail) (hviable : Viable d front)
    (hread : ∀ bytes, d.decode (String.ofList symbols) ≠ .ok bytes)
    (hblocked : ∀ c ∈ tail.head?, ¬ Viable d (front ++ [c]) ∧ cause = causeAt d front c)
    (hend : tail = [] → cause = causeAtEnd d symbols) :
    RejectedAt d symbols ⟨cause, front.length⟩ := by
  have htake : symbols.take front.length = front := by rw [hsplit, List.take_left]
  have hlength : symbols.length = front.length + tail.length := by rw [hsplit, List.length_append]
  refine ⟨?_, ?_, ?_, hread, ?_, ?_⟩
  · exact hlength ▸ Nat.le_add_right _ _
  · exact htake.symm ▸ hviable
  · intro hlt
    cases tail with
    | nil => exact absurd hlt (by simp [hlength])
    | cons c tail =>
      have htake' : symbols.take (front.length + 1) = front ++ [c] := by
        rw [hsplit, List.take_length_add_append]
        rfl
      exact htake'.symm ▸ (hblocked c rfl).1
  · intro c hc
    have hhead : tail.head? = some c := by
      rw [← hc, hsplit, List.getElem?_append_right (Nat.le_refl _), Nat.sub_self,
        List.head?_eq_getElem?]
    exact htake.symm ▸ (hblocked c hhead).2
  · intro heq
    change front.length = symbols.length at heq
    exact hend (List.eq_nil_of_length_eq_zero (by omega))

section Cases

variable (hdata : ∀ c ∈ data, IsSymbol d.codec c)

include hdata

lemma causeAtEnd_data {cause : Cause}
    (h : endFault? d (data.length % d.codec.groupSymbols) = some cause) :
    cause = causeAtEnd d data := by
  have hmod := Nat.mod_lt data.length (groupSymbols_pos d.codec)
  have hdiv := Nat.div_add_mod' data.length d.codec.groupSymbols
  have hpad : pad ∉ openGroup d data :=
    fun hpad => pad_not_mem_of_data hdata (List.mem_of_mem_drop hpad)
  have hlength : (openGroup d data).length = data.length % d.codec.groupSymbols := by
    rw [openGroup, List.length_drop]
    omega
  have halign := isByteAligned_iff hmod
  rw [causeAtEnd, hlength]
  rw [endFault?] at h
  by_cases hmem : data.length % d.codec.groupSymbols ∈ shortCounts d.codec
  · rw [if_neg (ne_zero_of_mem hmem), if_neg (ne_base16_of_mem hmem),
      if_neg (not_not.2 (halign.2 hmem))] at h
    split_ifs at h with hrequire
    rw [if_pos (.inr ⟨hmem, hrequire⟩)]
    exact (Option.some.inj h).symm
  · rw [if_neg (by simp [hpad, hmem])]
    split_ifs at h with hzero hcodec hshort hrequire
    · rw [if_pos hcodec]
      exact (Option.some.inj h).symm
    · exact absurd (halign.1 hshort) hmem
    · rw [if_neg hcodec]
      exact (Option.some.inj h).symm

lemma not_viable_single (hc : ¬ IsSymbol d.codec c)
    (hpad : d.isPad c = true → data.length % d.codec.groupSymbols ∉ shortCounts d.codec) :
    ¬ Viable d (data ++ [c]) := by
  rw [viable_iff hdata (by simpa using hc)]
  rintro (hnil | ⟨hmem, hreplicate, -⟩)
  · cases hnil
  · obtain rfl : c = pad := by simpa using hreplicate
    exact hpad (isPad_iff.2 ⟨isPadded_of_mem hmem, rfl⟩) hmem

lemma viable_pads (hmem : data.length % d.codec.groupSymbols ∈ shortCounts d.codec)
    (hle : pads ≤ padRoom d data.length) : Viable d (data ++ List.replicate pads pad) := by
  rw [viable_iff hdata (head_pads d.codec pads)]
  exact .inr ⟨hmem, by simp, by simpa using hle⟩

lemma not_viable_pads (hpads : pads ≠ 0) (hc : c = pad → padRoom d data.length ≤ pads) :
    ¬ Viable d (data ++ List.replicate pads pad ++ [c]) := by
  have hhead : ∀ c' ∈ (List.replicate pads pad ++ [c]).head?, ¬ IsSymbol d.codec c' := by
    obtain ⟨pads, rfl⟩ := Nat.exists_eq_succ_of_ne_zero hpads
    exact head_pads d.codec (pads + 1)
  rw [List.append_assoc, viable_iff hdata hhead]
  rintro (hnil | ⟨-, hreplicate, hle⟩)
  · simp at hnil
  · have hlast : c = pad := List.eq_of_mem_replicate (hreplicate ▸ List.mem_concat_self)
    rw [List.length_append, List.length_replicate, List.length_singleton] at hle
    exact absurd (hc hlast) (by omega)

lemma rejectedAt_pads {cause : Cause}
    (hmem : data.length % d.codec.groupSymbols ∈ shortCounts d.codec) (hpads : pads ≠ 0)
    (hle : pads ≤ padRoom d data.length) (htail : rest = List.replicate pads pad ++ tail)
    (hread : ∀ bytes, d.decode (String.ofList (data ++ rest)) ≠ .ok bytes)
    (hblocked : ∀ c ∈ tail.head?, (c = pad → padRoom d data.length ≤ pads) ∧
      cause = causeAt d (data ++ List.replicate pads pad) c)
    (hend : tail = [] → cause = causeAtEnd d (data ++ List.replicate pads pad)) :
    RejectedAt d (data ++ rest) ⟨cause, data.length + pads⟩ := by
  have hsplit : data ++ rest = data ++ List.replicate pads pad ++ tail := by
    rw [htail, List.append_assoc]
  have hplace : (data ++ List.replicate pads pad).length = data.length + pads := by simp
  rw [← hplace]
  refine rejectedAt_of_split hsplit (viable_pads hdata hmem hle) hread (fun c hc => ?_) ?_
  · exact ⟨not_viable_pads hdata hpads (hblocked c hc).1, (hblocked c hc).2⟩
  · rintro rfl
    rw [hsplit, List.append_nil]
    exact hend rfl

/-- Every fault is found at its place. -/
theorem rejectedAt_of_fault {e : CodingError} (hrest : ∀ c ∈ rest.head?, ¬ IsSymbol d.codec c)
    (hread : ∀ bytes, d.decode (String.ofList (data ++ rest)) ≠ .ok bytes)
    (h : faultBehind d data.length rest = some e) : RejectedAt d (data ++ rest) e := by
  have hmod := Nat.mod_lt data.length (groupSymbols_pos d.codec)
  have halign := isByteAligned_iff hmod
  have hviable : Viable d data := by
    have hnil : Viable d (data ++ []) := (viable_iff hdata (by simp)).2 (.inl rfl)
    rwa [List.append_nil] at hnil
  cases rest with
  | nil =>
    obtain ⟨cause, hcause, rfl⟩ := Option.map_eq_some_iff.1 h
    apply rejectedAt_of_split rfl hviable hread (by simp)
    intro _
    rw [List.append_nil]
    exact causeAtEnd_data hdata hcause
  | cons c rest =>
    have hc := hrest c rfl
    obtain ⟨tail, htail, hhead⟩ := exists_behind_pads (c :: rest)
    rw [faultBehind] at h
    split_ifs at h with hpad hmem hless hmore <;> obtain rfl := Option.some.inj h
    case pos =>
      refine rejectedAt_of_split rfl hviable hread (fun c' hc' => ?_) (by simp)
      obtain rfl := Option.some.inj hc'
      refine ⟨not_viable_single hdata hc (by simp [hpad]), ?_⟩
      rw [causeAt_data hdata, hpad]
      rfl
    case pos =>
      refine rejectedAt_of_split rfl hviable hread (fun c' hc' => ?_) (by simp)
      obtain rfl := Option.some.inj hc'
      have hnot : data.length % d.codec.groupSymbols ∉ shortCounts d.codec := by
        rw [← halign, hmem]
        exact Bool.false_ne_true
      refine ⟨not_viable_single hdata hc fun _ => hnot, ?_⟩
      rw [causeAt_data hdata, if_pos (by simpa using hpad)]
    case pos =>
      have hc' : c = pad := (isPad_iff.1 (Bool.not_eq_false _ ▸ hpad)).2
      have hpads : leadingPads (c :: rest) ≠ 0 := by
        rw [leadingPads, hc']
        simp
      obtain ⟨hopen, hends⟩ := openGroup_pads hpads hless
      refine rejectedAt_pads hdata (halign.1 (by simpa using hmem)) hpads (Nat.le_of_lt hless) htail
        hread (fun c' hc' => ⟨fun hpad' => absurd hpad' (hhead c' hc'), ?_⟩) fun _ => ?_
      · rw [causeAt, if_neg hends, if_pos ⟨hhead c' hc', hopen⟩]
      · rw [causeAtEnd, if_pos (.inl hopen)]
    case pos =>
      obtain ⟨tail', htail'⟩ := exists_behind_room (Nat.not_lt.1 hless)
      have hne : tail' ≠ [] := by
        rintro rfl
        rw [htail'] at hmore
        simp at hmore
      refine rejectedAt_pads hdata (halign.1 (by simpa using hmem))
        (Nat.ne_of_gt (padRoom_pos d data.length)) (Nat.le_refl _) htail' hread
        (fun c' _ => ⟨fun _ => Nat.le_refl _, ?_⟩) fun hnil => absurd hnil hne
      rw [causeAt, if_pos (endsPadded_pads rfl)]

end Cases

/-- A text that is not decoded is rejected at the earliest place, with the cause of that place. -/
theorem decode_error {text : String} {e : CodingError} (h : d.decode text = .error e) :
    RejectedAt d text.toList e := by
  obtain ⟨data, rest, htext, hdata, hrest⟩ := exists_data d.codec text.toList
  have hread : ∀ bytes, d.decode (String.ofList (data ++ rest)) ≠ .ok bytes := by
    intro bytes
    rw [← htext, String.ofList_toList, h]
    rintro ⟨⟩
  cases hfault : faultBehind d data.length rest with
  | none =>
    obtain ⟨bytes, hok, -⟩ := decode_of_none htext hdata hrest hfault
    rw [h] at hok
    cases hok
  | some e' =>
    have herror := decode_of_fault htext hdata hrest hfault
    obtain rfl : e = e' := Except.error.inj (h.symm.trans herror)
    rw [htext]
    exact rejectedAt_of_fault hdata hrest hread hfault

/-- Data behind a padding symbol that leaves its group open. -/
theorem decode_error_openPadding :
    Decoding.decode ⟨.base64 .base64, {}⟩ "QQ=A" = .error ⟨.expectedPadding, 3⟩ ∧
      RejectedAt ⟨.base64 .base64, {}⟩ "QQ=A".toList ⟨.expectedPadding, 3⟩ := by
  have hdata : ∀ c ∈ ['Q', 'Q'], IsSymbol (.base64 .base64) c := by
    intro c hc
    obtain rfl : c = 'Q' := by simpa using hc
    exact (value_isSome _ _).1 rfl
  have hrest : ∀ c ∈ ['=', 'A'].head?, ¬ IsSymbol (.base64 .base64) c := by
    intro c hc
    obtain rfl := Option.some.inj hc
    exact not_isSymbol_pad _
  have herror : Decoding.decode ⟨.base64 .base64, {}⟩ "QQ=A" = .error ⟨.expectedPadding, 3⟩ :=
    decode_of_fault rfl hdata hrest rfl
  exact ⟨herror, decode_error herror⟩

end BaseText.Proofs
