import BaseText.WholeInput
import BaseText.Proofs.CompleteGroups
import BaseText.Proofs.Runs

/-!
# What reading a text comes to

The symbols of data in front of a text, and what stands behind them, decide how it is read. All
complete groups are read first; the rest of the data and whatever follows it make up the last group,
and `faultBehind` says what is wrong with that one, without reference to any group in front of it.
-/

namespace BaseText.Proofs

variable (d : Decoding)

/-- Why no text may end `n` symbols of data into a group. -/
def endFault? (n : Nat) : Option Cause :=
  if n = 0 then none
  else if d.codec = .base16 then some .oddLength
  else if ¬ d.codec.isByteAligned n then some .incompleteGroup
  else if d.options.requirePadding then some .expectedPadding
  else none

/-- The number of padding symbols in front. -/
def leadingPads (rest : List Char) : Nat := (rest.takeWhile (· == pad)).length

/-- The padding symbols that fill up a group behind `n` symbols of data. -/
def padRoom (n : Nat) : Nat := d.codec.groupSymbols - n % d.codec.groupSymbols

/-- What is wrong with a text of `n` symbols of data, and where, if something else follows them. -/
def faultBehind (n : Nat) : List Char → Option CodingError
  | [] => (endFault? d (n % d.codec.groupSymbols)).map (⟨·, n⟩)
  | c :: rest =>
    if d.isPad c = false then some ⟨.invalidCharacter, n⟩
    else if d.codec.isByteAligned (n % d.codec.groupSymbols) = false then
      some ⟨.unexpectedPadding, n⟩
    else if leadingPads (c :: rest) < padRoom d n then
      some ⟨.expectedPadding, n + leadingPads (c :: rest)⟩
    else if padRoom d n < (c :: rest).length then some ⟨.trailingSymbols, n + padRoom d n⟩
    else none

/-- How reading ends `offset` symbols further on, with some fault or none. -/
def stopOf (offset : Nat) (stop : Stop) (fault : Option CodingError) : Stop :=
  match fault with
  | none => stop
  | some e => .rejected d.codec ⟨e.cause, offset + e.offset⟩

/-- How many bytes are read: those of all data, or of complete groups if the last one is faulty. -/
def bytesBefore (n : Nat) (fault : Option CodingError) : Nat :=
  if ∀ e ∈ fault, e.cause = .trailingSymbols then d.codec.byteCount n
  else n / d.codec.groupSymbols * d.codec.groupBytes

/-- What a text of some data and something else behind it is read as. -/
structure ReadsAs (offset : Nat) (stop : Stop) (data rest : List Char) (t : Tape UInt8) : Prop where
  stop_eq : t.stop = stopOf d offset stop (faultBehind d data.length rest)
  length : t.ahead.length = bytesBefore d data.length (faultBehind d data.length rest)
  bits : byteBits d.codec t.ahead =
    (valueBits d.codec (valuesOf d.codec data)).take (8 * t.ahead.length)

variable {d} {offset n pads : Nat} {stop : Stop} {data rest symbols : List Char} {c : Char}

lemma endFault_ne {cause : Cause} (h : endFault? d n = some cause) : cause ≠ .trailingSymbols := by
  rw [endFault?] at h
  split_ifs at h <;> obtain rfl := Option.some.inj h <;> decide

lemma exists_behind_pads (rest : List Char) :
    ∃ tail, rest = List.replicate (leadingPads rest) pad ++ tail ∧ ∀ c ∈ tail.head?, c ≠ pad := by
  refine ⟨rest.dropWhile (· == pad), ?_, ?_⟩
  · have hpads : rest.takeWhile (· == pad) = List.replicate (leadingPads rest) pad :=
      List.eq_replicate_of_mem fun c hc =>
        beq_iff_eq.1 (List.all_eq_true.1 List.all_takeWhile c hc)
    rw [← hpads, List.takeWhile_append_dropWhile]
  · intro c hc
    have hhead := List.head?_dropWhile_not (· == pad) rest
    rw [Option.mem_def.1 hc] at hhead
    simpa using hhead

lemma exists_behind_room {n : Nat} (h : n ≤ leadingPads rest) :
    ∃ tail, rest = List.replicate n pad ++ tail := by
  obtain ⟨tail, htail, -⟩ := exists_behind_pads rest
  refine ⟨List.replicate (leadingPads rest - n) pad ++ tail, ?_⟩
  rw [← List.append_assoc, List.replicate_append_replicate, Nat.add_sub_cancel' h]
  exact htail

/-- Only the last group counts. -/
lemma faultBehind_group (n : Nat) (rest : List Char) :
    faultBehind d (d.codec.groupSymbols + n) rest =
      (faultBehind d n rest).map fun e => ⟨e.cause, d.codec.groupSymbols + e.offset⟩ := by
  have hroom : padRoom d (d.codec.groupSymbols + n) = padRoom d n := by
    rw [padRoom, padRoom, Nat.add_mod_left]
  cases rest with
  | nil =>
    rw [faultBehind, faultBehind, Nat.add_mod_left]
    cases endFault? d (n % d.codec.groupSymbols) <;> rfl
  | cons c rest =>
    rw [faultBehind, faultBehind, Nat.add_mod_left, hroom, Nat.add_assoc, Nat.add_assoc]
    split_ifs <;> rfl

lemma stopOf_group (stop : Stop) (fault : Option CodingError) :
    stopOf d (offset + n) stop fault =
      stopOf d offset stop (fault.map fun e => ⟨e.cause, n + e.offset⟩) := by
  cases fault with
  | none => rfl
  | some e => simp only [stopOf, Option.map_some, Nat.add_assoc]

lemma byteCount_add_group (n : Nat) :
    d.codec.byteCount (d.codec.groupSymbols + n) = d.codec.groupBytes + d.codec.byteCount n := by
  have hgroup := group_bits d.codec
  rw [Codec.byteCount, Codec.byteCount, Nat.add_mul, Nat.mul_comm d.codec.groupSymbols, ← hgroup]
  omega

lemma bytesBefore_group (n : Nat) (fault : Option CodingError) :
    bytesBefore d (d.codec.groupSymbols + n)
        (fault.map fun e => ⟨e.cause, d.codec.groupSymbols + e.offset⟩) =
      d.codec.groupBytes + bytesBefore d n fault := by
  have hcause :
      (∀ e ∈ fault.map fun e => (⟨e.cause, d.codec.groupSymbols + e.offset⟩ : CodingError),
        e.cause = .trailingSymbols) ↔ ∀ e ∈ fault, e.cause = .trailingSymbols := by
    cases fault <;> simp
  rw [bytesBefore, bytesBefore, byteCount_add_group, Nat.add_div_left _ (groupSymbols_pos d.codec)]
  simp only [hcause, Nat.succ_mul]
  split
  · rfl
  · exact Nat.add_comm _ _

lemma Padded.of_data (h : ∀ c ∈ data, IsSymbol d.codec c) : Padded d data 0 data :=
  ⟨by simp, h, fun hne => absurd rfl hne⟩

lemma accepted_data (hdata : ∀ c ∈ data, IsSymbol d.codec c) : Accepted d data := by
  intro seen c tail hseen
  have hfront : Padded d seen 0 seen :=
    .of_data fun c hc => hdata c (by rw [hseen]; exact List.mem_append_left _ hc)
  have hc : IsSymbol d.codec c := hdata c (by rw [hseen]; simp)
  change d.refuse? seen c = none
  rw [hfront.refuse_eq, isPad_of_isSymbol hc]
  simp [hc]

lemma Padded.accepted (h : Padded d data pads symbols)
    (halign : pads ≠ 0 → d.codec.isByteAligned data.length = true) : Accepted d symbols := by
  obtain ⟨rfl, hdata, hcodec⟩ := h
  induction pads with
  | zero =>
    rw [List.replicate_zero, List.append_nil]
    exact accepted_data hdata
  | succ pads ih =>
    have hpadded := hcodec (Nat.succ_ne_zero pads)
    have haligned := halign (Nat.succ_ne_zero pads)
    have hfront : Padded d data pads (data ++ List.replicate pads pad) :=
      ⟨rfl, hdata, fun _ => hpadded⟩
    have hrefuse := hfront.refuse_eq pad
    rw [if_pos (isPad_iff.2 ⟨hpadded, rfl⟩), if_neg fun hno => hno.2 haligned] at hrefuse
    rw [List.replicate_succ', ← List.append_assoc]
    exact (ih (fun _ => haligned) fun _ => hpadded).snoc hrefuse

lemma Padded.close_eq (h : Padded d data pads symbols)
    (hfault : symbols.length < d.codec.groupSymbols → d.fault? symbols = none) :
    GroupCode.close d symbols =
      .ok (d.codec.bytesOfValues (valuesOf d.codec data), d.ending symbols) := by
  rw [decoding_close_of_none hfault, h.groupBytes_eq]

section Last

variable (hdata : ∀ c ∈ data, IsSymbol d.codec c) (hshort : data.length < d.codec.groupSymbols)

include hdata in
lemma byteBits_values (hle : data.length ≤ d.codec.groupSymbols) :
    byteBits d.codec (d.codec.bytesOfValues (valuesOf d.codec data)) =
      (valueBits d.codec (valuesOf d.codec data)).take (8 * d.codec.byteCount data.length) := by
  have hlength := length_valuesOf hdata
  rw [← hlength] at hle ⊢
  refine byteBits_bytesOfValues d.codec (fun v hv => ?_) hle
  obtain ⟨c, -, hc⟩ := List.mem_filterMap.1 hv
  exact value_lt d.codec hc

include hshort

lemma ReadsAs.of_refused {e : CodingError} (hfault : faultBehind d data.length rest = some e)
    (hcause : e.cause ≠ .trailingSymbols)
    (hunroll : unroll d offset (data ++ rest) stop =
      ⟨[], [], .rejected d.codec ⟨e.cause, offset + e.offset⟩⟩) :
    ReadsAs d offset stop data rest (unroll d offset (data ++ rest) stop) := by
  rw [hunroll]
  refine ⟨by rw [hfault]; rfl, ?_, by simp [byteBits]⟩
  rw [hfault, bytesBefore, if_neg (by simpa using hcause), Nat.div_eq_of_lt hshort, Nat.zero_mul]
  rfl

include hdata

lemma ReadsAs.of_last
    (hcause : ∀ e ∈ faultBehind d data.length rest, e.cause = .trailingSymbols)
    (hunroll : unroll d offset (data ++ rest) stop =
      ⟨[], d.codec.bytesOfValues (valuesOf d.codec data),
        stopOf d offset stop (faultBehind d data.length rest)⟩) :
    ReadsAs d offset stop data rest (unroll d offset (data ++ rest) stop) := by
  have hlength : (d.codec.bytesOfValues (valuesOf d.codec data)).length =
      d.codec.byteCount data.length := by
    rw [length_bytesOfValues, length_valuesOf hdata]
  rw [hunroll]
  refine ⟨rfl, ?_, ?_⟩
  · rw [hlength, bytesBefore, if_pos hcause]
  · rw [hlength]
    exact byteBits_values hdata (Nat.le_of_lt hshort)

lemma reads_bare {o : Nat} : ReadsAs d offset (.ended o) data []
    (unroll d offset (data ++ []) (.ended o)) := by
  have hpadded := Padded.of_data hdata
  have hunroll : unroll d offset (data ++ []) (.ended o) = shortTape d offset o data := by
    rw [List.append_nil]
    exact unroll_of_short_ended hshort (accepted_data hdata)
  have hfault : faultBehind d data.length [] =
      (endFault? d data.length).map (⟨·, data.length⟩) := by
    rw [faultBehind, Nat.mod_eq_of_lt hshort]
  by_cases hnil : data = []
  · subst hnil
    rw [hunroll]
    refine ⟨rfl, ?_, rfl⟩
    rw [hfault]
    simp [shortTape, endFault?, bytesBefore, Codec.byteCount]
  · have hpos : data.length ≠ 0 := by simpa using hnil
    have hend : d.fault? data = endFault? d data.length := by
      rw [hpadded.fault_eq, endFault?, if_neg hpos]
      simp
    cases hcause : endFault? d data.length with
    | some cause =>
      rw [hcause] at hfault hend
      refine .of_refused hshort hfault (endFault_ne hcause) ?_
      rw [hunroll]
      exact shortTape_of_error hnil (decoding_close_of_some hshort hend)
    | none =>
      rw [hcause] at hfault hend
      refine .of_last hdata hshort (by simp [hfault]) ?_
      rw [hunroll, hfault]
      exact shortTape_of_ok hnil (hpadded.close_eq fun _ => hend)

lemma reads_refused (hc : ¬ IsSymbol d.codec c)
    (hpad : d.isPad c = true → d.codec.isByteAligned data.length = false) :
    ReadsAs d offset stop data (c :: rest) (unroll d offset (data ++ c :: rest) stop) := by
  have hpadded := Padded.of_data hdata
  obtain ⟨cause, hcause, hrefuse, hfault⟩ : ∃ cause, cause ≠ .trailingSymbols ∧
      d.refuse? data c = some cause ∧
      faultBehind d data.length (c :: rest) = some ⟨cause, data.length⟩ := by
    by_cases hc' : d.isPad c
    · have halign := hpad hc'
      refine ⟨.unexpectedPadding, by decide, ?_, ?_⟩
      · rw [hpadded.refuse_eq, if_pos hc', halign]
        simp
      · rw [faultBehind, hc', Nat.mod_eq_of_lt hshort, halign]
        simp
    · refine ⟨.invalidCharacter, by decide, ?_, ?_⟩
      · rw [hpadded.refuse_eq, if_neg hc']
        simp [hc]
      · rw [faultBehind, if_pos (by simpa using hc')]
  exact .of_refused hshort hfault hcause (unroll_of_refused hshort (accepted_data hdata) hrefuse)

lemma reads_unfinished {o : Nat} (hpad : d.isPad c = true)
    (halign : d.codec.isByteAligned data.length = true)
    (hroom : leadingPads (c :: rest) < padRoom d data.length) :
    ReadsAs d offset (.ended o) data (c :: rest)
      (unroll d offset (data ++ c :: rest) (.ended o)) := by
  obtain ⟨hcodec, hc⟩ := isPad_iff.1 hpad
  have hpads : leadingPads (c :: rest) ≠ 0 := by
    rw [leadingPads, hc]
    simp
  have hfault : faultBehind d data.length (c :: rest) =
      some ⟨.expectedPadding, data.length + leadingPads (c :: rest)⟩ := by
    rw [faultBehind, hpad, Nat.mod_eq_of_lt hshort, halign]
    simp [hroom]
  rw [padRoom, Nat.mod_eq_of_lt hshort] at hroom
  obtain ⟨tail, htail, hhead⟩ := exists_behind_pads (c :: rest)
  generalize leadingPads (c :: rest) = pads at *
  have hpadded : Padded d data pads (data ++ List.replicate pads pad) :=
    ⟨rfl, hdata, fun _ => hcodec⟩
  have haccepted := hpadded.accepted fun _ => halign
  have hlength := hpadded.length
  have hsize : (data ++ List.replicate pads pad).length < d.codec.groupSymbols := by omega
  refine .of_refused hshort hfault (by simp) ?_
  rw [htail, ← Nat.add_assoc, Nat.add_assoc, ← hlength]
  cases tail with
  | nil =>
    have hend := hpadded.fault_eq
    rw [if_pos hpads] at hend
    have hgroup : data ++ List.replicate pads pad ≠ [] := by simp [hpads]
    rw [List.append_nil, unroll_of_short_ended hsize haccepted]
    exact shortTape_of_error hgroup (decoding_close_of_some hsize hend)
  | cons c' tail =>
    have hc' : d.isPad c' = false := by
      rw [Bool.eq_false_iff]
      exact fun hpad' => hhead c' rfl (isPad_iff.1 hpad').2
    have hrefuse := hpadded.refuse_eq c'
    rw [hc', if_neg Bool.false_ne_true, if_pos hpads] at hrefuse
    rw [← List.append_assoc]
    exact unroll_of_refused hsize haccepted hrefuse

lemma reads_filled {o : Nat} (hpad : d.isPad c = true)
    (halign : d.codec.isByteAligned data.length = true)
    (hroom : padRoom d data.length ≤ leadingPads (c :: rest)) :
    ReadsAs d offset (.ended o) data (c :: rest)
      (unroll d offset (data ++ c :: rest) (.ended o)) := by
  obtain ⟨hcodec, hc⟩ := isPad_iff.1 hpad
  have hpads : padRoom d data.length ≠ 0 := by
    rw [padRoom, Nat.mod_eq_of_lt hshort]
    omega
  have hsize : data.length + padRoom d data.length = d.codec.groupSymbols := by
    rw [padRoom, Nat.mod_eq_of_lt hshort]
    omega
  have hfault : faultBehind d data.length (c :: rest) =
      if padRoom d data.length < (c :: rest).length then
        some ⟨.trailingSymbols, data.length + padRoom d data.length⟩
      else none := by
    rw [faultBehind, hpad, Nat.mod_eq_of_lt hshort, halign, if_neg (by decide), if_neg (by decide),
      if_neg (Nat.not_lt.2 hroom)]
  obtain ⟨tail, htail⟩ := exists_behind_room hroom
  generalize padRoom d data.length = pads at *
  have hpadded : Padded d data pads (data ++ List.replicate pads pad) :=
    ⟨rfl, hdata, fun _ => hcodec⟩
  have hlength := hpadded.length
  have hclose := hpadded.close_eq fun hlt => absurd hlt (by omega)
  rw [hpadded.ending_eq, if_pos hpads] at hclose
  refine .of_last hdata hshort ?_ ?_
  · rw [hfault]
    split <;> simp
  · rw [hfault, htail, ← List.append_assoc,
      unroll_of_sealed (hlength.trans hsize) (hpadded.accepted fun _ => halign) hclose, hlength]
    cases tail with
    | nil => simp [sealedStop, stopOf]
    | cons c' tail =>
      rw [if_pos (by simp)]
      rfl

/-- Data that is no complete group, and what follows it, are read as the last group. -/
theorem reads_short {o : Nat} (hrest : ∀ c ∈ rest.head?, ¬ IsSymbol d.codec c) :
    ReadsAs d offset (.ended o) data rest (unroll d offset (data ++ rest) (.ended o)) := by
  cases rest with
  | nil => exact reads_bare hdata hshort
  | cons c rest =>
    by_cases hpad : d.isPad c = true
    · by_cases halign : d.codec.isByteAligned data.length = true
      · rcases Nat.lt_or_ge (leadingPads (c :: rest)) (padRoom d data.length) with hroom | hroom
        · exact reads_unfinished hdata hshort hpad halign hroom
        · exact reads_filled hdata hshort hpad halign hroom
      · exact reads_refused hdata hshort (hrest c rfl) fun _ => Bool.not_eq_true _ ▸ halign
    · exact reads_refused hdata hshort (hrest c rfl) fun hpad' => absurd hpad' hpad

end Last

/-- A complete group of data comes before what the rest is read as. -/
lemma ReadsAs.group {group : List Char} (hgroup : ∀ c ∈ group, IsSymbol d.codec c)
    (hsize : group.length = d.codec.groupSymbols)
    (h : ReadsAs d (offset + d.codec.groupSymbols) stop data rest
      (unroll d (offset + d.codec.groupSymbols) (data ++ rest) stop)) :
    ReadsAs d offset stop (group ++ data) rest
      (unroll d offset (group ++ (data ++ rest)) stop) := by
  have hpadded := Padded.of_data hgroup
  have hclose := hpadded.close_eq fun hlt => absurd hlt (by omega)
  rw [hpadded.ending_eq, if_neg (not_not.2 rfl), if_pos hsize] at hclose
  have hunroll := (Complete.of_group hsize (accepted_data hgroup) hclose).unroll_eq offset
    (data ++ rest) stop
  rw [hsize] at hunroll
  have hbytes : (d.codec.bytesOfValues (valuesOf d.codec group)).length = d.codec.groupBytes := by
    rw [length_bytesOfValues, length_valuesOf hgroup, hsize, byteCount_group]
  have hvalues : (valueBits d.codec (valuesOf d.codec group)).length = 8 * d.codec.groupBytes := by
    rw [length_valueBits, length_valuesOf hgroup, hsize, group_bits]
  have hlength : (group ++ data).length = d.codec.groupSymbols + data.length := by
    rw [List.length_append, hsize]
  rw [hunroll]
  refine ⟨?_, ?_, ?_⟩
  · rw [h.stop_eq, hlength, faultBehind_group, stopOf_group]
  · rw [List.length_append, hbytes, h.length, hlength, faultBehind_group, bytesBefore_group]
  · rw [byteBits_append, h.bits, byteBits_values hgroup (Nat.le_of_eq hsize), hsize,
      byteCount_group, List.take_of_length_le (Nat.le_of_eq hvalues), List.length_append, hbytes,
      Nat.mul_add, ← hvalues, valuesOf_append, valueBits_append, List.take_length_add_append]

/-- What any text is read as. -/
theorem reads_all {o : Nat} (hdata : ∀ c ∈ data, IsSymbol d.codec c)
    (hrest : ∀ c ∈ rest.head?, ¬ IsSymbol d.codec c) :
    ReadsAs d offset (.ended o) data rest (unroll d offset (data ++ rest) (.ended o)) := by
  induction hn : data.length using Nat.strongRecOn generalizing data offset with
  | ind n ih =>
    subst hn
    rcases Nat.lt_or_ge data.length d.codec.groupSymbols with hshort | hlong
    · exact reads_short hdata hshort hrest
    · have hpos := groupSymbols_pos d.codec
      have hlater : ReadsAs d (offset + d.codec.groupSymbols) (.ended o)
          (data.drop d.codec.groupSymbols) rest _ :=
        ih _ (by rw [List.length_drop]; omega) (fun c hc => hdata c (List.mem_of_mem_drop hc)) rfl
      have hgroup := hlater.group (fun c hc => hdata c (List.mem_of_mem_take hc))
        (List.length_take_of_le hlong)
      rwa [List.take_append_drop, ← List.append_assoc, List.take_append_drop] at hgroup

/-- A text is decoded into what its symbols are read as. -/
theorem decode_eq_drained (d : Decoding) (text : String) :
    d.decode text = (unroll d 0 text.toList (.ended text.toList.length)).drained := by
  have hshows := group_shows (text_shows text) d
  have hcollect := (collect_shows simulation hshows).result
  rw [Tape.drained_counted] at hcollect
  exact hcollect

section Verdict

variable {text : String} (htext : text.toList = data ++ rest)
  (hdata : ∀ c ∈ data, IsSymbol d.codec c) (hrest : ∀ c ∈ rest.head?, ¬ IsSymbol d.codec c)

include htext hdata hrest

/-- A text with a fault is rejected with that fault. -/
theorem decode_of_fault {e : CodingError} (h : faultBehind d data.length rest = some e) :
    d.decode text = .error e := by
  have hreads : ReadsAs d 0 (.ended text.toList.length) data rest _ := reads_all hdata hrest
  have hstop := hreads.stop_eq
  rw [h, ← htext] at hstop
  rw [decode_eq_drained, Tape.drained, hstop]
  simp [stopOf]

/-- A text without fault is decoded into the whole bytes of its data. -/
theorem decode_of_none (h : faultBehind d data.length rest = none) :
    ∃ bytes, d.decode text = .ok bytes ∧ bytes.length = d.codec.byteCount data.length ∧
      byteBits d.codec bytes =
        (valueBits d.codec (valuesOf d.codec data)).take (8 * bytes.length) := by
  have hreads : ReadsAs d 0 (.ended text.toList.length) data rest _ := reads_all hdata hrest
  have hstop := hreads.stop_eq
  have hlength := hreads.length
  rw [h] at hstop hlength
  rw [bytesBefore, if_pos (by simp)] at hlength
  refine ⟨_, ?_, hlength, hreads.bits⟩
  rw [decode_eq_drained, Tape.drained, ← htext] at *
  rw [hstop]
  rfl

end Verdict

/-- Complete groups of data are read as the bytes that all their bits make. -/
lemma decode_groups (hdata : ∀ c ∈ data, IsSymbol d.codec c)
    (hdvd : d.codec.groupSymbols ∣ data.length) :
    ∃ bytes, d.decode (String.ofList data) = .ok bytes ∧
      8 * bytes.length = d.codec.bits * data.length ∧
      byteBits d.codec bytes = valueBits d.codec (valuesOf d.codec data) := by
  have htext : (String.ofList data).toList = data ++ [] := by
    rw [String.toList_ofList, List.append_nil]
  have hfault : faultBehind d data.length [] = none := by
    rw [faultBehind, Nat.mod_eq_zero_of_dvd hdvd]
    rfl
  obtain ⟨bytes, hok, hlength, hbits⟩ := decode_of_none htext hdata (by simp) hfault
  have hfull : 8 * bytes.length = d.codec.bits * data.length := by
    have hgroup := group_bits d.codec
    obtain ⟨q, hq⟩ := hdvd
    rw [hlength, Codec.byteCount, hq, Nat.mul_comm, Nat.mul_comm _ d.codec.bits, ← Nat.mul_assoc,
      ← hgroup, Nat.mul_assoc]
    omega
  rw [List.take_of_length_le (by rw [length_valueBits, length_valuesOf hdata, hfull])] at hbits
  exact ⟨bytes, hok, hfull, hbits⟩

end BaseText.Proofs
