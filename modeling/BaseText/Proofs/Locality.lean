import BaseText.Proofs.Views

/-!
# Groups on their own

What a group becomes depends neither on the groups in front of it nor on anything behind it. Bytes
behind complete groups are written as they are written alone, a text behind complete groups of data
is read or rejected as it is alone, and what comes behind such groups has no say in the bytes that
a decoding cursor shows of them.
-/

namespace BaseText.Proofs

/-- Units that fill complete groups are complete groups, if only too few of them can be last. -/
lemma exists_complete_of_dvd {ρ α β : Type} [GroupCode ρ α β] [LawfulCode ρ] {code : ρ}
    {units : List α} (hdvd : GroupCode.size code ∣ units.length)
    (hlast : ∀ front rest, units = front ++ rest → LastGroup code rest →
      rest.length < GroupCode.size code) : ∃ out, Complete code units out := by
  obtain ⟨front, rest, out, rfl, hfront, hrest⟩ := exists_complete code units
  have hshort := hlast front rest rfl hrest
  rw [List.length_append, Nat.dvd_add_right hfront.dvd_length] at hdvd
  obtain rfl := List.eq_nil_of_length_eq_zero (Nat.eq_zero_of_dvd_of_lt hdvd hshort)
  rw [List.append_nil]
  exact ⟨out, hfront⟩

section Complete

variable {e : Encoding} {d : Decoding} {bytes : List UInt8} {data rest : List Char}

lemma exists_complete_bytes (h : e.codec.groupBytes ∣ bytes.length) :
    ∃ out, Complete e bytes out :=
  exists_complete_of_dvd h fun _ _ _ hrest => hrest.encoding_short.1

/-- Data is never refused, and a complete group of it may be followed by another one. -/
lemma LastGroup.data_short (h : LastGroup d rest) (hdata : ∀ c ∈ rest, IsSymbol d.codec c) :
    rest.length < d.codec.groupSymbols := by
  cases h with
  | @refused seen tail c cause hsize haccepted hrefuse =>
    have hnone := accepted_data hdata seen c tail rfl
    rw [hnone] at hrefuse
    cases hrefuse
  | @full group tail hsize haccepted hclose =>
    change group.length = d.codec.groupSymbols at hsize
    have hpadded : Padded d group 0 group :=
      .of_data fun c hc => hdata c (List.mem_append_left _ hc)
    have hmore := hpadded.close_eq fun hlt => absurd hlt (Nat.not_lt.2 hsize.ge)
    rw [hpadded.ending_eq, if_neg (not_not.2 rfl), if_pos hsize] at hmore
    exact absurd hmore (hclose _)
  | short hsize haccepted => exact hsize

lemma exists_complete_data (hdata : ∀ c ∈ data, IsSymbol d.codec c)
    (h : d.codec.groupSymbols ∣ data.length) : ∃ out, Complete d data out :=
  exists_complete_of_dvd h fun front _ happend hrest =>
    hrest.data_short fun c hc => hdata c (happend ▸ List.mem_append_right front hc)

/-- Complete groups of data become complete groups of bytes. -/
lemma Complete.length_bytes {out : List UInt8} (h : Complete d data out)
    (hdata : ∀ c ∈ data, IsSymbol d.codec c) {groups : Nat}
    (hgroups : data.length = groups * d.codec.groupSymbols) :
    out.length = groups * d.codec.groupBytes := by
  have hdvd : d.codec.groupSymbols ∣ data.length := hgroups ▸ Nat.dvd_mul_left _ _
  obtain ⟨bytes, hok, hlength, -⟩ := decode_groups hdata hdvd
  obtain rfl : out = bytes := Except.ok.inj (h.decode_eq.symm.trans hok)
  have hgroup := group_bits d.codec
  rw [hgroups, Nat.mul_left_comm, ← hgroup, Nat.mul_left_comm] at hlength
  exact Nat.eq_of_mul_eq_mul_left (by decide) hlength

end Complete

section Whole

variable {e : Encoding} {d : Decoding} {front : List UInt8} {out : List Char}
  {symbols : List Char} {bytes : List UInt8}

/-- Bytes are written behind complete groups as they are written alone. -/
lemma Complete.exists_writes (h : Complete e front out) (rest : List UInt8) :
    ∃ text, Writes e rest text ∧ Writes e (front ++ rest) (String.ofList out ++ text) := by
  obtain ⟨data, -, hwrites⟩ := writes_all e rest
  refine ⟨_, .of_unroll (hwrites 0 rest.length), ?_⟩
  rw [← String.ofList_append]
  exact .of_unroll (by rw [h.unroll_eq, hwrites])

/-- A text is read behind complete groups as it is read alone, at offsets that count these. -/
lemma Complete.decode_behind (h : Complete d symbols bytes) (rest : List Char) :
    d.decode (String.ofList (symbols ++ rest)) =
      match d.decode (String.ofList rest) with
      | .ok more => .ok (bytes ++ more)
      | .error e => .error ⟨e.cause, symbols.length + e.offset⟩ := by
  -- Of the offset at which the rest starts, only the rejection of its view tells.
  obtain ⟨more, hmore, hview⟩ := unroll_isView d symbols.length rest
    (.ended (symbols ++ rest).length)
  rw [h.decode_append, hview]
  unfold shownSymbols rejection? at hmore
  unfold shownStop rejection?
  cases hrest : d.decode (String.ofList rest) with
  | ok alone =>
    rw [hrest] at hmore
    obtain rfl : alone = more := Except.ok.inj (hrest.symm.trans hmore)
    rfl
  | error e => rfl

end Whole

section Emits

variable {σ α : Type} [Cursor σ α]

/-- The units at the first places of the cursor are these, in whichever direction and after
whatever calls it comes to them. -/
def Emits (s : σ) (units : List α) : Prop :=
  ∀ calls i u, units[i]? = some u →
    (Cursor.index (after calls s) = i → (Cursor.next (after calls s)).result = .ok u) ∧
      (Cursor.index (after calls s) = i + 1 → (Cursor.previous (after calls s)).result = .ok u)

variable {s : σ} {t : Tape α} {units more : List α}

lemma Emits.of_append (h : Emits s (units ++ more)) : Emits s units := by
  intro calls i u hu
  have hi : i < units.length := (List.getElem?_eq_some_iff.1 hu).1
  exact h calls i u (by rw [List.getElem?_append_left hi, hu])

/-- Calls only move a cursor, so the units of its tape stay at their places. -/
lemma emits_of_shows [Viewed σ α] (h : Shows s t) (hstart : t.behind = []) : Emits s t.ahead := by
  intro calls i u hu
  have hafter := after_shows simulation h calls
  have hindex := simulation.index hafter
  have hnext := (simulation.next hafter).result
  have hprevious := (simulation.previous hafter).result
  have hunits : (after calls t).units = t.ahead := by
    have htape := congrArg Tape.ahead (Tape.toStart_after t calls)
    simpa [Tape.toStart, Tape.units, hstart] using htape
  rw [hindex, hnext, hprevious]
  rw [← hunits] at hu
  generalize after calls t = place at hu
  obtain ⟨behind, ahead, stop⟩ := place
  refine ⟨?_, ?_⟩
  · rintro rfl
    cases ahead with
    | nil => simp [Tape.units] at hu
    | cons v rest => simpa [Tape.units, Tape.first] using hu
  · intro hbehind
    cases behind with
    | nil => simp at hbehind
    | cons v rest =>
      obtain rfl : rest.length = i := by simpa using hbehind
      simpa [Tape.units, Tape.last] using hu

end Emits

/-- Whatever comes behind complete groups of data, a decoding cursor shows the same bytes of
them. -/
lemma Complete.emits {d : Decoding} {front : List Char} {bytes : List UInt8}
    (h : Complete d front bytes) {s : AnyStack .char} (hs : Reachable s) {rest : List Char}
    {stop : Stop} (hgives : Gives s (front ++ rest) stop) : Emits (s.decode d) bytes := by
  obtain ⟨t, ht⟩ := reachable_shows hs
  obtain ⟨hahead, -⟩ := hgives.tape_eq ht
  have hshows := shows_decode ht d
  rw [hahead, h.unroll_eq] at hshows
  exact (emits_of_shows hshows rfl).of_append

/-- Coding is local to groups. Complete groups of bytes are written in front of what the rest is
written as, and complete groups of data are read in front of what the rest is read as or rejected
for. What comes behind complete groups of data changes none of the bytes that are shown of them. -/
theorem coding_local (codec : Codec) (write : EncodeOptions) (read : DecodeOptions) :
    (∀ front rest : List UInt8, codec.groupBytes ∣ front.length →
      ∃ text more, Writes ⟨codec, write⟩ front text ∧ Writes ⟨codec, write⟩ rest more ∧
        Writes ⟨codec, write⟩ (front ++ rest) (text ++ more)) ∧
    (∀ front rest : String, codec.groupSymbols ∣ front.length →
      (∀ c ∈ front.toList, IsSymbol codec c) →
      ∃ bytes, Decoding.decode ⟨codec, read⟩ front = .ok bytes ∧
        Decoding.decode ⟨codec, read⟩ (front ++ rest) =
          match Decoding.decode ⟨codec, read⟩ rest with
          | .ok more => .ok (bytes ++ more)
          | .error e => .error ⟨e.cause, front.length + e.offset⟩) ∧
    ∀ (groups : Nat) (front : List Char), front.length = groups * codec.groupSymbols →
      (∀ c ∈ front, IsSymbol codec c) →
      ∃ bytes, Decoding.decode ⟨codec, read⟩ (String.ofList front) = .ok bytes ∧
        bytes.length = groups * codec.groupBytes ∧
        ∀ (s : AnyStack .char) (rest : List Char) (stop : Stop), Reachable s →
          Gives s (front ++ rest) stop → Emits (s.decode ⟨codec, read⟩) bytes := by
  refine ⟨?_, ?_, ?_⟩
  · intro front rest hdvd
    obtain ⟨out, hfront⟩ := exists_complete_bytes (e := ⟨codec, write⟩) hdvd
    obtain ⟨more, hrest, hboth⟩ := hfront.exists_writes rest
    exact ⟨_, more, hfront.writes, hrest, hboth⟩
  · intro front rest hdvd hdata
    obtain ⟨bytes, hfront⟩ := exists_complete_data (d := ⟨codec, read⟩) hdata hdvd
    have htext : String.ofList (front.toList ++ rest.toList) = front ++ rest := by
      rw [String.ofList_append, String.ofList_toList, String.ofList_toList]
    have halone := hfront.decode_eq
    have hboth := hfront.decode_behind rest.toList
    rw [htext, String.ofList_toList] at hboth
    rw [String.ofList_toList] at halone
    exact ⟨bytes, halone, hboth⟩
  · intro groups front hlength hdata
    obtain ⟨bytes, hfront⟩ := exists_complete_data (d := ⟨codec, read⟩) hdata
      (hlength ▸ Nat.dvd_mul_left _ _)
    exact ⟨bytes, hfront.decode_eq, hfront.length_bytes hdata hlength,
      fun s rest stop hs hgives => hfront.emits hs hgives⟩

/-- A complete group of Base64 in front of an unfinished one. -/
def unfinishedText : AnyStack .char := .ofSource (.text (.ofString "Zm9vY"))

/-- Three bytes and a fourth one, and a complete group in front of a symbol that is too few. -/
theorem coding_local_unfinishedText :
    Encoding.encode { codec := .base64 .base64 } ([0x66, 0x6f, 0x6f] ++ [0x62]) = .ok "Zm9vYg==" ∧
      Decoding.decode { codec := .base64 .base64 } ("Zm9v" ++ "Y") =
        .error ⟨.incompleteGroup, 5⟩ ∧
      Emits (unfinishedText.decode { codec := .base64 .base64 }) [0x66, 0x6f, 0x6f] := by
  obtain ⟨hwrite, hread, hshow⟩ := coding_local (.base64 .base64) {} {}
  have hsymbols : ∀ c ∈ ['Z', 'm', '9', 'v'], IsSymbol (.base64 .base64) c := by
    simp only [List.mem_cons, List.not_mem_nil, or_false]
    rintro c (rfl | rfl | rfl | rfl) <;> decide
  refine ⟨?_, ?_, ?_⟩
  · obtain ⟨text, more, htext, hmore, hboth⟩ := hwrite [0x66, 0x6f, 0x6f] [0x62] (by decide)
    obtain rfl : "Zm9v" = text := htext.eq_of_ok (by decide +kernel)
    obtain rfl : "Yg==" = more := hmore.eq_of_ok (by decide +kernel)
    exact hboth.encode_ok (by decide)
  · obtain ⟨bytes, -, hboth⟩ := hread "Zm9v" "Y" (by decide) hsymbols
    have hrest : Decoding.decode { codec := .base64 .base64 } "Y" =
        .error ⟨.incompleteGroup, 1⟩ := by decide +kernel
    rw [hrest] at hboth
    exact hboth
  · obtain ⟨bytes, hbytes, -, hemits⟩ := hshow 1 ['Z', 'm', '9', 'v'] rfl hsymbols
    obtain rfl : [0x66, 0x6f, 0x6f] = bytes :=
      Except.ok.inj ((by decide +kernel : _ = _).symm.trans hbytes)
    exact hemits unfinishedText ['Y'] (.ended 5) (.text _) (text_gives "Zm9vY")

end BaseText.Proofs
