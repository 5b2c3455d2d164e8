import BaseText.Proofs.Alike
import BaseText.Proofs.CompleteGroups
import BaseText.Proofs.Reading
import BaseText.Proofs.Writing

/-!
# Coding cursors as views

A coding cursor over any stack answers as a list of units would: what coding all that the stack has
ahead comes to. A rejection by the codec, or one that the stack itself meets, ends this list behind
the complete groups in front of it, and nothing of the group in which it is met is ever shown.
-/

namespace BaseText.Proofs

/-- Every stack that can be reached has some units ahead, and some end of them. -/
lemma exists_gives {k : Kind} {s : AnyStack k} (h : Reachable s) :
    ∃ units stop, Gives s units stop := by
  obtain ⟨t, ht⟩ := reachable_shows h
  exact ⟨_, _, Gives.of_shows ht⟩

/-- The units of all complete groups of `size` units in front of the place `n`. -/
def groupsBefore {α : Type} (size n : Nat) (units : List α) : List α :=
  units.take (n / size * size)

lemma groupsBefore_append {α : Type} {size n : Nat} {front : List α} (hdvd : size ∣ front.length)
    (hn : n < size) (rest : List α) :
    groupsBefore size (front.length + n) (front ++ rest) = front := by
  obtain ⟨m, hm⟩ := hdvd
  have hdiv : (size * m + n) / size = m := by
    rw [Nat.mul_add_div (Nat.zero_lt_of_lt hn), Nat.div_eq_of_lt hn, Nat.add_zero]
  rw [groupsBefore, hm, hdiv, Nat.mul_comm m, ← hm, List.take_left]

section Decoding

variable (d : Decoding)

/-- The rejection that is met before the symbols end in the way they do. A text that merely must not
end where it does is not rejected for it if something else comes there. -/
def rejection? (symbols : List Char) (stop : Stop) : Option CodingError :=
  match d.decode (String.ofList symbols), stop with
  | .ok _, _ => none
  | .error e, .ended _ => some e
  | .error e, .rejected _ _ => if e.offset < symbols.length then some e else none

/-- The symbols whose bytes are shown: all of them, or those of the complete groups in front of the
group in which something is rejected. -/
def shownSymbols (symbols : List Char) (stop : Stop) : List Char :=
  match rejection? d symbols stop, stop with
  | some e, _ => groupsBefore d.codec.groupSymbols e.offset symbols
  | none, .ended _ => symbols
  | none, .rejected _ _ => groupsBefore d.codec.groupSymbols symbols.length symbols

/-- How the bytes end if the first symbol has the index `base`. -/
def shownStop (base : Nat) (symbols : List Char) (stop : Stop) : Stop :=
  match rejection? d symbols stop with
  | some e => .rejected d.codec ⟨e.cause, base + e.offset⟩
  | none => stop

variable {d} {symbols front : List Char} {out : List UInt8} {stop : Stop}

lemma decode_eq_drained_symbols (d : Decoding) (symbols : List Char) :
    d.decode (String.ofList symbols) =
      (unroll d 0 symbols (.ended symbols.length)).drained := by
  rw [decode_eq_drained, String.toList_ofList]

lemma stop_of_drained {t : Tape UInt8} {e : CodingError} (h : t.drained = .error e) :
    ∃ codec, t.stop = .rejected codec e := by
  obtain ⟨behind, ahead, ⟨o⟩ | ⟨codec, e'⟩⟩ := t
  · cases h
  · obtain rfl : e' = e := Except.error.inj h
    exact ⟨codec, rfl⟩

lemma Complete.decode_eq (h : Complete d front out) : d.decode (String.ofList front) = .ok out := by
  rw [decode_eq_drained_symbols, h.unroll_alone]
  rfl

/-- A tape of bytes is the view of some symbols. -/
def IsView (d : Decoding) (base : Nat) (symbols : List Char) (stop : Stop) (t : Tape UInt8) :
    Prop :=
  ∃ bytes, d.decode (String.ofList (shownSymbols d symbols stop)) = .ok bytes ∧
    t = { ahead := bytes, stop := shownStop d base symbols stop }

variable {base : Nat}

lemma isView_of_rejection {e : CodingError} (hdecode : d.decode (String.ofList symbols) = .error e)
    (hmet : e.offset < symbols.length ∨ ∃ o, stop = .ended o)
    (hfront : groupsBefore d.codec.groupSymbols e.offset symbols = front)
    (hbytes : d.decode (String.ofList front) = .ok out) :
    IsView d base symbols stop ⟨[], out, .rejected d.codec ⟨e.cause, base + e.offset⟩⟩ := by
  have hrejection : rejection? d symbols stop = some e := by
    unfold rejection?
    rw [hdecode]
    cases stop with
    | ended o => rfl
    | rejected codec e' =>
      obtain hlt | ⟨o, ho⟩ := hmet
      · exact if_pos hlt
      · cases ho
  refine ⟨out, ?_, ?_⟩
  · unfold shownSymbols
    rw [hrejection]
    rw [← hfront] at hbytes
    exact hbytes
  · rw [shownStop, hrejection]

lemma isView_of_ok {o : Nat} (hdecode : d.decode (String.ofList symbols) = .ok out) :
    IsView d base symbols (.ended o) ⟨[], out, .ended o⟩ := by
  have hrejection : rejection? d symbols (.ended o) = none := by
    unfold rejection?
    rw [hdecode]
  refine ⟨out, ?_, ?_⟩
  · unfold shownSymbols
    rw [hrejection]
    exact hdecode
  · rw [shownStop, hrejection]

lemma isView_of_met {codec : Codec} {e : CodingError}
    (hdecode : ∀ e', d.decode (String.ofList symbols) = .error e' → symbols.length ≤ e'.offset)
    (hfront : groupsBefore d.codec.groupSymbols symbols.length symbols = front)
    (hbytes : d.decode (String.ofList front) = .ok out) :
    IsView d base symbols (.rejected codec e) ⟨[], out, .rejected codec e⟩ := by
  -- Decoding the symbols alone may fail at their end, but here they do not end.
  have hrejection : rejection? d symbols (.rejected codec e) = none := by
    unfold rejection?
    cases hverdict : d.decode (String.ofList symbols) with
    | ok bytes => rfl
    | error e' => exact if_neg (Nat.not_lt.2 (hdecode e' hverdict))
  refine ⟨out, ?_, ?_⟩
  · unfold shownSymbols
    rw [hrejection]
    rw [← hfront] at hbytes
    exact hbytes
  · rw [shownStop, hrejection]

section Cases

variable {rest seen group tail : List Char}

/-- A complete group is never at fault: if no other may follow it, padding has made it the last. -/
lemma exists_sealed (hsize : group.length = d.codec.groupSymbols)
    (hclose : ∀ out, GroupCode.close d group ≠ .ok (out, .more)) :
    ∃ last, GroupCode.close d group = .ok (last, .sealed) := by
  have hok : GroupCode.close d group = .ok (d.groupBytes group, d.ending group) :=
    decoding_close_of_none fun hlt => absurd hlt (by omega)
  cases hending : d.ending group with
  | more => exact absurd (hending ▸ hok) (hclose _)
  | last => exact absurd hsize (LawfulCode.close_last d _ _ (hending ▸ hok))
  | «sealed» => exact ⟨_, hending ▸ hok⟩

variable (hfront : Complete d front out)

include hfront

lemma Complete.decode_append (rest : List Char) :
    d.decode (String.ofList (front ++ rest)) =
      ({ ahead := out ++ (unroll d front.length rest (.ended (front ++ rest).length)).ahead,
         stop := (unroll d front.length rest (.ended (front ++ rest).length)).stop } :
        Tape UInt8).drained := by
  rw [decode_eq_drained_symbols, hfront.unroll_eq, Nat.zero_add]

lemma isView_refused {c : Char} {cause : Cause} (hsize : seen.length < d.codec.groupSymbols)
    (haccepted : Accepted d seen) (hrefuse : d.refuse? seen c = some cause) :
    IsView d base (front ++ (seen ++ c :: tail)) stop
      (unroll d base (front ++ (seen ++ c :: tail)) stop) := by
  have hdecode : d.decode (String.ofList (front ++ (seen ++ c :: tail))) =
      .error ⟨cause, front.length + seen.length⟩ := by
    rw [hfront.decode_append, unroll_of_refused hsize haccepted hrefuse]
    rfl
  rw [hfront.unroll_eq, unroll_of_refused hsize haccepted hrefuse, List.append_nil, Nat.add_assoc]
  refine isView_of_rejection hdecode (.inl ?_) ?_ hfront.decode_eq
  · simp only [List.length_append, List.length_cons]
    omega
  · exact groupsBefore_append hfront.dvd_length hsize _

lemma isView_full (hsize : group.length = d.codec.groupSymbols) (haccepted : Accepted d group)
    (hclose : ∀ out, GroupCode.close d group ≠ .ok (out, .more)) :
    IsView d base (front ++ (group ++ tail)) stop
      (unroll d base (front ++ (group ++ tail)) stop) := by
  obtain ⟨last, hsealed⟩ := exists_sealed hsize hclose
  have hunroll : ∀ offset tail stop, unroll d offset (group ++ tail) stop =
      ⟨[], last, sealedStop d.codec (offset + group.length) stop tail⟩ :=
    fun offset tail stop => unroll_of_sealed hsize haccepted hsealed
  have hgroups : d.codec.groupSymbols ∣ (front ++ group).length := by
    rw [List.length_append, hsize]
    exact Nat.dvd_add hfront.dvd_length (Nat.dvd_refl _)
  have hbytes : d.decode (String.ofList (front ++ group)) = .ok (out ++ last) := by
    have hdecode := hfront.decode_append (group ++ [])
    rw [hunroll] at hdecode
    rwa [List.append_nil] at hdecode
  have hpos := groupSymbols_pos d.codec
  rw [hfront.unroll_eq, hunroll, ← List.append_assoc]
  cases tail with
  | nil =>
    rw [List.append_nil]
    cases stop with
    | ended o => exact isView_of_ok hbytes
    | rejected codec e =>
      refine isView_of_met (fun e' he' => ?_) ?_ hbytes
      · rw [hbytes] at he'
        cases he'
      · have hwhole := groupsBefore_append hgroups hpos []
        rwa [List.append_nil] at hwhole
  | cons c tail =>
    have hdecode : d.decode (String.ofList (front ++ group ++ c :: tail)) =
        .error ⟨.trailingSymbols, front.length + group.length⟩ := by
      rw [List.append_assoc, hfront.decode_append, hunroll]
      rfl
    rw [sealedStop, Nat.add_assoc]
    refine isView_of_rejection hdecode (.inl ?_) ?_ hbytes
    · simp only [List.length_append, List.length_cons]
      omega
    · have hwhole := groupsBefore_append hgroups hpos (c :: tail)
      rwa [List.length_append] at hwhole

lemma isView_short (hsize : group.length < d.codec.groupSymbols) (haccepted : Accepted d group) :
    IsView d base (front ++ group) stop (unroll d base (front ++ group) stop) := by
  have hdecode := hfront.decode_append group
  rw [unroll_of_short_ended hsize haccepted] at hdecode
  have hwhole := groupsBefore_append hfront.dvd_length hsize group
  rw [← List.length_append] at hwhole
  rw [hfront.unroll_eq]
  cases stop with
  | ended o =>
    rw [unroll_of_short_ended hsize haccepted]
    cases group with
    | nil =>
      rw [shortTape] at hdecode ⊢
      exact isView_of_ok hdecode
    | cons c more =>
      rw [shortTape] at hdecode ⊢
      cases hclose : GroupCode.close d (c :: more) with
      | error cause =>
        rw [hclose] at hdecode
        rw [List.append_nil, Nat.add_assoc, ← List.length_append] at *
        exact isView_of_rejection hdecode (.inr ⟨o, rfl⟩) hwhole hfront.decode_eq
      | ok closed =>
        rw [hclose] at hdecode
        exact isView_of_ok hdecode
  | rejected codec e =>
    rw [unroll_of_short_rejected hsize haccepted, List.append_nil]
    refine isView_of_met (fun e' he' => ?_) hwhole hfront.decode_eq
    rw [hdecode] at he'
    obtain ⟨codec', hstop⟩ := stop_of_drained he'
    rw [offset_of_shortTape hstop, List.length_append]

end Cases

/-- A decoding that starts anywhere shows what decoding the same symbols as a text comes to. -/
theorem unroll_isView (d : Decoding) (base : Nat) (symbols : List Char) (stop : Stop) :
    IsView d base symbols stop (unroll d base symbols stop) := by
  obtain ⟨front, rest, out, rfl, hfront, hlast⟩ := exists_complete d symbols
  cases hlast with
  | refused hsize haccepted hrefuse => exact isView_refused hfront hsize haccepted hrefuse
  | full hsize haccepted hclose => exact isView_full hfront hsize haccepted hclose
  | short hsize haccepted => exact isView_short hfront hsize haccepted

lemma rejection_congr {stop stop' : Stop} (h : stop.more = stop'.more) (d : Decoding)
    (symbols : List Char) : rejection? d symbols stop = rejection? d symbols stop' := by
  unfold rejection?
  cases d.decode (String.ofList symbols) <;> cases stop <;> cases stop' <;> cases h <;> rfl

lemma shown_congr {stop stop' : Stop} (h : stop.more = stop'.more) (d : Decoding) (base : Nat)
    (symbols : List Char) :
    shownSymbols d symbols stop = shownSymbols d symbols stop' ∧
      (shownStop d base symbols stop).more = (shownStop d base symbols stop').more := by
  unfold shownSymbols shownStop
  rw [rejection_congr h]
  cases rejection? d symbols stop' with
  | some e => exact ⟨rfl, rfl⟩
  | none => cases stop <;> cases stop' <;> cases h <;> exact ⟨rfl, rfl⟩

/-- A decoding cursor over any stack answers as the list of the bytes would that decoding all
symbols of the stack comes to. They end where the stack ends, or with the first rejection. -/
theorem decoder_view {s : AnyStack .char} (h : Reachable s) (d : Decoding) :
    (∃ symbols stop, Gives s symbols stop) ∧
      ∀ symbols stop, Gives s symbols stop →
        ∃ bytes, d.decode (String.ofList (shownSymbols d symbols stop)) = .ok bytes ∧
          ∀ calls, answers calls (s.decode d) =
            answers calls ({ ahead := bytes,
                             stop := shownStop d (Cursor.index s) symbols stop } :
              Tape UInt8).counted := by
  refine ⟨exists_gives h, fun symbols stop hgives => ?_⟩
  obtain ⟨t, ht⟩ := reachable_shows h
  obtain ⟨rfl, hmore⟩ := hgives.tape_eq ht
  obtain ⟨bytes, hdecode, hview⟩ := unroll_isView d t.behind.length t.ahead t.stop
  obtain ⟨hsymbols, hstop⟩ := shown_congr hmore d t.behind.length t.ahead
  refine ⟨bytes, hsymbols ▸ hdecode, fun calls => ?_⟩
  have hindex : Cursor.index s = t.behind.length := simulation.index ht
  rw [answers_eq simulation (shows_decode ht d), hview, hindex]
  exact answers_stop hstop bytes calls

/-- Past the first character of a padded Base64 text, with a rejection by another codec behind the
text. -/
def brokenText : AnyStack .char :=
  let digits : AnyStack .char := .ofSource (.sequence (.ofList ['x']))
  let text : AnyStack .char := .ofSource (.sequence (.ofList ['>', 'Z', 'm', '8', '=']))
  (Call.next.ask (AnyStack.chain
    [text, (digits.decode { codec := .base16 }).encode { codec := .base16 }])).cursor

/-- How `brokenText` ends. -/
def brokenStop : Stop := .rejected .base16 ⟨.invalidCharacter, 0⟩

/-- A rejection behind padding is that of the stack, not one of the padding. -/
theorem decoder_view_brokenText :
    Gives brokenText ['Z', 'm', '8', '='] brokenStop ∧
      ∀ calls, answers calls (brokenText.decode { codec := .base64 .base64 }) =
        answers calls ({ ahead := [0x66, 0x6f], stop := brokenStop } : Tape UInt8).counted := by
  have hgives : Gives brokenText ['Z', 'm', '8', '='] brokenStop := rfl
  have hreach : Reachable brokenText := by
    refine .call (.chain _ fun m hm => ?_) .next
    obtain rfl | rfl : m = _ ∨ m = _ := by simpa using hm
    · exact .slice (k := .char) _
    · exact .encode (.decode (.slice (k := .char) _) _) _
  obtain ⟨bytes, hdecode, hview⟩ :=
    (decoder_view hreach { codec := .base64 .base64 }).2 _ _ hgives
  have hverdict : Decoding.decode { codec := .base64 .base64 } "Zm8=" = .ok [0x66, 0x6f] := by
    decide +kernel
  have hrejection : rejection? { codec := .base64 .base64 } ['Z', 'm', '8', '='] brokenStop =
      none := by
    unfold rejection?
    rw [show String.ofList ['Z', 'm', '8', '='] = "Zm8=" from rfl, hverdict]
  rw [shownStop, hrejection] at hview
  unfold shownSymbols at hdecode
  rw [hrejection] at hdecode
  obtain rfl : [0x66, 0x6f] = bytes := Except.ok.inj (hverdict.symm.trans hdecode)
  exact ⟨hgives, hview⟩

end Decoding

section Encoding

variable {e : Encoding} {front : List UInt8} {out : List Char}

/-- The bytes whose symbols are shown: all of them, or those of the complete groups if the source
rejects what follows. -/
def shownBytes (e : Encoding) (bytes : List UInt8) : Stop → List UInt8
  | .ended _ => bytes
  | .rejected _ _ => groupsBefore e.codec.groupBytes bytes.length bytes

lemma Complete.writes (h : Complete e front out) : Writes e front (String.ofList out) :=
  .of_unroll (h.unroll_alone _ _)

/-- An encoding that starts anywhere shows what encoding the same bytes comes to. -/
theorem unroll_encoding (e : Encoding) (base : Nat) (bytes : List UInt8) (stop : Stop) :
    ∃ text, Writes e (shownBytes e bytes stop) text ∧
      unroll e base bytes stop = { ahead := text.toList, stop := stop } := by
  cases stop with
  | ended o =>
    obtain ⟨data, -, hwrites⟩ := writes_all e bytes
    refine ⟨String.ofList (data ++ List.replicate (padsBehind e data.length) pad), ?_, ?_⟩
    · exact .of_unroll (hwrites 0 _)
    · rw [hwrites, String.toList_ofList]
  | rejected codec error =>
    obtain ⟨front, rest, out, rfl, hfront, hlast⟩ := exists_complete e bytes
    obtain ⟨hsize, haccepted⟩ := hlast.encoding_short
    have hdvd : e.codec.groupBytes ∣ front.length := hfront.dvd_length
    refine ⟨String.ofList out, ?_, ?_⟩
    · rw [shownBytes, List.length_append, groupsBefore_append hdvd hsize]
      exact hfront.writes
    · rw [hfront.unroll_eq, unroll_of_short_rejected hsize haccepted, List.append_nil,
        String.toList_ofList]

lemma shownBytes_congr {stop stop' : Stop} (h : stop.more = stop'.more) (e : Encoding)
    (bytes : List UInt8) : shownBytes e bytes stop = shownBytes e bytes stop' := by
  cases stop <;> cases stop' <;> cases h <;> rfl

/-- An encoding cursor over any stack answers as the text would that all bytes of the stack are
written as. If the stack rejects something, no symbol of the group in which it does is shown. -/
theorem encoder_view {s : AnyStack .byte} (h : Reachable s) (e : Encoding) :
    (∃ bytes stop, Gives s bytes stop) ∧
      ∀ bytes stop, Gives s bytes stop →
        ∃ text, Writes e (shownBytes e bytes stop) text ∧
          ∀ calls, answers calls (s.encode e) =
            answers calls ({ ahead := text.toList, stop := stop } : Tape Char).counted := by
  refine ⟨exists_gives h, fun bytes stop hgives => ?_⟩
  obtain ⟨t, ht⟩ := reachable_shows h
  obtain ⟨rfl, hmore⟩ := hgives.tape_eq ht
  obtain ⟨text, hwrites, hview⟩ := unroll_encoding e t.behind.length t.ahead t.stop
  rw [shownBytes_congr hmore] at hwrites
  refine ⟨text, hwrites, fun calls => ?_⟩
  rw [answers_eq simulation (shows_encode ht e), hview]
  exact answers_stop hmore text.toList calls

/-- Four bytes in hexadecimal digits, and a character that is no digit. -/
def brokenBytes : AnyStack .byte :=
  let digits : AnyStack .char :=
    .ofSource (.sequence (.ofList ['6', '8', '6', '5', '6', 'c', '6', 'c', 'x']))
  digits.decode { codec := .base16 }

/-- Of four bytes in front of a rejection, three are written. -/
theorem encoder_view_brokenBytes :
    Gives brokenBytes [0x68, 0x65, 0x6c, 0x6c] (.rejected .base16 ⟨.invalidCharacter, 8⟩) ∧
      ∀ calls, answers calls (brokenBytes.encode { codec := .base64 .base64 }) =
        answers calls ({ ahead := ['a', 'G', 'V', 's'],
                         stop := .rejected .base16 ⟨.invalidCharacter, 8⟩ } :
          Tape Char).counted := by
  have hgives : Gives brokenBytes [0x68, 0x65, 0x6c, 0x6c]
      (.rejected .base16 ⟨.invalidCharacter, 8⟩) := rfl
  obtain ⟨text, hwrites, hview⟩ :=
    (encoder_view (.decode (.slice (k := .char) _) _) { codec := .base64 .base64 }).2 _ _ hgives
  have hverdict : Encoding.encode { codec := .base64 .base64 } [0x68, 0x65, 0x6c] =
      .ok "aGVs" := by decide +kernel
  obtain rfl : "aGVs" = text := hwrites.eq_of_ok hverdict
  exact ⟨hgives, hview⟩

end Encoding

end BaseText.Proofs
