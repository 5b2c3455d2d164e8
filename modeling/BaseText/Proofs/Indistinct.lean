import BaseText.Proofs.Sessions
import BaseText.Proofs.Views

/-!
# What a session cannot tell

No session can tell stacks apart that show alike tapes. Through a codec it cannot even tell at which
offset the units below it plainly end: the units, their index and a rejection behind them are all
that the answers through a codec depend on.
-/

namespace BaseText.Proofs

variable {k k' : Kind}

/-- The layers that read or write the text of a codec. -/
def Cover.isCodec {k k' : Kind} : Cover k k' → Bool
  | encode _ | decode _ => true
  | _ => false

/-- What a layer makes of two tapes. -/
structure Cover.Makes (layer : Cover k k') (t t' : Tape k.Carrier) (u u' : Tape k'.Carrier) :
    Prop where
  alike : u.Alike u'
  shows : ∀ s : AnyStack k, Shows s t → Shows (layer.over s) u
  shows' : ∀ s : AnyStack k, Shows s t' → Shows (layer.over s) u'

/-- Where the units below a codec plainly end is not told through it. -/
lemma Cover.codec_makes (codec : Cover k k') (hcodec : codec.isCodec) {t t' : Tape k.Carrier}
    (hindex : t.behind.length = t'.behind.length) (hahead : t.ahead = t'.ahead)
    (hmore : t.stop.more = t'.stop.more) : ∃ u u', codec.Makes t t' u u' := by
  cases codec with
  | encode e =>
    refine ⟨_, _, ?_, fun s h => shows_encode h e, fun s h => shows_encode h e⟩
    obtain ⟨text, hwrites, hview⟩ := unroll_encoding e t.behind.length t.ahead t.stop
    obtain ⟨text', hwrites', hview'⟩ := unroll_encoding e t'.behind.length t'.ahead t'.stop
    rw [shownBytes_congr hmore, hahead] at hwrites
    obtain rfl : text = text' := hwrites.unique hwrites'
    rw [hview, hview']
    exact alike_counted hmore _
  | decode d =>
    refine ⟨_, _, ?_, fun s h => shows_decode h d, fun s h => shows_decode h d⟩
    obtain ⟨bytes, hdecode, hview⟩ := unroll_isView d t.behind.length t.ahead t.stop
    obtain ⟨bytes', hdecode', hview'⟩ := unroll_isView d t'.behind.length t'.ahead t'.stop
    obtain ⟨hsymbols, hstop⟩ := shown_congr hmore d t'.behind.length t'.ahead
    rw [hahead, hsymbols] at hdecode
    obtain rfl : bytes = bytes' := Except.ok.inj (hdecode.symm.trans hdecode')
    rw [hview, hview', hindex, hahead]
    exact alike_counted hstop _
  | _ => cases hcodec

lemma Cover.over_alike (layer : Cover k k') {t t' : Tape k.Carrier} (h : t.Alike t') :
    ∃ u u', layer.Makes t t' u u' := by
  cases layer with
  | limit n =>
    exact ⟨_, _, limit_alike h n, fun s hs => shows_limit hs n, fun s hs => shows_limit hs n⟩
  | delimit stops =>
    exact ⟨_, _, delimit_alike h stops, fun s hs => shows_delimit hs stops,
      fun s hs => shows_delimit hs stops⟩
  | filter hidden =>
    exact ⟨_, _, visibleTape_alike h hidden, fun s hs => shows_filter hs hidden,
      fun s hs => shows_filter hs hidden⟩
  | map table =>
    exact ⟨_, _, map_alike h table.apply, fun s hs => shows_map hs table,
      fun s hs => shows_map hs table⟩
  | encode e =>
    exact (Cover.encode e).codec_makes rfl (congrArg _ h.behind) h.ahead h.stop.more
  | decode d =>
    exact (Cover.decode d).codec_makes rfl (congrArg _ h.behind) h.ahead h.stop.more
  | chain before behind hmembers =>
    obtain ⟨front, rear, hchain⟩ := chain_over_shows before behind hmembers
    exact ⟨_, _, rowOf_alike h front rear, fun s hs => hchain hs, fun s hs => hchain hs⟩

/-- Stacks with alike tapes answer alike through every session. -/
theorem session_alike {s s' : AnyStack k} {t t' : Tape k.Carrier} (session : Session k k')
    (h : Shows s t) (h' : Shows s' t') (halike : t.Alike t') :
    session.answers s = session.answers s' := by
  induction session with
  | done => rfl
  | ask call kept next ih =>
    have hask := call.ask_meets simulation h
    have hask' := call.ask_meets simulation h'
    obtain ⟨hresult, hcursor⟩ := ask_alike halike call
    have hnext := ih hask.cursor hask'.cursor hcursor
    cases kept with
    | true => rw [Session.answers, Session.answers, hask.result, hask'.result, hresult, hnext]
    | false => exact hnext
  | cover layer next ih =>
    obtain ⟨u, u', hmakes⟩ := layer.over_alike halike
    exact ih (hmakes.shows s h) (hmakes.shows' s' h') hmakes.alike

/-- Through a codec, no session can tell stacks apart that have the same index and the same units
ahead, and then both end or both reject what follows with the same error. -/
theorem codec_session {k'' : Kind} {s s' : AnyStack k} (h : Reachable s) (h' : Reachable s')
    (hindex : Cursor.index s = Cursor.index s') {units : List k.Carrier} {stop : Stop}
    (hgives : Gives s units stop) (hgives' : Gives s' units stop) {codec : Cover k k'}
    (hcodec : codec.isCodec) (session : Session k' k'') :
    session.answers (codec.over s) = session.answers (codec.over s') := by
  obtain ⟨t, ht⟩ := reachable_shows h
  obtain ⟨t', ht'⟩ := reachable_shows h'
  obtain ⟨hahead, hmore⟩ := hgives.tape_eq ht
  obtain ⟨hahead', hmore'⟩ := hgives'.tape_eq ht'
  rw [simulation.index ht, simulation.index ht'] at hindex
  obtain ⟨u, u', hmakes⟩ := codec.codec_makes hcodec hindex (hahead.trans hahead'.symm)
    (hmore.trans hmore'.symm)
  exact session_alike session (hmakes.shows s ht) (hmakes.shows' s' ht') hmakes.alike

end BaseText.Proofs
