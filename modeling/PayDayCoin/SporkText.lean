import Mathlib
import PayDayCoin.Spork

/-!
# What a spork signature binds

The text that is signed for a spork is its id, its value and its signing time, written one
after the other in decimal. Nothing marks where one ends, so two messages have the same
text when characters move from one field to the next: **`strMessage_ne_iff`** says that they
have not, for different messages, exactly if none do. `CSporkMessage::GetHash` takes the
same fields at their full width. In `Sample.replayed_spork` the last digit of the value is
moved to the signing time, and the message, which has become newer, is taken with the old
signature.
-/

namespace PayDayCoin

/-- Characters move from the text of a field of the first message to the next field: out of
the value into both its neighbours, or through the value from the time to the id. -/
inductive CSporkMessage.MovesText (spork spork' : CSporkMessage) : Prop where
  | apart {d e : String} (hne : d ≠ "" ∨ e ≠ "") (hid : toString spork'.nSporkID = toString spork.nSporkID ++ d)
      (hvalue : toString spork.nValue = d ++ toString spork'.nValue ++ e)
      (htime : toString spork'.nTimeSigned = e ++ toString spork.nTimeSigned)
  | through {d e : String} (hne : d ≠ "" ∨ e ≠ "") (hid : toString spork'.nSporkID = toString spork.nSporkID ++ d)
      (hvalue : toString spork.nValue ++ e = d ++ toString spork'.nValue)
      (htime : toString spork.nTimeSigned = e ++ toString spork'.nTimeSigned)

variable {spork spork' : CSporkMessage}

theorem toString_int32_inj {i j : Int32} (h : toString i = toString j) : i = j :=
  Int32.toInt_inj.1 (Int.repr_injective h)

theorem toString_int64_inj {i j : Int64} (h : toString i = toString j) : i = j :=
  Int64.toInt_inj.1 (Int.repr_injective h)

/-- The texts of the fields give the fields. -/
theorem content_eq_of_texts (hid : toString spork.nSporkID = toString spork'.nSporkID)
    (hvalue : toString spork.nValue = toString spork'.nValue)
    (htime : toString spork.nTimeSigned = toString spork'.nTimeSigned) : spork.content = spork'.content := by
  rw [CSporkMessage.content, CSporkMessage.content, toString_int32_inj hid, toString_int64_inj hvalue,
    toString_int64_inj htime]

theorem append_eq_append_iff {a b c d : String} :
    a ++ b = c ++ d ↔ (∃ e, c = a ++ e ∧ b = e ++ d) ∨ ∃ e, a = c ++ e ∧ d = e ++ b := by
  simp only [← String.toList_inj, String.toList_append]
  rw [List.append_eq_append_iff]
  refine or_congr ⟨fun ⟨e, he⟩ => ⟨String.ofList e, by simpa using he⟩, fun ⟨e, he⟩ => ⟨e.toList, he⟩⟩
    ⟨fun ⟨e, he⟩ => ⟨String.ofList e, by simpa using he⟩, fun ⟨e, he⟩ => ⟨e.toList, he⟩⟩

theorem eq_empty_of_append_right {a d : String} (h : a = a ++ d) : d = "" := by
  rw [← String.toList_inj, String.toList_append] at h
  exact String.toList_inj.1 (by simpa using h)

theorem eq_empty_of_append_left {a d : String} (h : a = d ++ a) : d = "" := by
  rw [← String.toList_inj, String.toList_append] at h
  exact String.toList_inj.1 (by simpa using h)

/-- Moving characters leaves the text as it is. -/
theorem CSporkMessage.MovesText.strMessage_eq (h : spork.MovesText spork') : spork.strMessage = spork'.strMessage := by
  cases h with
  | apart hne hid hvalue htime =>
    simp only [CSporkMessage.strMessage, hid, hvalue, htime, String.append_assoc]
  | @through d e hne hid hvalue htime =>
    calc toString spork.nSporkID ++ toString spork.nValue ++ toString spork.nTimeSigned
      _ = toString spork.nSporkID ++ (toString spork.nValue ++ e) ++ toString spork'.nTimeSigned := by
        rw [htime]
        simp only [String.append_assoc]
      _ = toString spork'.nSporkID ++ toString spork'.nValue ++ toString spork'.nTimeSigned := by
        rw [hvalue, hid]
        simp only [String.append_assoc]

/-- And changes what the message says. -/
theorem CSporkMessage.MovesText.content_ne (h : spork.MovesText spork') : spork.content ≠ spork'.content := by
  intro heq
  simp only [CSporkMessage.content, Prod.mk.injEq] at heq
  obtain ⟨hid', -, htime'⟩ := heq
  cases h with
  | apart hne hid hvalue htime =>
    rw [hid'] at hid
    rw [htime'] at htime
    exact hne.elim (fun hd => hd (eq_empty_of_append_right hid)) fun he => he (eq_empty_of_append_left htime)
  | through hne hid hvalue htime =>
    rw [hid'] at hid
    rw [htime'] at htime
    exact hne.elim (fun hd => hd (eq_empty_of_append_right hid)) fun he => he (eq_empty_of_append_left htime)

/-- Different messages with one text: when the first fields of the one are no longer than
those of the other, characters move. -/
theorem movesText_of_eq {e : String} (hne : spork.content ≠ spork'.content)
    (hfront : toString spork'.nSporkID ++ toString spork'.nValue = toString spork.nSporkID ++ toString spork.nValue ++ e)
    (htime : toString spork.nTimeSigned = e ++ toString spork'.nTimeSigned) :
    spork.MovesText spork' ∨ spork'.MovesText spork := by
  rw [String.append_assoc] at hfront
  -- unless a character moves, the fields have the same texts
  have hmoved : ∀ {d : String}, (d = "" → e = "" → spork.content = spork'.content) → d ≠ "" ∨ e ≠ "" := by
    intro d hsame
    by_contra hnone
    rw [not_or, not_not, not_not] at hnone
    exact hne (hsame hnone.1 hnone.2)
  rcases append_eq_append_iff.1 hfront with ⟨d, hid, hvalue⟩ | ⟨d, hid, hvalue⟩
  · refine .inr (.apart (hmoved fun hd he => ?_) hid (by rw [hvalue, String.append_assoc]) htime)
    rw [hd, String.append_empty] at hid
    rw [hd, he, String.append_empty, String.empty_append] at hvalue
    rw [he, String.empty_append] at htime
    exact content_eq_of_texts hid hvalue.symm htime
  · refine .inl (.through (hmoved fun hd he => ?_) hid hvalue htime)
    rw [hd, String.append_empty] at hid
    rw [hd, he, String.append_empty, String.empty_append] at hvalue
    rw [he, String.empty_append] at htime
    exact content_eq_of_texts hid.symm hvalue htime

/-- **Different messages have different texts** exactly if no characters move from one field
to the next between them. -/
theorem strMessage_ne_iff (spork spork' : CSporkMessage) :
    (spork.content ≠ spork'.content → spork.strMessage ≠ spork'.strMessage) ↔
      ¬(spork.MovesText spork' ∨ spork'.MovesText spork) := by
  constructor
  · rintro hbound (hmoves | hmoves)
    · exact hbound hmoves.content_ne hmoves.strMessage_eq
    · exact hbound hmoves.content_ne.symm hmoves.strMessage_eq.symm
  · intro hnone hne heq
    rcases append_eq_append_iff.1 heq with ⟨e, hfront, htime⟩ | ⟨e, hfront, htime⟩
    · exact hnone (movesText_of_eq hne hfront htime)
    · exact hnone (movesText_of_eq hne.symm hfront htime).symm

/-- So no signature is good for another id, value or time if the ids and the values have as
many characters. -/
theorem strMessage_ne_of_length (hne : spork.content ≠ spork'.content)
    (hid : (toString spork.nSporkID).length = (toString spork'.nSporkID).length)
    (hvalue : (toString spork.nValue).length = (toString spork'.nValue).length) :
    spork.strMessage ≠ spork'.strMessage := by
  intro heq
  have hlist := congrArg String.toList heq
  simp only [CSporkMessage.strMessage, String.toList_append] at hlist
  obtain ⟨hfront, htime⟩ := List.append_inj hlist (by simp only [List.length_append, String.length_toList, hid, hvalue])
  obtain ⟨hid', hvalue'⟩ := List.append_inj hfront (by simpa only [String.length_toList] using hid)
  exact hne (content_eq_of_texts (String.toList_inj.1 hid') (String.toList_inj.1 hvalue') (String.toList_inj.1 htime))

/-! ### A spork that is replayed -/

namespace Sample

/-- A spork of the master key, and the one that an outsider makes of it. -/
def sentSpork : CSporkMessage := ⟨[1], 10001, 1523532411, 1523532400⟩
def replayedSpork : CSporkMessage := ⟨[1], 10001, 152353241, 11523532400⟩

/-- The key has signed the text of the first. -/
def verifySpork (vchSig : List UInt8) (strMessage : String) : Bool :=
  vchSig == [1] && strMessage == sentSpork.strMessage

/-- **A signed spork is replayed with another value and time**: the text is the same, and
the message that was not signed becomes the active one. -/
theorem replayed_spork :
    sentSpork.content ≠ replayedSpork.content ∧ sentSpork.strMessage = replayedSpork.strMessage ∧
    (Sporks.run verifySpork {} [.spork sporkEnv sentSpork, .spork sporkEnv replayedSpork]).mapSporksActive 10001 =
      some replayedSpork := by
  decide

end Sample

end PayDayCoin
