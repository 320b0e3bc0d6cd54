import ScriptShell.Proofs.Text.Lines
import ScriptShell.Session.Input

/-!
Reading lines from a stream of bytes. A read takes the bytes up to the next newline, decodes them and
drops the ending; reading until the end of input gives what the stream is cut into as a whole. For
the UTF-8 form of a text these are the lines of the text.
-/

namespace ScriptShell

open Text

namespace Text

/-- A newline at the end of the form of a text is the last character of the text. -/
theorem exists_of_encodeUtf8_eq_concat {bs : List UInt8} {cs : List Char}
    (h : encodeUtf8 cs = bs ++ [10]) : ∃ front, cs = front ++ ['\n'] ∧ encodeUtf8 front = bs := by
  rcases List.eq_nil_or_concat cs with rfl | ⟨front, c, rfl⟩
  · exact absurd h.symm (List.append_ne_nil_of_right_ne_nil bs (List.cons_ne_nil 10 []))
  · have hone : encodeUtf8 [c] = String.utf8EncodeChar c := List.append_nil _
    rw [List.concat_eq_append, encodeUtf8_append] at h
    obtain ⟨start, last, hform⟩ :=
      (List.eq_nil_or_concat _).resolve_left String.utf8EncodeChar_ne_nil
    rw [List.concat_eq_append] at hform
    have hlast : [last] = [10] := by
      rw [hone, hform, ← List.append_assoc] at h
      exact List.append_inj_right' h rfl
    have hmem : 10 ∈ String.utf8EncodeChar c := by
      rw [hform, hlast]
      exact List.mem_append_right start List.mem_cons_self
    have hc : c = '\n' := newline_mem_utf8EncodeChar_iff.mp hmem
    have hnewline : encodeUtf8 ['\n'] = [10] := by decide
    rw [hc, hnewline] at h
    exact ⟨front, by rw [List.concat_eq_append, hc], List.append_cancel_right h⟩

/-- A newline behind bytes is a newline behind the text that they are the form of. -/
theorem decodeUtf8?_concat_newline (bs : List UInt8) :
    decodeUtf8? (bs ++ [10]) = (decodeUtf8? bs).map (· ++ ['\n']) := by
  have hnewline : encodeUtf8 ['\n'] = [10] := by decide
  apply Option.ext
  intro cs
  rw [Option.map_eq_some_iff]
  simp only [decodeUtf8?_eq_some_iff]
  constructor
  · intro h
    obtain ⟨front, hcs, hfront⟩ := exists_of_encodeUtf8_eq_concat h.symm
    exact ⟨front, hfront.symm, hcs.symm⟩
  · rintro ⟨front, rfl, rfl⟩
    rw [encodeUtf8_append, hnewline]

end Text

namespace LineSource

/-- The bytes up to the first newline and with it, and the bytes behind. -/
def takeLine (bytes : List UInt8) : List UInt8 × List UInt8 :=
  match bytes.dropWhile (· != 10) with
  | [] => (bytes, [])
  | newline :: rest => (bytes.takeWhile (· != 10) ++ [newline], rest)

/-- A line without the newline at its end and the carriage return before that. -/
def withoutEnding (line : List Char) : List Char :=
  match dropSuffix? ['\n'] line with
  | some line => (dropSuffix? ['\r'] line).getD line
  | none => line

/-- What the bytes of a line are read as. -/
def eventOfLine (line : List UInt8) : ReadEvent :=
  match decodeUtf8? line with
  | some cs => .line (String.ofList (withoutEnding cs))
  | none => .failed .invalidEncoding

/-- One read of a stream, and the bytes that it leaves; `none` at the end of input. -/
def read? (bytes : List UInt8) : Option (ReadEvent × List UInt8) :=
  if bytes = [] then none
  else some (eventOfLine (takeLine bytes).1, (takeLine bytes).2)

/-- What reading a stream until the end of input gives, read by read. -/
inductive ReadsTo : List UInt8 → List ReadEvent → Prop
  | done {bytes : List UInt8} (h : read? bytes = none) : ReadsTo bytes []
  | more {bytes rest : List UInt8} {event : ReadEvent} {events : List ReadEvent}
      (h : read? bytes = some (event, rest)) (later : ReadsTo rest events) :
      ReadsTo bytes (event :: events)

theorem withoutEnding_of_not_mem {line : List Char} (h : '\n' ∉ line) :
    withoutEnding line = line := by
  have hnone : dropSuffix? ['\n'] line = none := by
    rw [dropSuffix?_eq_none_iff]
    intro hend
    exact h (hend.subset List.mem_cons_self)
  rw [withoutEnding, hnone]

theorem withoutEnding_concat (line : List Char) :
    withoutEnding (line ++ ['\n']) = dropReturn line := by
  rw [withoutEnding, dropSuffix?_append]
  rfl

theorem takeLine_of_not_mem {bytes : List UInt8} (h : 10 ∉ bytes) :
    takeLine bytes = (bytes, []) := by
  have hall : ∀ b ∈ bytes, (b != 10) = true := fun b hb => bne_iff_ne.mpr fun he => h (he ▸ hb)
  rw [takeLine, List.dropWhile_eq_nil_iff.mpr hall]

theorem takeLine_append {line : List UInt8} (h : 10 ∉ line) (rest : List UInt8) :
    takeLine (line ++ 10 :: rest) = (line ++ [10], rest) := by
  have hall : ∀ b ∈ line, (b != 10) = true := fun b hb => bne_iff_ne.mpr fun he => h (he ▸ hb)
  rw [takeLine, List.dropWhile_append_of_pos hall, List.takeWhile_append_of_pos hall,
    List.dropWhile_cons_of_neg (by decide), List.takeWhile_cons_of_neg (by decide),
    List.append_nil]

theorem eventOfLine_concat (line : List UInt8) :
    eventOfLine (line ++ [10]) = eventOfPiece (line, true) := by
  rw [eventOfLine, eventOfPiece, decodeUtf8?_concat_newline]
  cases decodeUtf8? line with
  | none => rfl
  | some cs =>
    simp only [Option.map_some, withoutEnding_concat]
    rfl

theorem eventOfLine_of_not_mem {line : List UInt8} (h : 10 ∉ line) :
    eventOfLine line = eventOfPiece (line, false) := by
  rw [eventOfLine, eventOfPiece]
  cases hd : decodeUtf8? line with
  | none => rfl
  | some cs =>
    have hcs : '\n' ∉ cs := by
      rw [← newline_mem_encodeUtf8_iff, ← decodeUtf8?_eq_some_iff.mp hd]
      exact h
    simp only [withoutEnding_of_not_mem hcs]
    rfl

theorem read?_eq_none_iff {bytes : List UInt8} : read? bytes = none ↔ bytes = [] := by
  rw [read?]
  split
  · next h => exact iff_of_true rfl h
  · next h => exact iff_of_false nofun h

/-- A read is the first of the reads that the stream gives as a whole, and it leaves the others. -/
theorem eventsOfBytes_of_read? {bytes rest : List UInt8} {event : ReadEvent}
    (h : read? bytes = some (event, rest)) :
    eventsOfBytes bytes = event :: eventsOfBytes rest := by
  have hne : bytes ≠ [] := fun hnil => absurd (h.symm.trans (read?_eq_none_iff.mpr hnil)) nofun
  rw [read?, if_neg hne] at h
  by_cases hm : 10 ∈ bytes
  · obtain ⟨line, after, rfl, hline⟩ := List.eq_append_cons_of_mem hm
    rw [takeLine_append hline, eventOfLine_concat] at h
    obtain ⟨rfl, rfl⟩ := Prod.mk.inj (Option.some.inj h)
    rw [eventsOfBytes, pieces_line hline]
    rfl
  · have hpieces := pieces_append_of_not_mem hm hne []
    rw [List.append_nil] at hpieces
    rw [takeLine_of_not_mem hm, eventOfLine_of_not_mem hm] at h
    obtain ⟨rfl, rfl⟩ := Prod.mk.inj (Option.some.inj h)
    rw [eventsOfBytes, hpieces]
    rfl

/-- Reading until the end of input gives the reads of the whole stream. Each read leaves fewer reads
to come. -/
theorem readsTo_iff {bytes : List UInt8} {events : List ReadEvent} :
    ReadsTo bytes events ↔ events = eventsOfBytes bytes := by
  constructor
  · intro h
    induction h with
    | done h =>
      rw [read?_eq_none_iff.mp h]
      rfl
    | more h _ ih => rw [eventsOfBytes_of_read? h, ih]
  · intro h
    rw [h]
    induction hlen : (eventsOfBytes bytes).length generalizing bytes events with
    | zero =>
      cases hr : read? bytes with
      | none =>
        rw [List.length_eq_zero_iff.mp hlen]
        exact .done hr
      | some read =>
        rw [eventsOfBytes_of_read? hr] at hlen
        exact absurd hlen nofun
    | succ n ih =>
      cases hr : read? bytes with
      | none =>
        rw [read?_eq_none_iff.mp hr] at hlen
        exact absurd hlen nofun
      | some read =>
        rw [eventsOfBytes_of_read? hr] at hlen ⊢
        exact .more hr (ih rfl (Nat.succ.inj hlen))

/-- A text is read line by line. -/
theorem eventsOfBytes_encodeUtf8 (text : String) :
    eventsOfBytes (encodeUtf8 text.toList) = (lines text).map .line := by
  unfold eventsOfBytes lines Text.lines
  rw [pieces_encodeUtf8, List.map_map, List.map_map, List.map_map]
  apply List.map_congr_left
  intro p _
  rw [Function.comp_apply, eventOfPiece, decodeUtf8?_encodeUtf8]
  rfl

end LineSource

end ScriptShell
