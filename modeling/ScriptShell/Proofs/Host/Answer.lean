import ScriptShell.Proofs.Host.Reading
import ScriptShell.Proofs.Json.Trailing

/-!
The answers of a host that keeps to the frames: any output, then a newline and a frame on a line of
its own. Main statements: the last reply that an answer holds is its frame; it holds no other if,
and only if, the output is a text without the marker, and then the reply carries that text.
-/

namespace ScriptShell

open Text Connection

namespace Connection

theorem textOfPiece?_encodeUtf8 (cs : List Char) (closed : Bool) :
    textOfPiece? (encodeUtf8 cs, closed) = some (if closed then cs ++ ['\n'] else cs) := by
  rw [textOfPiece?, decodeUtf8?_encodeUtf8]
  rfl

/-- A text is read over unless one of its lines holds the marker. -/
theorem not_halts_pieces_iff {cs : List Char} :
    (∀ p ∈ pieces 10 (encodeUtf8 cs), halts p = false) ↔ ¬Frame.marker <:+: cs := by
  have hpiece {q : List Char × Bool} (hq : q ∈ pieces '\n' cs) :
      halts (encodeUtf8 q.1, q.2) = false ↔ ¬Frame.marker <:+: q.1 := by
    rw [halts_eq_false_iff, textOfPiece?_encodeUtf8]
    refine Iff.trans ⟨fun ⟨_, he, h⟩ => Option.some.inj he ▸ h, fun h => ⟨_, rfl, h⟩⟩ ?_
    split
    · rw [Frame.marker_infix_concat_iff]
    · rfl
  rw [pieces_encodeUtf8]
  constructor
  · intro h hm
    obtain ⟨q, hq, hpart⟩ := exists_piece_of_infix Frame.not_mem_marker (by decide) hm
    exact (hpiece hq).mp (h _ (List.mem_map_of_mem hq)) hpart
  · intro h p hp
    obtain ⟨q, hq, rfl⟩ := List.mem_map.mp hp
    exact (hpiece hq).mpr fun hpart => h (hpart.trans (infix_of_mem_pieces hq))

theorem dropSeparator_concat (cs : List Char) : dropSeparator (cs ++ ['\n']) = cs := by
  have hs : dropSuffix? ['\n'] (cs ++ ['\n']) = some cs := by
    rw [dropSuffix?, List.reverse_append]
    exact (congrArg (Option.map List.reverse) (dropPrefix?_append ['\n'] cs.reverse)).trans
      (congrArg some (List.reverse_reverse cs))
  rw [dropSeparator, hs, Option.getD_some]

/-- The text that is read over is the text that was written. -/
theorem flatMap_textOfPiece_pieces (cs : List Char) :
    (pieces 10 (encodeUtf8 cs)).flatMap textOfPiece = cs := by
  have hjoin (ps : List (List Char × Bool)) :
      (ps.map fun p => (encodeUtf8 p.1, p.2)).flatMap textOfPiece = joinPieces '\n' ps := by
    induction ps with
    | nil => rfl
    | cons p ps ih =>
      obtain ⟨text, closed⟩ := p
      rw [List.map_cons, List.flatMap_cons, ih, joinPieces, textOfPiece, textOfPiece?_encodeUtf8]
      cases closed with
      | true => rfl
      | false => rw [Option.getD_some]; simp only [Bool.false_eq_true, ↓reduceIte, List.append_nil]
  rw [pieces_encodeUtf8, hjoin, joinPieces_pieces]

/-- Pieces that are read over are the UTF-8 form of their texts. -/
theorem joinPieces_of_not_halts {ps : List (List UInt8 × Bool)}
    (h : ∀ p ∈ ps, halts p = false) : joinPieces 10 ps = encodeUtf8 (ps.flatMap textOfPiece) := by
  induction ps with
  | nil => rfl
  | cons p ps ih =>
    obtain ⟨hp, hps⟩ := List.forall_mem_cons.mp h
    obtain ⟨text, htext, -⟩ := halts_eq_false_iff.mp hp
    obtain ⟨bytes, closed⟩ := p
    rw [List.flatMap_cons, encodeUtf8_append, joinPieces, ih hps, textOfPiece, htext,
      Option.getD_some]
    obtain ⟨cs, hcs, rfl⟩ := Option.map_eq_some_iff.mp htext
    have hbytes : bytes = encodeUtf8 cs := decodeUtf8?_eq_some_iff.mp hcs
    rw [hbytes]
    cases closed with
    | true => rw [if_pos rfl, if_pos rfl, encodeUtf8_append]; rfl
    | false => simp only [Bool.false_eq_true, ↓reduceIte, List.append_nil]

end Connection

/-- The answer that a text spells. -/
def Response.spelled? (cs : List Char) : Option Response :=
  (Json.parse? (String.ofList cs)).bind Response.ofJson?

/-- Line endings behind an answer play no part in it. They are dropped from the front of the
reversed text, one after another. -/
theorem Response.spelled?_dropEndWhile {cs : List Char} {response : Response} (hn : '\n' ∉ cs)
    (h : spelled? cs = some response) :
    spelled? (dropEndWhile Frame.isLineEnd cs) = some response := by
  have key : ∀ rs : List Char, '\n' ∉ rs → spelled? rs.reverse = some response →
      spelled? (rs.dropWhile Frame.isLineEnd).reverse = some response := by
    intro rs
    induction rs with
    | nil => exact fun _ h => h
    | cons c rs ih =>
      intro hn h
      rw [List.mem_cons, not_or] at hn
      rw [List.dropWhile_cons]
      split
      · next hc =>
        have hcr : c = '\r' := by
          rw [Frame.isLineEnd, Bool.or_eq_true, beq_iff_eq, beq_iff_eq] at hc
          exact hc.resolve_right (Ne.symm hn.1)
        rw [hcr, List.reverse_cons] at h
        refine ih hn.2 ?_
        obtain ⟨v, hv, hr⟩ := Option.bind_eq_some_iff.mp h
        exact Option.bind_eq_some_iff.mpr ⟨v, Json.parse?_of_append_return hv, hr⟩
      · exact h
  refine key cs.reverse (fun hm => hn (List.mem_reverse.mp hm)) ?_
  rw [List.reverse_reverse]
  exact h

/-- What a host writes to one request: output, and the answer as a document on one line. -/
structure Answer where
  stray : List UInt8
  payload : List Char
  response : Response
  oneLine : '\n' ∉ payload
  decodes : Response.spelled? payload = some response

namespace Answer

/-- The line of the frame, without its newline. -/
def line (a : Answer) : List UInt8 := encodeUtf8 (Frame.marker ++ a.payload)

def bytes (a : Answer) : List UInt8 := a.stray ++ [10] ++ (a.line ++ [10])

/-- The replies that a reader can take from the answer. -/
def outcomes (a : Answer) : List Outcome := Connection.outcomes [] (pieces 10 a.bytes)

/-- The output is a text without the marker. -/
def HasText (a : Answer) (text : List Char) : Prop :=
  a.stray = encodeUtf8 text ∧ ¬Frame.marker <:+: text

theorem pieces_bytes (a : Answer) :
    pieces 10 a.bytes = pieces 10 (a.stray ++ [10]) ++ [(a.line, true)] := by
  have hline : (10 : UInt8) ∉ a.line := by
    rw [line, newline_mem_encodeUtf8_iff, List.mem_append, not_or]
    exact ⟨Frame.not_mem_marker, a.oneLine⟩
  rw [bytes, pieces_append (closed_concat a.stray), pieces_line hline]
  rfl

theorem closed_bytes (a : Answer) : Closed 10 a.bytes :=
  (closed_concat a.stray).append (closed_concat a.line)

theorem outcomeAt?_line (a : Answer) (stray : List Char) :
    outcomeAt? stray (a.line, true) =
      some (.ok (a.response, String.ofList (dropSeparator stray))) := by
  have hdrop : dropEndWhile Frame.isLineEnd (a.payload ++ ['\n']) =
      dropEndWhile Frame.isLineEnd a.payload := by
    rw [dropEndWhile, List.reverse_append]
    rfl
  have hend := Frame.dropEndWhile_marker [] (a.payload ++ ['\n'])
  rw [List.nil_append, hdrop] at hend
  have hread : Frame.decodeLine? (Frame.marker ++ (a.payload ++ ['\n'])) =
      some ([], some a.response) := by
    rw [Frame.decodeLine?, hend, Frame.cutAt?_append]
    exact congrArg (fun r => some ([], r)) (Response.spelled?_dropEndWhile a.oneLine a.decodes)
  rw [outcomeAt?, line, textOfPiece?_encodeUtf8, if_pos rfl, List.append_assoc]
  simp only
  rw [hread, Option.map_some, List.append_nil]

theorem halts_line (a : Answer) : halts (a.line, true) = true := by
  rw [halts, outcomeAt?_line]
  rfl

theorem settled_bytes (a : Answer) : Settled (pieces 10 a.bytes) := by
  rw [pieces_bytes]
  exact settled_concat a.halts_line _

/-- The last reply is the frame. -/
theorem getLast?_outcomes (a : Answer) :
    ∃ text, a.outcomes.getLast? = some (.ok (a.response, text)) := by
  obtain ⟨before, h⟩ := getLast?_outcomes_concat a.halts_line [] (pieces 10 (a.stray ++ [10]))
  rw [outcomes, pieces_bytes, h, outcomeAt?_line]
  exact ⟨_, rfl⟩

theorem HasText.stray_concat {a : Answer} {text : List Char} (h : a.HasText text) :
    a.stray ++ [10] = encodeUtf8 (text ++ ['\n']) := by
  rw [h.1, encodeUtf8_append]
  rfl

/-- The output is a text without the marker exactly when the reader stops nowhere in it. -/
theorem exists_hasText_iff (a : Answer) :
    (∃ text, a.HasText text) ↔ ∀ p ∈ pieces 10 (a.stray ++ [10]), halts p = false := by
  constructor
  · rintro ⟨text, htext⟩
    rw [htext.stray_concat, not_halts_pieces_iff, Frame.marker_infix_concat_iff]
    exact htext.2
  · intro h
    have hjoin := joinPieces_of_not_halts h
    rw [joinPieces_pieces] at hjoin
    generalize (pieces 10 (a.stray ++ [10])).flatMap textOfPiece = whole at hjoin
    rcases List.eq_nil_or_concat whole with rfl | ⟨text, c, rfl⟩
    · exact absurd hjoin (List.append_ne_nil_of_right_ne_nil _ nofun)
    · rw [List.concat_eq_append] at hjoin
      have hc : c = '\n' := by
        have hone : encodeUtf8 [c] = String.utf8EncodeChar c := List.append_nil _
        have hlast := congrArg List.getLast? hjoin
        rw [List.getLast?_concat, encodeUtf8_append, hone, List.getLast?_append,
          List.getLast?_eq_some_getLast String.utf8EncodeChar_ne_nil, Option.some_or] at hlast
        have hmem := List.getLast_mem (@String.utf8EncodeChar_ne_nil c)
        rw [← Option.some.inj hlast] at hmem
        exact newline_mem_utf8EncodeChar_iff.mp hmem
      rw [hc] at hjoin
      rw [hjoin, not_halts_pieces_iff, Frame.marker_infix_concat_iff] at h
      rw [encodeUtf8_append] at hjoin
      exact ⟨text, (List.append_inj' hjoin rfl).1, h⟩

theorem length_outcomes_eq_one_iff (a : Answer) :
    a.outcomes.length = 1 ↔ ∃ text, a.HasText text := by
  rw [exists_hasText_iff, outcomes, pieces_bytes, length_outcomes, List.countP_append,
    List.countP_singleton, if_pos a.halts_line, Nat.add_eq_right, List.countP_eq_zero]
  simp only [Bool.not_eq_true]

/-- Output that is a text without the marker is recovered. -/
theorem outcomes_of_hasText {a : Answer} {text : List Char} (h : a.HasText text) :
    a.outcomes = [.ok (a.response, String.ofList text)] := by
  have hquiet := a.exists_hasText_iff.mp ⟨text, h⟩
  rw [outcomes, pieces_bytes, outcomes_append_of_not_halts hquiet, h.stray_concat,
    flatMap_textOfPiece_pieces, Connection.outcomes, outcomeAt?_line, List.nil_append]
  simp only
  rw [dropSeparator_concat]
  rfl

/-- A read takes the whole answer when its output is a text without the marker. -/
theorem readFrame_of_hasText {a : Answer} {text : List Char} (h : a.HasText text) :
    readFrame [] (pieces 10 a.bytes) = (.ok (a.response, String.ofList text), []) := by
  have hquiet := a.exists_hasText_iff.mp ⟨text, h⟩
  rw [pieces_bytes, readFrame_append_of_not_halts hquiet, h.stray_concat,
    flatMap_textOfPiece_pieces, readFrame_cons, outcomeAt?_line, List.nil_append]
  simp only
  rw [dropSeparator_concat]

end Answer

end ScriptShell
