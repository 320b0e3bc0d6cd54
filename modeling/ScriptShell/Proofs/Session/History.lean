import ScriptShell.Proofs.Session.Course
import ScriptShell.Proofs.Session.Input

/-!
What a run remembers of the lines that it reads. A history of limited length is a queue that loses
its oldest line for each new one once it is full, so it always holds the last of the lines added. A
run adds every line that it reads and that is not blank, before it treats the line; the line that
ends the session is among them.
-/

namespace ScriptShell

open Text

/-! ## The last items -/

/-- The last items of a list, up to a number of them. -/
structure IsTail {α : Type} (limit : Nat) (all kept : List α) : Prop where
  isSuffix : kept <:+ all
  length_eq : kept.length = min all.length limit

namespace History

/-- A full history loses its oldest line for a new one; another one just grows. -/
theorem lines_add {h : History} {limit : Nat} (hk : h.kept = .last limit) (hpos : 0 < limit)
    (hle : h.lines.length ≤ limit) (line : String) :
    (h.add line).kept = .last limit ∧ (h.add line).lines =
      (if h.lines.length = limit then h.lines.tail else h.lines) ++ [line] := by
  have hadd : h.add line = { h with lines := lastOf limit (h.lines ++ [line]) } := by
    rw [add, hk]
  rw [hadd, lastOf, List.length_append, List.length_singleton]
  refine ⟨hk, ?_⟩
  by_cases hfull : h.lines.length = limit
  · have hone : h.lines.length + 1 - limit = 1 := by omega
    have hlong : 1 ≤ h.lines.length := by omega
    rw [if_pos hfull, hone, List.drop_append_of_le_length hlong, List.drop_one]
  · have hzero : h.lines.length + 1 - limit = 0 := by omega
    rw [if_neg hfull, hzero, List.drop_zero]

/-- A history of limited length that was empty before these lines were added. -/
structure Holds (h : History) (limit : Nat) (added : List String) : Prop where
  kept : h.kept = .last limit
  isTail : IsTail limit added h.lines

theorem Holds.add {h : History} {limit : Nat} {added : List String} (hh : h.Holds limit added)
    (hpos : 0 < limit) (line : String) : (h.add line).Holds limit (added ++ [line]) := by
  obtain ⟨hk, hsuffix, hlength⟩ := hh
  have hle : h.lines.length ≤ limit := by omega
  obtain ⟨hkept, hlines⟩ := lines_add hk hpos hle line
  have hconcat {kept : List String} (hs : kept <:+ added) : kept ++ [line] <:+ added ++ [line] := by
    obtain ⟨front, hfront⟩ := hs
    exact ⟨front, by rw [← List.append_assoc, hfront]⟩
  refine ⟨hkept, ?_, ?_⟩
  · rw [hlines]
    split
    · exact hconcat ((List.tail_suffix h.lines).trans hsuffix)
    · exact hconcat hsuffix
  · rw [hlines, List.length_append, List.length_append, List.length_singleton]
    split
    · rw [List.length_tail]
      omega
    · omega

/-- A run remembers what is not blank. -/
def remember (h : History) (line : String) : History := if isBlank line then h else h.add line

theorem Holds.foldl_remember {h : History} {limit : Nat} {added : List String}
    (hh : h.Holds limit added) (hpos : 0 < limit) (texts : List String) :
    (texts.foldl History.remember h).Holds limit
      (added ++ texts.filter fun line => !isBlank line) := by
  induction texts generalizing h added with
  | nil => rwa [List.filter_nil, List.append_nil]
  | cons line texts ih =>
    rw [List.foldl_cons, List.filter_cons]
    unfold History.remember
    cases hb : isBlank line with
    | true => exact ih hh
    | false =>
      have hmore := ih (hh.add hpos line)
      rw [List.append_assoc] at hmore
      exact hmore

end History

namespace Session

variable {ε : Type} [Evaluator ε]

theorem performAll_submit_cons {s t : Session ε} {line : String}
    {result : Except TerminalError Unit} (h : s.submit line = (result, t)) (texts : List String) :
    s.performAll ((line :: texts).map .submit) = t.performAll (texts.map .submit) := by
  have ht : s.perform (.submit line) = t := congrArg Prod.snd h
  rw [List.map_cons, performAll, List.foldl_cons, ht]
  rfl

/-- What a run over lines comes to with some number of reads, which the prompts tell. It remembers
the lines that it has read, and it is not over before any of these reads. Its session is the one
that these lines make, one after another, unless one read more finds the end of input. -/
structure HasRead (s : Session ε) (history : History) (prompts texts : List String) (reads : Nat)
    (r : Except TerminalError Unit × Session ε × LineSource) : Prop where
  length_prompts : r.2.2.prompts.length = prompts.length + reads
  reads_le : reads ≤ texts.length + 1
  upcoming : r.2.2.upcoming = (texts.drop reads).map .line
  history : r.2.2.history = (texts.take reads).foldl History.remember history
  running : ∀ earlier, earlier <+: texts → earlier.length < reads →
    (s.performAll (earlier.map .submit)).phase ≠ .terminated
  session : reads ≤ texts.length → r.2.1 = s.performAll ((texts.take reads).map .submit)
  ended : r.1 = .ok () → r.2.1.phase = .terminated

namespace HasRead

variable {s t : Session ε} {text : String} {texts : List String}
  {result : Except TerminalError Unit}

theorem stopped (hend : result = .ok () → s.phase = .terminated) (history : History)
    (prompts texts : List String) :
    HasRead s history prompts texts 0 (result, s, ⟨texts.map .line, history, prompts⟩) where
  length_prompts := rfl
  reads_le := Nat.zero_le _
  upcoming := rfl
  history := rfl
  running _ _ hlt := absurd hlt (Nat.not_lt_zero _)
  session _ := rfl
  ended := hend

/-- The end of input is read, whether or not that can be shown. -/
theorem inputEnd (hp : s.phase ≠ .terminated) (hend : result = .ok () → t.phase = .terminated)
    (history : History) (prompts : List String) :
    HasRead s history prompts [] 1 (result, t, ⟨[], history, prompts ++ [s.prompt]⟩) where
  length_prompts := List.length_append
  reads_le := Nat.le_refl 1
  upcoming := rfl
  history := rfl
  running earlier hpre _ := by
    rw [List.prefix_nil.mp hpre]
    exact hp
  session hle := absurd hle (Nat.not_succ_le_zero 0)
  ended := hend

/-- A line is remembered, and what is read behind it, whatever comes of the line. -/
theorem line (hp : s.phase ≠ .terminated) (hs : s.submit text = (result, t)) {history : History}
    {prompts : List String} {reads : Nat} {r : Except TerminalError Unit × Session ε × LineSource}
    (h : HasRead t (history.remember text) (prompts ++ [s.prompt]) texts reads r) :
    HasRead s history prompts (text :: texts) (reads + 1) r where
  length_prompts := by
    have hmore := h.length_prompts
    rw [List.length_append, List.length_singleton] at hmore
    omega
  reads_le := Nat.succ_le_succ h.reads_le
  upcoming := h.upcoming
  history := h.history
  running earlier hpre hlt := by
    cases earlier with
    | nil => exact hp
    | cons first earlier =>
      obtain ⟨rfl, htail⟩ := List.cons_prefix_cons.mp hpre
      rw [performAll_submit_cons hs]
      exact h.running earlier htail (Nat.lt_of_succ_lt_succ hlt)
  session hle := by
    rw [List.take_succ_cons, performAll_submit_cons hs]
    exact h.session (Nat.le_of_succ_le_succ hle)
  ended := h.ended

end HasRead

theorem exists_hasRead_runEvents (s : Session ε) (history : History) (prompts texts : List String) :
    ∃ reads, HasRead s history prompts texts reads
      (s.runEvents history prompts (texts.map .line)) := by
  induction texts generalizing s history prompts with
  | nil =>
    by_cases hp : s.phase = .terminated
    · rw [runEvents_of_terminated hp]
      exact ⟨0, .stopped (fun _ => hp) history prompts []⟩
    · rw [List.map_nil, runEvents, if_neg hp]
      rcases hw : s.write "\n" with ⟨result, t⟩
      cases result with
      | ok _ => exact ⟨1, .inputEnd hp (fun _ => rfl) history prompts⟩
      | error e => exact ⟨1, .inputEnd hp (fun hok => absurd hok (by simp)) history prompts⟩
  | cons text texts ih =>
    by_cases hp : s.phase = .terminated
    · rw [runEvents_of_terminated hp]
      exact ⟨0, .stopped (fun _ => hp) history prompts (text :: texts)⟩
    rw [List.map_cons]
    rcases hs : s.submit text with ⟨result, t⟩
    cases result with
    | error e =>
      rw [runEvents_line_error hp hs]
      exact ⟨1, .line hp hs (.stopped (fun hok => absurd hok (by simp)) _ _ texts)⟩
    | ok _ =>
      rw [runEvents_line hp hs]
      obtain ⟨reads, hmore⟩ := ih t (history.remember text) (prompts ++ [s.prompt])
      exact ⟨reads + 1, .line hp hs hmore⟩

/-- Take the UTF-8 form of any text as input. Reading it until its end, read by read, gives the
lines of the text, which its line endings tell and which a script of this text has too. However a
run over it ends, the history is the last thousand of the lines that are not blank among those read,
oldest first; the reads are counted by the prompts they were given, one more than there are lines
finds the end of input, and what was not read is still to come. No line before the last one read has
ended the session, and unless the run came to the end of input, its session is the one that the
lines read have made, the last one included. Where everything can be shown the run succeeds, and a
run that succeeds has ended the session. -/
theorem piped_lines_remembered (s : Session ε) (text : String) :
    let texts := lines text
    let source := LineSource.ofBytes (encodeUtf8 text.toList)
    let r := s.run source
    let reads := r.2.2.prompts.length
    (∀ cut, AreLines text.toList cut ↔ cut = texts.map String.toList) ∧
    (∀ events, LineSource.ReadsTo (encodeUtf8 text.toList) events ↔ events = texts.map .line) ∧
    source.upcoming = texts.map .line ∧
    (∀ script, Preload.stripDelimiters script.toList = text.toList →
      Preload.scriptLines script = texts) ∧
    reads ≤ texts.length + 1 ∧ r.2.2.upcoming = (texts.drop reads).map .line ∧
    IsTail 1000 ((texts.take reads).filter fun line => !isBlank line) r.2.2.history.lines ∧
    (∀ earlier, earlier <+: texts → earlier.length < reads →
      (s.performAll (earlier.map .submit)).phase ≠ .terminated) ∧
    (reads ≤ texts.length → r.2.1 = s.performAll ((texts.take reads).map .submit)) ∧
    (r.1 = .ok () → r.2.1.phase = .terminated) ∧
    (s.console.closed = false → r.1 = .ok ()) := by
  intro texts source r reads
  have hevents := LineSource.eventsOfBytes_encodeUtf8 text
  have htexts : texts.map String.toList = Text.lines text.toList := by
    change ((Text.lines text.toList).map String.ofList).map String.toList = _
    rw [List.map_map]
    exact List.map_id'' (fun _ => String.toList_ofList) _
  have hrun : r = s.runEvents source.history source.prompts (texts.map .line) := by
    rw [← hevents]
    rfl
  obtain ⟨count, hread⟩ := exists_hasRead_runEvents s source.history source.prompts texts
  rw [← hrun] at hread
  obtain rfl : reads = count := hread.length_prompts.trans (Nat.zero_add count)
  refine ⟨fun cut => ?_, fun events => ?_, hevents, fun script hscript => ?_, hread.reads_le,
    hread.upcoming, ?_, hread.running, hread.session, hread.ended, fun hopen => ?_⟩
  · rw [areLines_iff, htexts]
  · rw [LineSource.readsTo_iff, hevents]
  · unfold Preload.scriptLines
    rw [hscript]
    rfl
  · have hnew : source.history.Holds 1000 [] := ⟨rfl, List.suffix_refl [], rfl⟩
    have hholds := hnew.foldl_remember (by decide) (texts.take reads)
    rw [← hread.history, List.nil_append] at hholds
    exact hholds.isTail
  · have hlines : ∀ cause, .failed cause ∉ texts.map ReadEvent.line := by
      intro cause hm
      obtain ⟨line, -, hline⟩ := List.mem_map.mp hm
      exact ReadEvent.noConfusion hline
    rw [hrun]
    exact runEvents_of_open hopen _ _ hlines

end Session

end ScriptShell
