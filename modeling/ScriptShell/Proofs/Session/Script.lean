import ScriptShell.Proofs.Session.Recovery
import ScriptShell.Proofs.Statement.Closure
import ScriptShell.Proofs.Text.Lines

/-!
A preload is the run of a script's units, and a script is no more than its units. White space around
a script changes none of them, though it makes other lines of it, so neither do the tags of a script
with nothing but line ends between them and the text.
-/

namespace ScriptShell

open Text

namespace Balance

/-- White space opens and closes nothing. -/
theorem of_white {cs : List Char} (h : IsWhite cs) : of cs = 0 := by
  have hcount {c : Char} (hc : isSpace c = false) : cs.count c = 0 :=
    List.count_eq_zero.mpr fun hm => Bool.false_ne_true (hc.symm.trans (h c hm))
  rw [of_eq_counts, hcount (by decide), hcount (by decide), hcount (by decide), hcount (by decide),
    hcount (by decide), hcount (by decide)]
  rfl

end Balance

namespace Preload

/-- The units of a script's text. -/
def textUnits (cs : List Char) : List String := unitsFrom [] ((Text.lines cs).map String.ofList)

/-! ## White space before a script -/

variable {white : String} {pending core : List String}

theorem trim_gathered_of_white (hw : IsWhite white.toList)
    (h : gathered pending = white ++ gathered core) :
    trim (gathered pending) = trim (gathered core) := by
  rw [h, trim, String.toList_append, trim_white_append hw, trim]

/-- White space opens and closes nothing. -/
theorem closes_of_white (hw : IsWhite white.toList)
    (h : gathered pending = white ++ gathered core) :
    Closing.bracketsOnly.closes pending = Closing.bracketsOnly.closes core := by
  unfold Closing.closes Closing.closed
  rw [h, String.toList_append, Balance.of_append, Balance.of_white hw, Balance.zero_add]

theorem unitsFrom_cons_of_white (hw : IsWhite white.toList) {line line' : String}
    (h : gathered (pending ++ [line]) = white ++ gathered (core ++ [line'])) {rest : List String}
    (hrest : unitsFrom (pending ++ [line]) rest = unitsFrom (core ++ [line']) rest) :
    unitsFrom pending (line :: rest) = unitsFrom core (line' :: rest) := by
  have hcloses := closes_of_white hw h
  cases hc : Closing.bracketsOnly.closes (core ++ [line']) with
  | false => rw [unitsFrom_of_open hc, unitsFrom_of_open (hcloses.trans hc), hrest]
  | true =>
    rw [unitsFrom_of_closed hc, unitsFrom_of_closed (hcloses.trans hc), trim_gathered_of_white hw h]

/-- White space before what is pending stays before all that is gathered with it. -/
theorem unitsFrom_of_white (hw : IsWhite white.toList)
    (h : gathered pending = white ++ gathered core) (texts : List String) :
    unitsFrom pending texts = unitsFrom core texts := by
  induction texts generalizing pending core with
  | nil => rw [unitsFrom_nil, unitsFrom_nil, trim_gathered_of_white hw h]
  | cons line rest ih =>
    have hnext : gathered (pending ++ [line]) = white ++ gathered (core ++ [line]) := by
      rw [gathered_snoc, gathered_snoc, h]
      simp only [String.append_assoc]
    exact unitsFrom_cons_of_white hw hnext (ih hnext)

theorem unitsFrom_white_line (hw : IsWhite white.toList) (line : String) (rest : List String) :
    unitsFrom [] ((white ++ line) :: rest) = unitsFrom [] (line :: rest) := by
  have hfirst : gathered ([] ++ [white ++ line]) = white ++ gathered ([] ++ [line]) := by
    rw [gathered_snoc, gathered_snoc]
    simp only [gathered, List.foldl_nil, String.empty_append, String.append_assoc]
  exact unitsFrom_cons_of_white hw hfirst (unitsFrom_of_white hw hfirst rest)

theorem unitsFrom_blank {blank : List Char} (h : IsWhite blank) (rest : List String) :
    unitsFrom [] (String.ofList blank :: rest) = unitsFrom [] rest := by
  have hcs : (gathered [String.ofList blank]).toList = blank ++ ['\n'] := by
    rw [gathered_cons, String.toList_append, String.toList_append, String.toList_ofList]
    exact List.append_nil _
  have hwhite : IsWhite (gathered [String.ofList blank]).toList :=
    hcs ▸ h.append (by decide)
  have hclosed : Closing.bracketsOnly.closes ([] ++ [String.ofList blank]) = true := by
    unfold Closing.closes Closing.closed
    rw [List.nil_append, Balance.of_white hwhite]
    rfl
  have htrim : trim (gathered ([] ++ [String.ofList blank])) = "" := by
    rw [List.nil_append, trim, trim_eq_nil_of_spaces hwhite]
  rw [unitsFrom_of_closed hclosed, if_pos htrim, List.nil_append]

/-- White space in front of a text makes a blank line or starts its first line. -/
theorem lines_space_cons {c : Char} (hc : isSpace c = true) (cs : List Char) :
    (∃ line rest, Text.lines cs = line :: rest ∧ Text.lines (c :: cs) = (c :: line) :: rest) ∨
    ∃ blank rest, IsWhite blank ∧ Text.lines (c :: cs) = blank :: rest ∧
      (Text.lines cs = rest ∨ Text.lines cs = [] :: rest) := by
  have hone := isWhite_singleton hc
  by_cases hn : c = '\n'
  · rw [hn]
    refine Or.inr ⟨[], Text.lines cs, List.forall_mem_nil _, ?_, Or.inl rfl⟩
    exact lines_append_newline List.not_mem_nil cs
  · unfold Text.lines
    rw [pieces_cons_of_ne hn]
    cases pieces '\n' cs with
    | nil => exact Or.inr ⟨[c], [], hone, rfl, Or.inl rfl⟩
    | cons piece ps =>
      obtain ⟨p, closed⟩ := piece
      cases closed with
      | false => exact Or.inl ⟨p, ps.map lineOfPiece, rfl, rfl⟩
      | true =>
        by_cases hp : p = []
        · refine Or.inr ⟨dropReturn [c], ps.map lineOfPiece, fun d hd => ?_, ?_, ?_⟩
          · obtain ⟨ending, hcut, -⟩ := eq_dropReturn_append [c]
            exact hone d (hcut ▸ List.mem_append_left ending hd)
          · rw [hp]
            rfl
          · rw [hp]
            exact Or.inr rfl
        · exact Or.inl ⟨dropReturn p, ps.map lineOfPiece, rfl,
            congrArg (· :: ps.map lineOfPiece) (dropReturn_cons hp c)⟩

theorem textUnits_space_cons {c : Char} (hc : isSpace c = true) (cs : List Char) :
    textUnits (c :: cs) = textUnits cs := by
  unfold textUnits
  rcases lines_space_cons hc cs with ⟨line, rest, hcs, hmore⟩ | ⟨blank, rest, hblank, hmore, hcs⟩
  · have hone : IsWhite (String.ofList [c]).toList := by
      rw [String.toList_ofList]
      exact isWhite_singleton hc
    have hline : String.ofList (c :: line) = String.ofList [c] ++ String.ofList line := by
      rw [← String.ofList_append, List.singleton_append]
    rw [hcs, hmore, List.map_cons, List.map_cons, hline, unitsFrom_white_line hone]
  · rw [hmore, List.map_cons, unitsFrom_blank hblank]
    rcases hcs with hcs | hcs
    · rw [hcs]
    · rw [hcs, List.map_cons, unitsFrom_blank (List.forall_mem_nil _)]

/-- White space before a script makes no difference to its units. -/
theorem textUnits_white_append {before : List Char} (h : IsWhite before) (cs : List Char) :
    textUnits (before ++ cs) = textUnits cs := by
  induction before with
  | nil => rfl
  | cons c before ih =>
    obtain ⟨hc, hbefore⟩ := List.forall_mem_cons.mp h
    rw [List.cons_append, textUnits_space_cons hc, ih hbefore]

/-! ## White space behind a script -/

/-- Whether the last line closes what is pending or leaves it open, it ends the last unit. -/
theorem unitsFrom_singleton (pending : List String) (line : String) :
    unitsFrom pending [line] = [trim (gathered pending ++ line)].filter (· ≠ "") := by
  have htrim : trim (gathered (pending ++ [line])) = trim (gathered pending ++ line) := by
    rw [gathered_snoc, trim, String.toList_append, trim_append_white (by decide), trim]
  rw [filter_singleton, ← htrim]
  cases hc : Closing.bracketsOnly.closes (pending ++ [line]) with
  | false => rw [unitsFrom_of_open hc, unitsFrom_nil]
  | true => rw [unitsFrom_of_closed hc]; exact List.append_nil _

/-- What the last lines make of every text that is pending decides what they make behind others. -/
theorem unitsFrom_append_congr {last last' : List String}
    (h : ∀ pending, unitsFrom pending last = unitsFrom pending last')
    (pending texts : List String) :
    unitsFrom pending (texts ++ last) = unitsFrom pending (texts ++ last') := by
  induction texts generalizing pending with
  | nil => exact h pending
  | cons line texts ih =>
    rw [List.cons_append, List.cons_append]
    cases hc : Closing.bracketsOnly.closes (pending ++ [line]) with
    | false => rw [unitsFrom_of_open hc, unitsFrom_of_open hc, ih]
    | true => rw [unitsFrom_of_closed hc, unitsFrom_of_closed hc, ih]

/-- A text without newlines ends the last unit. -/
theorem unitsFrom_lines {cs : List Char} (hn : '\n' ∉ cs) (pending : List String) :
    unitsFrom pending ((Text.lines cs).map String.ofList) =
      [trim (gathered pending ++ String.ofList cs)].filter (· ≠ "") := by
  by_cases hne : cs = []
  · rw [hne]
    exact congrArg (fun text => [trim text].filter (· ≠ "")) String.append_empty.symm
  · rw [lines_of_not_mem hn hne]
    exact unitsFrom_singleton pending (String.ofList cs)

/-- White space at the end makes no difference to the units, also a carriage return that is taken as
part of a line ending. -/
theorem textUnits_concat_space {c : Char} (hc : isSpace c = true) (cs : List Char) :
    textUnits (cs ++ [c]) = textUnits cs := by
  have htrim (text : String) {line after : List Char} (ha : IsWhite after) :
      trim (text ++ String.ofList (line ++ after)) = trim (text ++ String.ofList line) := by
    rw [String.ofList_append, ← String.append_assoc, trim, String.toList_append,
      String.toList_ofList, trim_append_white ha, trim]
  obtain ⟨front, back, rfl, hfront, hback⟩ := exists_last_line cs
  unfold textUnits
  rw [List.append_assoc, lines_append hfront, lines_append hfront, List.map_append,
    List.map_append]
  refine unitsFrom_append_congr (fun pending => ?_) [] _
  rw [unitsFrom_lines hback]
  by_cases hn : c = '\n'
  · obtain ⟨ending, hcut, hend⟩ := eq_dropReturn_append back
    have hwhite : IsWhite ending := by
      rcases hend with rfl | rfl
      · decide
      · decide
    rw [hn, lines_append_newline hback]
    refine (unitsFrom_singleton pending _).trans ?_
    rw [← htrim (gathered pending) hwhite, ← hcut]
  · have hlonger : '\n' ∉ back ++ [c] := fun hm =>
      (List.mem_append.mp hm).elim hback fun h => hn (List.mem_singleton.mp h).symm
    rw [unitsFrom_lines hlonger, htrim _ (isWhite_singleton hc)]

/-- Nor does white space behind it. -/
theorem textUnits_append_white {after : List Char} (h : IsWhite after) (cs : List Char) :
    textUnits (cs ++ after) = textUnits cs := by
  induction after generalizing cs with
  | nil => rw [List.append_nil]
  | cons c after ih =>
    obtain ⟨hc, hafter⟩ := List.forall_mem_cons.mp h
    rw [List.append_cons, ih hafter, textUnits_concat_space hc]

theorem textUnits_trim (cs : List Char) : textUnits (Text.trim cs) = textUnits cs := by
  obtain ⟨before, after, hcs, hbefore, hafter⟩ := exists_eq_append_trim cs
  have hunits := textUnits_white_append hbefore (Text.trim cs ++ after)
  rw [← hcs, textUnits_append_white hafter] at hunits
  exact hunits.symm

/-! ## A script as its units -/

variable {ε : Type} [Evaluator ε]

/-- Treat units one after another up to the end of the session. -/
def runUnits (s : Session ε) (r : PreloadReport) :
    List String → Except TerminalError PreloadReport × Session ε
  | [] => (.ok r, s)
  | unit :: rest =>
    match dispatch s r unit with
    | (.ok r, s) => if s.phase = .terminated then (.ok r, s) else runUnits s r rest
    | failed => failed

/-- Lines are treated as the units that they form, the one left open at the end included. After the
last unit it makes no difference whether the session has ended. -/
theorem runLines_eq_runUnits (s : Session ε) (r : PreloadReport) (pending texts : List String) :
    runLines s (.holding .bracketsOnly pending) r texts =
      runUnits s r (unitsFrom pending texts) := by
  induction texts generalizing s r pending with
  | nil =>
    rw [runLines_nil, StatementBuffer.takeRemainder_holding, unitsFrom_nil]
    split
    · rfl
    · rw [Option.elim_some, runUnits]
      split
      · next h => rw [h, runUnits, ite_self]
      · rfl
  | cons line rest ih =>
    cases hc : Closing.bracketsOnly.closes (pending ++ [line]) with
    | false =>
      rw [runLines_of_incomplete (StatementBuffer.feed_holding_of_open hc), unitsFrom_of_open hc, ih]
    | true =>
      have hfeed := StatementBuffer.feed_holding_of_closed hc
      rw [unitsFrom_of_closed hc]
      generalize trim (gathered (pending ++ [line])) = unit at hfeed ⊢
      by_cases hu : unit = ""
      · rw [if_pos hu] at hfeed ⊢
        rw [runLines_of_blank hfeed, ih, List.nil_append]
      · rw [if_neg hu] at hfeed ⊢
        rw [runLines_of_complete hfeed, List.singleton_append, runUnits]
        rcases dispatch s r unit with ⟨result, t⟩
        cases result with
        | ok q => rw [afterUnit_ok, ih]
        | error e => rfl

/-- To run a script is to run its units. -/
theorem runSource_eq_runUnits (s : Session ε) (source : String) :
    runSource s source = runUnits s {} (units source) :=
  runLines_eq_runUnits s {} [] (scriptLines source)

/-! ## Tags -/

theorem stripDelimiters_of_untagged {cs : List Char} (hopen : ¬"<?".toList <+: Text.trim cs)
    (hclose : ¬"?>".toList <:+ Text.trim cs) : stripDelimiters cs = Text.trim cs := by
  have hlong : ¬"<?php".toList <+: Text.trim cs := fun h =>
    hopen (List.IsPrefix.trans (by decide) h)
  unfold stripDelimiters
  dsimp only
  rw [dropPrefix?_eq_none_iff.mpr hlong, dropPrefix?_eq_none_iff.mpr hopen]
  change (dropSuffix? "?>".toList (Text.trim cs)).getD (Text.trim cs) = Text.trim cs
  rw [dropSuffix?_eq_none_iff.mpr hclose, Option.getD_none]

/-- Tags on lines of their own leave the ends of these lines. -/
theorem stripDelimiters_tagged (cs : List Char) :
    stripDelimiters ("<?php\n".toList ++ (cs ++ "\n?>\n".toList)) = '\n' :: (cs ++ ['\n']) := by
  let core := "<?php".toList ++ (('\n' :: (cs ++ ['\n'])) ++ "?>".toList)
  have hcore : core = ("<?php".toList ++ ('\n' :: (cs ++ ['\n', '?']))) ++ ['>'] := by
    simp [core]
  have hlast : core.getLast?.any isSpace = false := by
    rw [hcore, List.getLast?_concat]
    rfl
  have htrim : Text.trim ([] ++ (core ++ ['\n'])) = core :=
    trim_of_white_around (List.forall_mem_nil _) rfl hlast (by decide)
  have htext : "<?php\n".toList ++ (cs ++ "\n?>\n".toList) = [] ++ (core ++ ['\n']) := by
    simp [core]
  unfold stripDelimiters
  rw [htext, htrim]
  dsimp only [core]
  rw [dropPrefix?_append]
  change (dropSuffix? "?>".toList (('\n' :: (cs ++ ['\n'])) ++ "?>".toList)).getD _ = _
  rw [dropSuffix?_append, Option.getD_some]

/-- Without tags of its own a script has the same units with an opening tag on a line before it and
a closing tag on a line after it. -/
theorem units_tagged {source : String} (hopen : ¬"<?".toList <+: (trim source).toList)
    (hclose : ¬"?>".toList <:+ (trim source).toList) :
    units ("<?php\n" ++ source ++ "\n?>\n") = units source := by
  have hunits (text : String) : units text = textUnits (stripDelimiters text.toList) := rfl
  have hsource : (trim source).toList = Text.trim source.toList := String.toList_ofList
  have htagged : ("<?php\n" ++ source ++ "\n?>\n").toList =
      "<?php\n".toList ++ (source.toList ++ "\n?>\n".toList) := by
    rw [String.toList_append, String.toList_append, List.append_assoc]
  have hnewline : isSpace '\n' = true := by decide
  rw [hsource] at hopen hclose
  rw [hunits, hunits, htagged, stripDelimiters_tagged, stripDelimiters_of_untagged hopen hclose,
    textUnits_trim, textUnits_space_cons hnewline, textUnits_concat_space hnewline]

/-- So it is preloaded alike with and without the tags: the report or the failure is the same, and so
is the session that follows, with its phase, what it has written and what it remembers, and with its
evaluator, which may be one that records its calls. -/
theorem runSource_tagged (s : Session ε) {source : String}
    (hopen : ¬"<?".toList <+: (trim source).toList)
    (hclose : ¬"?>".toList <:+ (trim source).toList) :
    runSource s ("<?php\n" ++ source ++ "\n?>\n") = runSource s source := by
  rw [runSource_eq_runUnits, units_tagged hopen hclose, ← runSource_eq_runUnits]

/-- White space and carriage returns around a script, and a unit left open at its end. -/
theorem runSource_tagged_open :
    let replies : List (Except EvalError Reply) := [.error (.parse "unexpected" none)]
    let s : Session (Recorder Script) := { evaluator := { evaluator := { replies } } }
    let source := " \r\n\tf(); \r\n\r\ng(\r\n 1 \r\n"
    let tagged := "<?php\n" ++ source ++ "\n?>\n"
    ¬"<?".toList <+: (trim source).toList ∧ ¬"?>".toList <:+ (trim source).toList ∧
    scriptLines source = ["f(); ", "", "g(", " 1"] ∧
    scriptLines tagged = ["", " ", "\tf(); ", "", "g(", " 1 ", ""] ∧
    (runSource s tagged).2.evaluator.calls.map (·.code) = ["f();", "g(\n 1"] ∧
    (runSource s tagged).2.console.written = "Parse error: unexpected\n" ∧
    (runSource s tagged).1.toOption = some { executed := 1, failed := 1 } ∧
    runSource s tagged = runSource s source := by
  intro replies s source tagged
  have hopen : ¬"<?".toList <+: (trim source).toList := by decide +kernel
  have hclose : ¬"?>".toList <:+ (trim source).toList := by decide +kernel
  refine ⟨hopen, hclose, ?_, ?_, ?_, ?_, ?_, runSource_tagged s hopen hclose⟩
  · decide +kernel
  · decide +kernel
  · decide +kernel
  · decide +kernel
  · decide +kernel

end Preload

end ScriptShell
