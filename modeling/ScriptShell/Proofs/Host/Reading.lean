import ScriptShell.Host.Connection
import ScriptShell.Proofs.Host.Marker

/-!
What a stream of output holds for a reader. The pieces at which the reader stops are the replies of
the stream; each request takes the first one that is left, whatever it was written for.
-/

namespace ScriptShell

open Text

/-- What a reader comes to. -/
abbrev Outcome := Except EvalError (Response × String)

namespace Connection

/-- What the reader stops with at a piece, after this text; nothing when it reads on. -/
def outcomeAt? (stray : List Char) (piece : List UInt8 × Bool) : Option Outcome :=
  match textOfPiece? piece with
  | none => some (.error (.io IoError.invalidEncoding.message))
  | some text => (Frame.decodeLine? text).map fun found =>
    match found.2 with
    | some response => .ok (response, String.ofList (dropSeparator (stray ++ found.1)))
    | none => .error (.protocol "malformed frame")

/-- The reader stops at this piece. -/
def halts (piece : List UInt8 × Bool) : Bool := (outcomeAt? [] piece).isSome

/-- The text of a piece that is read over. -/
def textOfPiece (piece : List UInt8 × Bool) : List Char := (textOfPiece? piece).getD []

/-- The replies in pieces of output, when this text stands before them. -/
def outcomes (stray : List Char) : List (List UInt8 × Bool) → List Outcome
  | [] => []
  | piece :: rest =>
    match outcomeAt? stray piece with
    | some reply => reply :: outcomes [] rest
    | none => outcomes (stray ++ textOfPiece piece) rest

theorem isSome_outcomeAt? (stray : List Char) (piece : List UInt8 × Bool) :
    (outcomeAt? stray piece).isSome = halts piece := by
  unfold halts outcomeAt?
  cases textOfPiece? piece with
  | none => rfl
  | some text => rw [Option.isSome_map, Option.isSome_map]

theorem outcomeAt?_of_not_halts {piece : List UInt8 × Bool} (h : halts piece = false)
    (stray : List Char) : outcomeAt? stray piece = none := by
  rw [← Option.isSome_eq_false_iff.trans Option.isNone_iff_eq_none, isSome_outcomeAt?, h]

theorem exists_outcomeAt? {piece : List UInt8 × Bool} (h : halts piece = true)
    (stray : List Char) : ∃ reply, outcomeAt? stray piece = some reply := by
  rw [← Option.isSome_iff_exists, isSome_outcomeAt?, h]

/-- A reader meets no failure that takes the process away. -/
theorem isFatal_of_outcomeAt? {stray : List Char} {piece : List UInt8 × Bool} {e : EvalError}
    (h : outcomeAt? stray piece = some (.error e)) : e.isFatal = false := by
  unfold outcomeAt? at h
  split at h
  · cases h
    rfl
  · obtain ⟨⟨before, found⟩, -, h⟩ := Option.map_eq_some_iff.mp h
    cases found with
    | some response => exact absurd h nofun
    | none =>
      cases h
      rfl

/-- The reader stops at a piece that is no text and at one that holds the marker. -/
theorem halts_eq_false_iff {piece : List UInt8 × Bool} :
    halts piece = false ↔
      ∃ text, textOfPiece? piece = some text ∧ ¬Frame.marker <:+: text := by
  unfold halts outcomeAt?
  cases textOfPiece? piece with
  | none => exact ⟨nofun, nofun⟩
  | some text =>
    rw [Option.isSome_map, Option.isSome_eq_false_iff, Option.isNone_iff_eq_none,
      Frame.decodeLine?_eq_none_iff]
    exact ⟨fun h => ⟨text, rfl, h⟩, fun ⟨_, he, h⟩ => Option.some.inj he ▸ h⟩

theorem readFrame_cons (stray : List Char) (piece : List UInt8 × Bool)
    (rest : List (List UInt8 × Bool)) :
    readFrame stray (piece :: rest) =
      match outcomeAt? stray piece with
      | some reply => (reply, rest)
      | none => readFrame (stray ++ textOfPiece piece) rest := by
  rw [readFrame]
  unfold outcomeAt? textOfPiece
  cases textOfPiece? piece with
  | none => rfl
  | some text =>
    simp only [Option.getD_some]
    cases Frame.decodeLine? text with
    | none => rfl
    | some found =>
      obtain ⟨before, response⟩ := found
      cases response with
      | none => rfl
      | some response => rfl

/-- Text that is read over comes with the reply after it. -/
theorem readFrame_append_of_not_halts {ps : List (List UInt8 × Bool)}
    (h : ∀ p ∈ ps, halts p = false) (stray : List Char) (qs : List (List UInt8 × Bool)) :
    readFrame stray (ps ++ qs) = readFrame (stray ++ ps.flatMap textOfPiece) qs := by
  induction ps generalizing stray with
  | nil => rw [List.flatMap_nil, List.append_nil]; rfl
  | cons piece rest ih =>
    obtain ⟨hp, hrest⟩ := List.forall_mem_cons.mp h
    rw [List.cons_append, readFrame_cons, outcomeAt?_of_not_halts hp]
    simp only
    rw [ih hrest, List.flatMap_cons, List.append_assoc]

/-- A read takes the first reply and leaves the others. -/
theorem readFrame_of_outcomes {stray : List Char} {ps : List (List UInt8 × Bool)} {reply : Outcome}
    {more : List Outcome} (h : outcomes stray ps = reply :: more) :
    (readFrame stray ps).1 = reply ∧
      ∃ before, ps = before ++ (readFrame stray ps).2 ∧ outcomes [] (readFrame stray ps).2 = more ∧
        ∀ qs, readFrame stray (ps ++ qs) = (reply, (readFrame stray ps).2 ++ qs) := by
  induction ps generalizing stray with
  | nil => exact absurd h nofun
  | cons piece rest ih =>
    simp only [List.cons_append, readFrame_cons]
    rw [outcomes] at h
    cases ho : outcomeAt? stray piece with
    | some found =>
      rw [ho] at h
      obtain ⟨rfl, hmore⟩ := List.cons.inj h
      exact ⟨rfl, [piece], rfl, hmore, fun qs => rfl⟩
    | none =>
      rw [ho] at h
      obtain ⟨hreply, before, hps, hmore, hqs⟩ := ih h
      exact ⟨hreply, piece :: before, congrArg (piece :: ·) hps, hmore, hqs⟩

/-- There are as many replies as there are pieces to stop at. -/
theorem length_outcomes (stray : List Char) (ps : List (List UInt8 × Bool)) :
    (outcomes stray ps).length = ps.countP halts := by
  induction ps generalizing stray with
  | nil => rfl
  | cons piece rest ih =>
    rw [outcomes]
    by_cases hh : halts piece = true
    · obtain ⟨reply, ho⟩ := exists_outcomeAt? hh stray
      rw [ho, List.countP_cons_of_pos hh, List.length_cons, ih]
    · rw [outcomeAt?_of_not_halts (Bool.eq_false_iff.mpr hh), List.countP_cons_of_neg hh]
      exact ih _

theorem isFatal_of_mem_outcomes {stray : List Char} {ps : List (List UInt8 × Bool)}
    {e : EvalError} (h : .error e ∈ outcomes stray ps) : e.isFatal = false := by
  induction ps generalizing stray with
  | nil => exact absurd h List.not_mem_nil
  | cons piece rest ih =>
    rw [outcomes] at h
    cases ho : outcomeAt? stray piece with
    | none =>
      rw [ho] at h
      exact ih h
    | some reply =>
      rw [ho] at h
      rcases List.mem_cons.mp h with rfl | h
      · exact isFatal_of_outcomeAt? ho
      · exact ih h

/-- Pieces that are read over only add their text. -/
theorem outcomes_append_of_not_halts {ps : List (List UInt8 × Bool)}
    (h : ∀ p ∈ ps, halts p = false) (stray : List Char) (qs : List (List UInt8 × Bool)) :
    outcomes stray (ps ++ qs) = outcomes (stray ++ ps.flatMap textOfPiece) qs := by
  induction ps generalizing stray with
  | nil => rw [List.flatMap_nil, List.append_nil]; rfl
  | cons piece rest ih =>
    obtain ⟨hp, hrest⟩ := List.forall_mem_cons.mp h
    rw [List.cons_append, outcomes, outcomeAt?_of_not_halts hp]
    simp only
    rw [ih hrest, List.flatMap_cons, List.append_assoc]

/-- After a piece at which the reader stops, reading starts afresh. -/
theorem outcomes_concat_append {p : List UInt8 × Bool} (hp : halts p = true) (stray : List Char)
    (ps qs : List (List UInt8 × Bool)) :
    outcomes stray (ps ++ [p] ++ qs) = outcomes stray (ps ++ [p]) ++ outcomes [] qs := by
  induction ps generalizing stray with
  | nil =>
    obtain ⟨reply, ho⟩ := exists_outcomeAt? hp stray
    rw [List.nil_append, List.singleton_append, outcomes, outcomes, ho]
    rfl
  | cons piece rest ih =>
    rw [List.cons_append, List.cons_append, outcomes, outcomes]
    cases outcomeAt? stray piece with
    | some reply => exact congrArg (reply :: ·) (ih [])
    | none => exact ih _

/-- The last reply is the one of the last piece, whatever was read before it. -/
theorem getLast?_outcomes_concat {p : List UInt8 × Bool} (hp : halts p = true)
    (stray : List Char) (ps : List (List UInt8 × Bool)) :
    ∃ before, (outcomes stray (ps ++ [p])).getLast? = outcomeAt? before p := by
  induction ps generalizing stray with
  | nil =>
    obtain ⟨reply, ho⟩ := exists_outcomeAt? hp stray
    refine ⟨stray, ?_⟩
    rw [List.nil_append, outcomes, ho]
    rfl
  | cons piece rest ih =>
    rw [List.cons_append, outcomes]
    cases outcomeAt? stray piece with
    | none => exact ih _
    | some reply =>
      obtain ⟨before, hlast⟩ := ih []
      have hne : outcomes [] (rest ++ [p]) ≠ [] := by
        intro hnil
        obtain ⟨last, ho⟩ := exists_outcomeAt? hp before
        rw [hnil, ho] at hlast
        exact absurd hlast nofun
      refine ⟨before, ?_⟩
      simp only
      rw [List.getLast?_cons_of_ne_nil hne]
      exact hlast

/-- Pieces after which reading starts afresh. -/
def Settled (ps : List (List UInt8 × Bool)) : Prop :=
  ∀ qs, outcomes [] (ps ++ qs) = outcomes [] ps ++ outcomes [] qs

theorem settled_nil : Settled [] := fun _ => rfl

theorem settled_concat {p : List UInt8 × Bool} (hp : halts p = true)
    (ps : List (List UInt8 × Bool)) : Settled (ps ++ [p]) :=
  outcomes_concat_append hp [] ps

theorem Settled.append {ps qs : List (List UInt8 × Bool)} (hp : Settled ps) (hq : Settled qs) :
    Settled (ps ++ qs) := by
  intro rs
  rw [List.append_assoc, hp, hq, hp, List.append_assoc]

/-- What a read leaves of settled pieces is settled. -/
theorem Settled.readFrame {ps : List (List UInt8 × Bool)} (hp : Settled ps) {reply : Outcome}
    {more : List Outcome} (h : outcomes [] ps = reply :: more) :
    Settled (readFrame [] ps).2 := by
  intro qs
  obtain ⟨-, -, -, hmore, hrest⟩ := readFrame_of_outcomes h
  have hall : outcomes [] (ps ++ qs) = reply :: (more ++ outcomes [] qs) := by
    rw [hp qs, h, List.cons_append]
  obtain ⟨-, -, -, hmore', -⟩ := readFrame_of_outcomes hall
  rw [hrest qs] at hmore'
  rw [hmore, hmore']

end Connection

end ScriptShell
