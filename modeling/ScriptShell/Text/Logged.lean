import ScriptShell.Text.Quoted

/-!
The form of a text in the log: controls that would steer a terminal are written as escapes. Main
statements: no such control is left in the log, and a text without any is logged as it is.
-/

namespace ScriptShell.Text

/-- Bell, backspace, form feed, escape and delete. -/
def steeringAscii : List Char := ['\x07', '\x08', '\x0c', '\x1b', '\x7f']

/-- A control beyond ASCII. -/
def isHighControl (c : Char) : Bool := 0x80 ≤ c.toNat && c.toNat < 0xA0

/-- A control that a terminal may obey. -/
def isSteering (c : Char) : Bool := steeringAscii.contains c || isHighControl c

/-- A number below 256 in two hexadecimal digits. -/
def twoHexDigits (n : Nat) : List Char := hexDigits (n / 16) ++ hexDigits (n % 16)

/-- One character of a text in the log. -/
def loggedChar (c : Char) : List Char :=
  if steeringAscii.contains c then ['\\', 'x'] ++ twoHexDigits c.toNat
  else if isHighControl c then escapeCodePoint c.toNat
  else [c]

theorem loggedChar_of_not_isSteering {c : Char} (h : isSteering c = false) :
    loggedChar c = [c] := by
  simp only [isSteering, Bool.or_eq_false_iff] at h
  simp only [loggedChar, h.1, h.2, Bool.false_eq_true, ↓reduceIte]

theorem flatMap_loggedChar {cs : List Char} (h : ∀ c ∈ cs, isSteering c = false) :
    cs.flatMap loggedChar = cs := by
  induction cs with
  | nil => rfl
  | cons c cs ih =>
    rw [List.flatMap_cons, loggedChar_of_not_isSteering (h c (by simp)),
      ih fun d hd => h d (by simp [hd])]
    rfl

theorem not_isSteering_escapeCodePoint : (List.range 32).all fun k =>
    (escapeCodePoint (128 + k)).all fun d => !isSteering d := by decide

theorem not_isSteering_twoHexDigits : steeringAscii.all fun c =>
    (['\\', 'x'] ++ twoHexDigits c.toNat).all fun d => !isSteering d := by decide

theorem not_isSteering_of_mem_loggedChar {c d : Char} (h : d ∈ loggedChar c) :
    isSteering d = false := by
  by_cases ha : steeringAscii.contains c
  · rw [loggedChar, if_pos ha] at h
    have hall := List.all_eq_true.mp not_isSteering_twoHexDigits c (List.contains_iff_mem.mp ha)
    simpa using List.all_eq_true.mp hall d h
  · by_cases hc : isHighControl c
    · rw [loggedChar, if_neg ha, if_pos hc] at h
      simp only [isHighControl, Bool.and_eq_true, decide_eq_true_eq] at hc
      obtain ⟨k, hk⟩ := Nat.exists_eq_add_of_le hc.1
      have hall := List.all_eq_true.mp not_isSteering_escapeCodePoint k
        (List.mem_range.mpr (by omega))
      simpa using List.all_eq_true.mp hall d (hk ▸ h)
    · rw [loggedChar, if_neg ha, if_neg hc, List.mem_singleton] at h
      simp only [h, isSteering, ha, hc, Bool.or_false]

end ScriptShell.Text

namespace ScriptShell

/-- A text as the log shows it. -/
def logged (s : String) : String := String.ofList (s.toList.flatMap Text.loggedChar)

/-- Nothing in the log steers a terminal. -/
theorem not_isSteering_of_mem_logged {s : String} {d : Char} (h : d ∈ (logged s).toList) :
    Text.isSteering d = false := by
  rw [logged, String.toList_ofList] at h
  obtain ⟨c, -, hd⟩ := List.mem_flatMap.mp h
  exact Text.not_isSteering_of_mem_loggedChar hd

/-- A text is logged as it is exactly if it has no control that steers a terminal. -/
theorem logged_eq_self_iff {s : String} :
    logged s = s ↔ ∀ c ∈ s.toList, Text.isSteering c = false := by
  constructor
  · intro h c hc
    rw [← h] at hc
    exact not_isSteering_of_mem_logged hc
  · intro h
    rw [logged, Text.flatMap_loggedChar h, String.ofList_toList]

end ScriptShell
