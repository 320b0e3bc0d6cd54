import ScriptShell.Proofs.Json.Spelling

/-!
Printed documents read back. The compact text of a document has the tokens that spell the document,
and the reader takes them for it wherever a value may stand.
-/

namespace ScriptShell.Json

section Tokens

theorem tokensFrom?_length_append (a rest : List Char) :
    tokensFrom? a.length (a ++ rest) = tokens? rest := by
  induction a with
  | nil => rfl
  | cons c a ih => exact ih

/-- The tokens of a text that starts with a known one. -/
theorem tokens?_append_of_lexeme? {a rest : List Char} {t : Option Token} (ha : a ≠ [])
    (h : lexeme? (a ++ rest) = some (t, a.length)) :
    tokens? (a ++ rest) = (tokens? rest).map (t.toList ++ ·) := by
  obtain ⟨c, a, rfl⟩ := List.exists_cons_of_ne_nil ha
  rw [List.cons_append] at h ⊢
  rw [tokens?, tokensFrom?, h]
  simp only [Option.bind_eq_bind, Option.bind_some, List.length_cons, Nat.add_sub_cancel,
    tokensFrom?_length_append]
  cases tokens? rest <;> rfl

/-- A text that has these tokens before whatever comes behind it, unless that goes on with a
number. -/
def Cuts (cs : List Char) (ts : List Token) : Prop :=
  ∀ rest : List Char, rest.head?.any isNumeric = false →
    tokens? (cs ++ rest) = (tokens? rest).map (ts ++ ·)

namespace Cuts

theorem nil : Cuts [] [] := by
  intro rest _
  simp

theorem of_lexeme? {cs : List Char} {t : Token} (hcs : cs ≠ [])
    (h : ∀ rest : List Char, rest.head?.any isNumeric = false →
      lexeme? (cs ++ rest) = some (some t, cs.length)) : Cuts cs [t] :=
  fun rest hr => tokens?_append_of_lexeme? hcs (h rest hr)

theorem append_cons {a b : List Char} {c : Char} {s t : List Token} (ha : Cuts a s)
    (hb : Cuts (c :: b) t) (hc : isNumeric c = false) : Cuts (a ++ c :: b) (s ++ t) := by
  intro rest hr
  have hboundary : (c :: b ++ rest).head?.any isNumeric = false := hc
  rw [List.append_assoc, ha _ hboundary, hb rest hr, Option.map_map]
  congr 1
  funext u
  exact (List.append_assoc s t u).symm

/-- A mark is a token by itself. -/
theorem mark {c : Char} {t : Token} (h : ∀ rest, lexeme? (c :: rest) = some (some t, 1))
    {cs : List Char} {ts : List Token} (hcs : Cuts cs ts) : Cuts (c :: cs) (t :: ts) := by
  intro rest hr
  have hcut : tokens? ([c] ++ (cs ++ rest)) = (tokens? (cs ++ rest)).map (t :: ·) :=
    tokens?_append_of_lexeme? (List.cons_ne_nil c []) (h (cs ++ rest))
  rw [List.singleton_append] at hcut
  rw [List.cons_append, hcut, hcs rest hr, Option.map_map]
  rfl

end Cuts

end Tokens

section Spelling

theorem cuts_printString (s : String) : Cuts (printString s) [.scalar (.str s)] :=
  .of_lexeme? nofun fun rest _ => lexeme?_printString s rest

mutual

/-- The tokens of the compact text of a document. -/
def spelling : Json → List Token
  | .null => [.scalar .null]
  | .bool b => [.scalar (.bool b)]
  | .int n => [.scalar (.int n)]
  | .real negative significand exponent => [.scalar (.real negative significand exponent)]
  | .str s => [.scalar (.str s)]
  | .arr items => .openArray :: (spelledItems items ++ [.closeArray])
  | .obj fields => .openObject :: (spelledFields fields ++ [.closeObject])

def spelledItems : List Json → List Token
  | [] => []
  | [v] => spelling v
  | v :: w :: rest => spelling v ++ .comma :: spelledItems (w :: rest)

def spelledFields : List (String × Json) → List Token
  | [] => []
  | [(name, v)] => .scalar (.str name) :: .colon :: spelling v
  | (name, v) :: next :: rest =>
    .scalar (.str name) :: .colon :: (spelling v ++ .comma :: spelledFields (next :: rest))

end

/-- Documents that read back as they are printed: whole numbers of 64 bits, nothing that a decimal
fraction would stand for, and containers nested `depth` deep at most. -/
inductive Readable : Nat → Json → Prop
  | null {depth : Nat} : Readable depth .null
  | bool {depth : Nat} (b : Bool) : Readable depth (.bool b)
  | int {depth : Nat} {n : Int} (hmin : minInt ≤ n) (hmax : n ≤ maxInt) : Readable depth (.int n)
  | str {depth : Nat} (s : String) : Readable depth (.str s)
  | arr {depth : Nat} {items : List Json} (h : ∀ v ∈ items, Readable depth v) :
    Readable (depth + 1) (.arr items)
  | obj {depth : Nat} {fields : List (String × Json)} (h : ∀ f ∈ fields, Readable depth f.2) :
    Readable (depth + 1) (.obj fields)

theorem cuts_printItems {vs : List Json} (h : ∀ v ∈ vs, Cuts (print v) (spelling v)) :
    Cuts (printItems vs) (spelledItems vs) := by
  induction vs with
  | nil => rw [printItems, spelledItems]; exact .nil
  | cons v vs ih =>
    have hv := h v List.mem_cons_self
    cases vs with
    | nil => rw [printItems, spelledItems]; exact hv
    | cons w vs =>
      have hvs := ih fun u hu => h u (List.mem_cons_of_mem v hu)
      rw [printItems, spelledItems]
      exact hv.append_cons (.mark (fun _ => rfl) hvs) rfl

theorem cuts_printField (name : String) {v : Json} (h : Cuts (print v) (spelling v)) :
    Cuts (printString name ++ ':' :: print v) (.scalar (.str name) :: .colon :: spelling v) :=
  (cuts_printString name).append_cons (.mark (fun _ => rfl) h) rfl

theorem cuts_printFields {fs : List (String × Json)}
    (h : ∀ f ∈ fs, Cuts (print f.2) (spelling f.2)) :
    Cuts (printFields fs) (spelledFields fs) := by
  induction fs with
  | nil => rw [printFields, spelledFields]; exact .nil
  | cons f fs ih =>
    have hf := cuts_printField f.1 (h f List.mem_cons_self)
    cases fs with
    | nil => rw [printFields, spelledFields]; exact hf
    | cons g fs =>
      have hfs := ih fun u hu => h u (List.mem_cons_of_mem f hu)
      rw [printFields, spelledFields]
      exact hf.append_cons (.mark (fun _ => rfl) hfs) rfl

theorem cuts_print {depth : Nat} {v : Json} (h : Readable depth v) :
    Cuts (print v) (spelling v) := by
  have hword {w : List Char × Json} (hw : w ∈ words) : Cuts w.1 [.scalar w.2] := by
    have hne : ∀ w ∈ words, w.1 ≠ [] := by simp [words]
    exact .of_lexeme? (hne w hw) fun rest _ => lexeme?_word hw rest
  induction h with
  | null =>
    rw [print, spelling]
    exact hword (w := ("null".toList, .null)) (by simp [words])
  | bool b =>
    rw [print, spelling]
    cases b with
    | false => exact hword (w := ("false".toList, .bool false)) (by simp [words])
    | true => exact hword (w := ("true".toList, .bool true)) (by simp [words])
  | @int _ n hmin hmax =>
    rw [print, spelling]
    exact .of_lexeme? (toList_toString_ne_nil n) fun rest hr => lexeme?_toString hmin hmax hr
  | str s =>
    rw [print, spelling]
    exact cuts_printString s
  | arr h ih =>
    rw [print, spelling]
    have hclose : Cuts [']'] [.closeArray] := .mark (fun _ => rfl) .nil
    exact .mark (fun _ => rfl) ((cuts_printItems ih).append_cons hclose rfl)
  | obj h ih =>
    rw [print, spelling]
    have hclose : Cuts ['\x7d'] [.closeObject] := .mark (fun _ => rfl) .nil
    exact .mark (fun _ => rfl) ((cuts_printFields ih).append_cons hclose rfl)

end Spelling

section Reading

/-- What reading the tokens of a document comes to, if the containers around it leave room for its
own. -/
def Taken (depth : Nat) (v : Json) : Prop :=
  ∀ (holes : List Hole) (ts : List Token), holes.length + depth ≤ maxDepth →
    run? (.value holes) (spelling v ++ ts) = run? (deliver v holes) ts

/-- The first item of an array is read as any other. -/
theorem run?_firstItem (v : Json) (holes : List Hole) (ts : List Token) :
    run? (.firstItem holes) (spelling v ++ ts) =
      run? (.value (.item [] :: holes)) (spelling v ++ ts) := by
  cases v <;> (rw [spelling]; rfl)

/-- A name and a colon, after which the value of the field is due. -/
theorem run?_name (before : List (String × Json)) (name : String) (holes : List Hole)
    (ts : List Token) :
    run? (.name before holes) (.scalar (.str name) :: .colon :: ts) =
      run? (.value (.field before name :: holes)) ts := rfl

/-- The items behind the first are read into the array, one at a time. -/
theorem run?_spelledItems {depth : Nat} {v : Json} {vs before : List Json} {holes : List Hole}
    (h : ∀ u ∈ v :: vs, Taken depth u) (hd : holes.length + (depth + 1) ≤ maxDepth)
    (ts : List Token) :
    run? (.value (.item before :: holes)) (spelledItems (v :: vs) ++ .closeArray :: ts) =
      run? (deliver (.arr (before.reverse ++ v :: vs)) holes) ts := by
  have hroom (hole : Hole) : (hole :: holes).length + depth ≤ maxDepth := by
    rw [List.length_cons]
    omega
  induction vs generalizing v before with
  | nil =>
    have hv := h v List.mem_cons_self
    rw [spelledItems, hv _ _ (hroom _), deliver, run?, step?, Option.bind_some, List.reverse_cons]
  | cons w vs ih =>
    have hv := h v List.mem_cons_self
    have hvs := fun u hu => h u (List.mem_cons_of_mem v hu)
    rw [spelledItems, List.append_assoc, List.cons_append, hv _ _ (hroom _), deliver, run?, step?,
      Option.bind_some, ih hvs, List.reverse_cons, List.append_assoc, List.singleton_append]

theorem run?_spelledFields {depth : Nat} {f : String × Json} {fs before : List (String × Json)}
    {holes : List Hole} (h : ∀ g ∈ f :: fs, Taken depth g.2)
    (hd : holes.length + (depth + 1) ≤ maxDepth) (ts : List Token) :
    run? (.name before holes) (spelledFields (f :: fs) ++ .closeObject :: ts) =
      run? (deliver (.obj (before.reverse ++ f :: fs)) holes) ts := by
  have hroom (hole : Hole) : (hole :: holes).length + depth ≤ maxDepth := by
    rw [List.length_cons]
    omega
  induction fs generalizing f before with
  | nil =>
    have hf := h f List.mem_cons_self
    rw [spelledFields, List.cons_append, List.cons_append, run?_name, hf _ _ (hroom _), deliver,
      run?, step?, Option.bind_some, List.reverse_cons]
  | cons g fs ih =>
    have hf := h f List.mem_cons_self
    have hfs := fun u hu => h u (List.mem_cons_of_mem f hu)
    rw [spelledFields, List.cons_append, List.cons_append, run?_name, List.append_assoc,
      List.cons_append, hf _ _ (hroom _), deliver, run?, step?, Option.bind_some, ih hfs,
      List.reverse_cons, List.append_assoc, List.singleton_append]

/-- Only the first name of an object may be missing. -/
theorem run?_firstName (f : String × Json) (fs : List (String × Json)) (holes : List Hole)
    (ts : List Token) :
    run? (.firstName holes) (spelledFields (f :: fs) ++ ts) =
      run? (.name [] holes) (spelledFields (f :: fs) ++ ts) := by
  cases fs <;> (rw [spelledFields]; rfl)

/-- A document that is not too deep is taken as it is spelled: an array takes one of the places that
are left, and its items have the others. -/
theorem taken_of_readable {depth : Nat} {v : Json} (h : Readable depth v) : Taken depth v := by
  induction h with
  | null => intro holes ts _; rw [spelling]; rfl
  | bool b => intro holes ts _; rw [spelling]; rfl
  | int hmin hmax => intro holes ts _; rw [spelling]; rfl
  | str s => intro holes ts _; rw [spelling]; rfl
  | @arr depth items _ ih =>
    intro holes ts hd
    have hopen : step? (.value holes) .openArray = some (.firstItem holes) :=
      if_pos (by omega)
    rw [spelling, List.cons_append, List.append_assoc, List.singleton_append, run?, hopen,
      Option.bind_some]
    cases items with
    | nil => rw [spelledItems]; rfl
    | cons v vs =>
      have hfirst : run? (.firstItem holes) (spelledItems (v :: vs) ++ .closeArray :: ts) =
          run? (.value (.item [] :: holes)) (spelledItems (v :: vs) ++ .closeArray :: ts) := by
        cases vs with
        | nil => rw [spelledItems, run?_firstItem]
        | cons w vs => rw [spelledItems, List.append_assoc, run?_firstItem]
      rw [hfirst, run?_spelledItems ih hd]
      rfl
  | @obj depth fields _ ih =>
    intro holes ts hd
    have hopen : step? (.value holes) .openObject = some (.firstName holes) :=
      if_pos (by omega)
    rw [spelling, List.cons_append, List.append_assoc, List.singleton_append, run?, hopen,
      Option.bind_some]
    cases fields with
    | nil => rw [spelledFields]; rfl
    | cons f fs =>
      rw [run?_firstName, run?_spelledFields ih hd]
      rfl

end Reading

/-- A printed document reads back, also from a line of its own. -/
theorem parse?_render_line {depth : Nat} {v : Json} (h : Readable depth v) (hd : depth ≤ maxDepth) :
    parse? (render v ++ "\n") = some v := by
  have htokens : tokens? (render v ++ "\n").toList = some (spelling v ++ []) := by
    rw [String.toList_append, render, String.toList_ofList, cuts_print h _ rfl]
    rfl
  have hrun := taken_of_readable h [] [] (by rw [List.length_nil]; omega)
  unfold parse?
  rw [htokens, Option.bind_eq_bind, Option.bind_some, hrun]
  rfl

end ScriptShell.Json
