import ScriptShell.Host.Response
import ScriptShell.Host.Request
import ScriptShell.Proofs.Json.RoundTrip
import ScriptShell.Proofs.NameMap

/-!
The lines that ask the host. A request is one line, and the document on it is the request: whatever
stands in the code, the paths and the names comes back as it was sent.
-/

namespace ScriptShell

open Json

/-- The handles of the values are numbers of 64 bits, as the host counts them. -/
def Bindings.HandlesFit (b : Bindings) : Prop := ∀ e ∈ b.entries, ∀ h ∈ e.2.handle, h < word64

instance (b : Bindings) : Decidable b.HandlesFit :=
  inferInstanceAs (Decidable (∀ e ∈ b.entries, ∀ h ∈ e.2.handle, h < word64))

theorem lt_of_optional_natural? {bound n : Nat} {field : Option Json}
    (h : optional? (natural? bound) field = some (some n)) : n < bound := by
  unfold optional? at h
  split at h
  · exact absurd h nofun
  · exact absurd h nofun
  · obtain ⟨_, hn, hsome⟩ := Option.map_eq_some_iff.mp h
    obtain rfl := Option.some.inj hsome
    unfold natural? at hn
    split at hn
    · obtain ⟨⟨_, hlt⟩, hn⟩ := Option.ite_none_right_eq_some.mp hn
      rw [← Option.some.inj hn]
      omega
    · exact absurd hn nofun

theorem Value.handle_lt_of_ofJson? {inAnswer : Bool} {v : Json} {value : Value}
    (h : Value.ofJson? inAnswer v = some value) : ∀ n ∈ value.handle, n < word64 := by
  unfold Value.ofJson? at h
  obtain ⟨fields, -, h⟩ := Option.bind_eq_some_iff.mp h
  split at h
  · obtain ⟨handle, hhandle, h⟩ := Option.bind_eq_some_iff.mp h
    simp only [Option.bind_eq_bind, Option.bind_eq_some_iff] at h
    obtain ⟨_, -, _, -, _, -, _, -, h⟩ := h
    rw [← Option.some.inj h]
    intro n hn
    have hsome : handle = some n := hn
    rw [hsome] at hhandle
    exact lt_of_optional_natural? hhandle
  · exact absurd h nofun

theorem mem_of_mapM_eq_some {α β : Type} {f : α → Option β} {xs : List α} {ys : List β}
    (h : xs.mapM f = some ys) : ∀ y ∈ ys, ∃ x ∈ xs, f x = some y := by
  induction xs generalizing ys with
  | nil =>
    rw [List.mapM_nil] at h
    obtain rfl := Option.some.inj h
    exact nofun
  | cons x xs ih =>
    rw [List.mapM_cons] at h
    obtain ⟨y, hy, h⟩ := Option.bind_eq_some_iff.mp h
    obtain ⟨ys', hys, h⟩ := Option.bind_eq_some_iff.mp h
    obtain rfl := Option.some.inj h
    rw [List.forall_mem_cons]
    refine ⟨⟨x, List.mem_cons_self, hy⟩, fun z hz => ?_⟩
    obtain ⟨w, hw, hwz⟩ := ih hys z hz
    exact ⟨w, List.mem_cons_of_mem x hw, hwz⟩

/-- Whatever bindings an answer names, their handles are numbers of 64 bits. -/
theorem Bindings.handlesFit_of_ofJson? {inAnswer : Bool} {v : Json} {b : Bindings}
    (h : Bindings.ofJson? inAnswer v = some b) : b.HandlesFit := by
  rintro ⟨name, value⟩ he handle hhandle
  have hget := NameMap.get?_eq_some_iff.mpr he
  unfold Bindings.ofJson? map? at h
  split at h
  · next fields =>
    obtain ⟨es, hes, rfl⟩ := Option.map_eq_some_iff.mp h
    have hentry : (name, value) ∈ es := by
      rw [NameMap.ofList, NameMap.get?_insertAll] at hget
      obtain ⟨before, after, hes, -⟩ :=
        List.lookup_eq_some_iff.mp ((Option.or_none).symm.trans hget)
      exact List.mem_reverse.mp (hes ▸ List.mem_append_right before List.mem_cons_self)
    obtain ⟨f, -, hf⟩ := mem_of_mapM_eq_some hes _ hentry
    obtain ⟨_, hvalue, hpair⟩ := Option.map_eq_some_iff.mp hf
    rw [(Prod.mk.inj hpair).2] at hvalue
    exact Value.handle_lt_of_ofJson? hvalue handle hhandle
  · exact absurd h.symm (Option.some_ne_none b)

namespace Request

/-- The handles of the request are numbers of 64 bits. -/
def HandlesFit : Request → Prop
  | .eval _ handles => ∀ e ∈ handles.entries, e.2 < word64
  | _ => True

theorem readable_obj_map {β : Type} {depth : Nat} (read : β → Json) {es : List (String × β)}
    (h : ∀ e ∈ es, Readable depth (read e.2)) :
    Readable (depth + 1) (.obj (es.map fun e => (e.1, read e.2))) := by
  refine .obj fun f hf => ?_
  obtain ⟨e, he, rfl⟩ := List.mem_map.mp hf
  exact h e he

/-- Requests are shallow, and nothing but their handles is a number. -/
theorem readable_toJson {r : Request} (h : r.HandlesFit) : Readable 2 r.toJson := by
  cases r with
  | init bootstrap env =>
    have hpath : Readable 1 ((bootstrap.map Json.str).getD .null) := by
      cases bootstrap with
      | none => exact .null
      | some path => exact .str path
    have henv : Readable 1 (.obj (env.entries.map fun e => (e.1, .str e.2))) :=
      readable_obj_map Json.str fun e _ => .str e.2
    refine .obj ?_
    simp only [List.forall_mem_cons]
    exact ⟨.str _, hpath, henv, nofun⟩
  | eval code handles =>
    have hhandles : Readable 1 (.obj (handles.entries.map fun e => (e.1, .int e.2))) := by
      refine readable_obj_map (fun h : Nat => Json.int h) fun e he => .int ?_ ?_
      · exact Int.le_trans (by decide) (Int.natCast_nonneg e.2)
      · exact Int.le_of_lt_add_one (Int.ofNat_lt.mpr (h e he))
    refine .obj ?_
    simp only [List.forall_mem_cons]
    exact ⟨.str _, .str code, hhandles, nofun⟩
  | symbols =>
    refine .obj ?_
    simp only [List.forall_mem_cons]
    exact ⟨.str _, nofun⟩

/-- The document on the line of a request is the request. -/
theorem parse?_encode {r : Request} (h : r.HandlesFit) : parse? r.encode = some r.toJson :=
  parse?_render_line (readable_toJson h) (by decide)

/-- Documents tell requests apart. -/
theorem toJson_injective {r s : Request} (h : r.toJson = s.toJson) : r = s := by
  have hstr : Function.Injective Json.str := fun _ _ => Json.str.inj
  have hint : Function.Injective fun n : Nat => Json.int n :=
    fun _ _ he => Int.ofNat.inj (Json.int.inj he)
  cases r <;> cases s
  case init.init path env path' env' =>
    simp only [toJson, Json.obj.injEq, List.cons.injEq, Prod.mk.injEq, true_and, and_true] at h
    have hpath : path = path' := by
      cases path <;> cases path' <;> simp_all
    rw [hpath, NameMap.map_entries_injective hstr h.2]
  case eval.eval code handles code' handles' =>
    simp only [toJson, Json.obj.injEq, List.cons.injEq, Prod.mk.injEq, true_and, and_true] at h
    rw [Json.str.inj h.1, NameMap.map_entries_injective hint h.2]
  case symbols.symbols => rfl
  all_goals simp [toJson] at h

theorem handles_entries (b : Bindings) :
    (handles b).entries = b.entries.filterMap fun e => e.2.handle.map fun h => (e.1, h) := by
  have hascending : (b.entries.filterMap fun e => e.2.handle.map fun h => (e.1, h)).Pairwise
      (fun a b => a.1 < b.1) := by
    refine List.Pairwise.filterMap _ ?_ b.ascending
    intro e d hlt f hf g hg
    obtain ⟨_, -, rfl⟩ := Option.map_eq_some_iff.mp hf
    obtain ⟨_, -, rfl⟩ := Option.map_eq_some_iff.mp hg
    exact hlt
  exact congrArg NameMap.entries (NameMap.ofList_entries ⟨_, hascending⟩)

theorem get?_handles (b : Bindings) (name : String) :
    (handles b).get? name = (b.get? name).bind (·.handle) := by
  apply Option.ext
  intro h
  rw [NameMap.get?_eq_some_iff, handles_entries, List.mem_filterMap, Option.bind_eq_some_iff]
  constructor
  · rintro ⟨e, he, hh⟩
    obtain ⟨_, hv, hpair⟩ := Option.map_eq_some_iff.mp hh
    obtain ⟨rfl, rfl⟩ := Prod.mk.inj hpair
    exact ⟨e.2, NameMap.get?_eq_some_iff.mpr he, hv⟩
  · rintro ⟨v, hv, hh⟩
    exact ⟨(name, v), NameMap.get?_eq_some_iff.mp hv, by rw [hh]; rfl⟩

theorem handlesFit_ofUnit {b : Bindings} (h : b.HandlesFit) (code : String) :
    (ofUnit code b).HandlesFit := by
  intro e he
  rw [handles_entries] at he
  obtain ⟨d, hd, hde⟩ := List.mem_filterMap.mp he
  obtain ⟨handle, hhandle, rfl⟩ := Option.map_eq_some_iff.mp hde
  exact h d hd handle hhandle

/-- A request is sent as one line, the line is a JSON document with every text as it was given, and
the bindings on it are the handles by name, of those values that the host holds. So no two requests
are sent alike. -/
theorem encode_lossless :
    (∀ r : Request, ∃ body : String, r.encode = body ++ "\n" ∧ '\n' ∉ body.toList) ∧
    (∀ bootstrap env, parse? (init bootstrap env).encode = some (.obj
      [("op", .str "init"), ("bootstrap", bootstrap.elim .null .str),
        ("env", .obj (env.entries.map fun e => (e.1, .str e.2)))])) ∧
    (∀ code (b : Bindings), b.HandlesFit → ∃ fields,
      parse? (ofUnit code b).encode = some (.obj
        [("op", .str "eval"), ("code", .str code), ("bindings", .obj fields)]) ∧
      fields.Pairwise (fun f g => f.1 < g.1) ∧
      ∀ name, fields.lookup name = ((b.get? name).bind (·.handle)).map fun h => .int h) ∧
    parse? symbols.encode = some (.obj [("op", .str "symbols")]) ∧
    ∀ r s : Request, r.HandlesFit → s.HandlesFit → r ≠ s → r.encode ≠ s.encode := by
  refine ⟨fun r => ⟨r.toJson.render, rfl, ?_⟩, fun bootstrap env => ?_, fun code b hb => ?_,
    parse?_encode (r := .symbols) trivial, fun r s hr hs hne h => hne ?_⟩
  · rw [render, String.toList_ofList]
    exact (flat_print r.toJson).newline_not_mem
  · rw [parse?_encode (r := .init bootstrap env) trivial, toJson]
    cases bootstrap <;> rfl
  · refine ⟨_, parse?_encode (handlesFit_ofUnit hb code), ?_, fun name => ?_⟩
    · exact List.pairwise_map.mpr (handles b).ascending
    · rw [← get?_handles]
      exact NameMap.lookup_map_entries (fun h : Nat => Json.int h) (handles b) name
  · have hparse : parse? r.encode = parse? s.encode := congrArg parse? h
    rw [parse?_encode hr, parse?_encode hs] at hparse
    exact toJson_injective (Option.some.inj hparse)

/-- Code with quotes, a backslash, a line end, a tab and a control character, and values with the
largest handle, with a small one and with none. -/
theorem encode_lossless_escaped :
    let code := "$q = \"a\\b\";\n\tg($x);\x01"
    let b : Bindings := NameMap.ofList
      [("x", (Value.object "Shop" []).withHandle 18446744073709551615), ("y", Value.ofInt 6),
        ("a b", (Value.ofInt 5).withHandle 3)]
    let line := "\x7b\"op\":\"eval\"," ++
      "\"code\":\"$q = \\\"a\\\\b\\\";\\n\\tg($x);\\u0001\"," ++
      "\"bindings\":\x7b\"a b\":3,\"x\":18446744073709551615\x7d\x7d\n"
    b.HandlesFit ∧ (ofUnit code b).encode = line ∧
    (∃ fields, parse? line = some (.obj
        [("op", .str "eval"), ("code", .str code), ("bindings", .obj fields)]) ∧
      fields.lookup "x" = some (.int 18446744073709551615) ∧ fields.lookup "y" = none ∧
      fields.lookup "a b" = some (.int 3)) ∧
    (ofUnit code b).encode ≠ (ofUnit code ∅).encode := by
  intro code b line
  have hfit : b.HandlesFit := by decide +kernel
  have hline : (ofUnit code b).encode = line := by decide +kernel
  have hother : ofUnit code b ≠ ofUnit code ∅ := by
    intro h
    have hnone : (handles b).get? "x" = (handles ∅).get? "x" :=
      congrArg (NameMap.get? · "x") (Request.eval.inj h).2
    exact absurd hnone (by decide +kernel)
  refine ⟨hfit, hline, ?_, ?_⟩
  · obtain ⟨fields, hparse, -, hlookup⟩ := encode_lossless.2.2.1 code b hfit
    refine ⟨fields, hline ▸ hparse, ?_, ?_, ?_⟩
    · rw [hlookup]
      have hx : (b.get? "x").bind (·.handle) = some 18446744073709551615 := by decide +kernel
      rw [hx]
      rfl
    · rw [hlookup]
      have hy : (b.get? "y").bind (·.handle) = none := by decide +kernel
      rw [hy]
      rfl
    · rw [hlookup]
      have ha : (b.get? "a b").bind (·.handle) = some 3 := by decide +kernel
      rw [ha]
      rfl
  · exact encode_lossless.2.2.2.2 _ _ (handlesFit_ofUnit hfit code) (fun e he => nomatch he) hother

end Request

end ScriptShell
