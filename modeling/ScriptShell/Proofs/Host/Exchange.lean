import ScriptShell.Proofs.Host.Answer

/-!
Requests and replies over a whole life of a connection. The host answers each line in turn; the
replies that its output holds are handed out in their order, one to each request, whatever the
requests are for and whatever became of those before.
-/

namespace ScriptShell

open Text

namespace HostProcess

variable {η : Type} [HostProcess η]

/-- The host after these lines. -/
def after (host : η) (lines : List String) : η :=
  lines.foldl (fun host line => (answer host line).2) host

/-- Whatever it was sent before, the host answers a line with a frame and stays. -/
def Answers (host : η) (reply : List String → String → Answer) : Prop :=
  ∀ past line, (answer (after host past) line).1 = ((reply past line).bytes, false)

theorem after_snoc (host : η) (lines : List String) (line : String) :
    after host (lines ++ [line]) = (answer (after host lines) line).2 := by
  rw [after, List.foldl_append]
  rfl

end HostProcess

/-- The answers to lines, one after another. -/
def answersTo (reply : List String → String → Answer) (past : List String) :
    List String → List Answer
  | [] => []
  | line :: lines => reply past line :: answersTo reply (past ++ [line]) lines

theorem answersTo_append (reply : List String → String → Answer) (past lines more : List String) :
    answersTo reply past (lines ++ more) =
      answersTo reply past lines ++ answersTo reply (past ++ lines) more := by
  induction lines generalizing past with
  | nil => rw [List.append_nil]; rfl
  | cons line lines ih =>
    rw [List.cons_append, answersTo, answersTo, ih, List.append_assoc]
    rfl

theorem length_answersTo (reply : List String → String → Answer) (past lines : List String) :
    (answersTo reply past lines).length = lines.length := by
  induction lines generalizing past with
  | nil => rfl
  | cons line lines ih => rw [answersTo, List.length_cons, List.length_cons, ih]

/-- The replies that answers hold, in their order. -/
def outcomesOf (answers : List Answer) : List Outcome := answers.flatMap Answer.outcomes

theorem outcomesOf_append (a b : List Answer) :
    outcomesOf (a ++ b) = outcomesOf a ++ outcomesOf b := List.flatMap_append

theorem outcomesOf_answersTo_concat (reply : List String → String → Answer) (lines : List String)
    (line : String) :
    outcomesOf (answersTo reply [] (lines ++ [line])) =
      outcomesOf (answersTo reply [] lines) ++ (reply lines line).outcomes := by
  have hone : outcomesOf [reply lines line] = (reply lines line).outcomes :=
    List.flatMap_singleton Answer.outcomes (reply lines line)
  rw [answersTo_append, outcomesOf_append, ← hone]
  rfl

theorem Answer.length_outcomes_pos (a : Answer) : 0 < a.outcomes.length := by
  obtain ⟨text, h⟩ := a.getLast?_outcomes
  exact List.length_pos_of_mem (List.mem_of_getLast? h)

theorem length_le_outcomesOf (answers : List Answer) :
    answers.length ≤ (outcomesOf answers).length := by
  induction answers with
  | nil => exact Nat.le_refl 0
  | cons a answers ih =>
    have ha := a.length_outcomes_pos
    rw [outcomesOf, List.flatMap_cons, List.length_append, List.length_cons]
    unfold outcomesOf at ih
    omega

/-- There is no reply but the frames exactly when all output is text without the marker. -/
theorem length_outcomesOf_eq_iff (answers : List Answer) :
    (outcomesOf answers).length = answers.length ↔ ∀ a ∈ answers, ∃ text, a.HasText text := by
  induction answers with
  | nil => exact ⟨fun _ _ h => absurd h List.not_mem_nil, fun _ => rfl⟩
  | cons a answers ih =>
    have ha := a.length_outcomes_pos
    have hle := length_le_outcomesOf answers
    rw [List.forall_mem_cons, ← ih, ← a.length_outcomes_eq_one_iff, outcomesOf,
      List.flatMap_cons, List.length_append, List.length_cons]
    unfold outcomesOf at hle ⊢
    omega

/-- What an operation fails with. -/
def failureOf {α : Type} : Except EvalError α → Option EvalError
  | .error e => some e
  | .ok _ => none

/-- A use of a connection. -/
inductive Query where
  | request (r : Request)
  | unit (code : String) (given : Bindings)
  | names

namespace Connection

variable {η : Type}

/-- Two connections to the same process, with the same output of it left to read. -/
structure SameWire (c d : Connection η) : Prop where
  host : d.host = c.host
  alive : d.alive = c.alive
  unread : d.unread = c.unread

theorem SameWire.refl (c : Connection η) : c.SameWire c := ⟨rfl, rfl, rfl⟩

variable [HostProcess η]

/-- What a unit comes to with this reply. -/
def evaluationOf (request : Request) : Outcome → Except EvalError Evaluation
  | .ok (.ok result bindings output _, stray) => .ok { result, bindings, output := stray ++ output }
  | .ok (.error failure _, _) => .error failure.toEvalError
  | .ok (response, _) => .error (.protocol (unexpected request response))
  | .error e => .error e

/-- A unit is one exchange. -/
theorem evaluate_spec (c : Connection η) (code : String) (given : Bindings) :
    (c.evaluate code given).1 =
        evaluationOf (.ofUnit code given) (c.exchange (.ofUnit code given)).1 ∧
      (c.exchange (.ofUnit code given)).2.SameWire (c.evaluate code given).2 := by
  unfold evaluate
  rcases h : c.exchange (.ofUnit code given) with ⟨reply | ⟨response, stray⟩, d⟩
  · simp only [h]
    exact ⟨rfl, .refl d⟩
  · cases response with
    | ok result bindings output generation =>
      simp only [h]
      refine ⟨rfl, ?_⟩
      split
      · exact .refl d
      · exact ⟨rfl, rfl, rfl⟩
    | error failure output =>
      simp only [h]
      exact ⟨rfl, .refl d⟩
    | ready version generation =>
      simp only [h]
      exact ⟨rfl, .refl d⟩
    | symbols listing =>
      simp only [h]
      exact ⟨rfl, .refl d⟩

theorem symbols_of_listing {c : Connection η} {listing : Symbols} (h : c.listing = some listing) :
    c.symbols = (.ok listing, c) := by
  unfold symbols
  rw [h]

/-- What a listing comes to with this reply. -/
def listingOf : Outcome → Except EvalError Symbols
  | .ok (.symbols listing, _) => .ok listing
  | .ok (response, _) => .error (.protocol (unexpected .symbols response))
  | .error e => .error e

/-- A listing that is not known yet is one exchange. -/
theorem symbols_spec {c : Connection η} (h : c.listing = none) :
    c.symbols.1 = listingOf (c.exchange .symbols).1 ∧
      (c.exchange .symbols).2.SameWire c.symbols.2 := by
  unfold symbols
  rw [h]
  rcases c.exchange .symbols with ⟨reply | ⟨response, stray⟩, d⟩
  · exact ⟨rfl, .refl d⟩
  · cases response with
    | symbols listing => exact ⟨rfl, rfl, rfl, rfl⟩
    | error failure output => exact ⟨rfl, .refl d⟩
    | ready version generation => exact ⟨rfl, .refl d⟩
    | ok result bindings output generation => exact ⟨rfl, .refl d⟩

/-- A unit fails fatally only if its exchange does. -/
theorem isFatal_of_evaluationOf {request : Request} {reply : Outcome} {e : EvalError}
    (hr : ∀ e, reply = .error e → e.isFatal = false) (h : evaluationOf request reply = .error e) :
    e.isFatal = false := by
  rcases reply with reply | ⟨response, stray⟩
  · cases h
    exact hr _ rfl
  · cases response with
    | ok result bindings output generation => exact absurd h nofun
    | error failure output =>
      cases h
      unfold Failure.toEvalError
      split
      · rfl
      · rfl
    | ready version generation => cases h; rfl
    | symbols listing => cases h; rfl

theorem isFatal_of_listingOf {reply : Outcome} {e : EvalError}
    (hr : ∀ e, reply = .error e → e.isFatal = false) (h : listingOf reply = .error e) :
    e.isFatal = false := by
  rcases reply with reply | ⟨response, stray⟩
  · cases h
    exact hr _ rfl
  · cases response with
    | symbols listing => exact absurd h nofun
    | error failure output => cases h; rfl
    | ready version generation => cases h; rfl
    | ok result bindings output generation => cases h; rfl

/-- The request that a use sends, if it sends one. -/
def request? (c : Connection η) : Query → Option Request
  | .request r => some r
  | .unit code given => some (.ofUnit code given)
  | .names => if c.listing.isSome then none else some .symbols

def ask (c : Connection η) : Query → Connection η
  | .request r => (c.exchange r).2
  | .unit code given => (c.evaluate code given).2
  | .names => c.symbols.2

/-- What a use fails with. -/
def failure? (c : Connection η) : Query → Option EvalError
  | .request r => failureOf (c.exchange r).1
  | .unit code given => failureOf (c.evaluate code given).1
  | .names => failureOf c.symbols.1

def askAll (c : Connection η) (queries : List Query) : Connection η := queries.foldl ask c

/-- The lines that uses send. -/
def sent (c : Connection η) : List Query → List String
  | [] => []
  | q :: queries => ((c.request? q).map Request.encode).toList ++ (c.ask q).sent queries

/-- A use leaves the process where its request leaves it. -/
theorem sameWire_ask (c : Connection η) (q : Query) :
    ((c.request? q).elim c fun r => (c.exchange r).2).SameWire (c.ask q) := by
  cases q with
  | request r => exact .refl _
  | unit code given => exact (c.evaluate_spec code given).2
  | names =>
    cases h : c.listing with
    | none =>
      rw [request?, h, if_neg nofun, ask]
      exact (symbols_spec h).2
    | some listing =>
      rw [request?, h, if_pos Option.isSome_some, ask, symbols_of_listing h]
      exact .refl c

/-- A use fails fatally only if an exchange does. -/
theorem isFatal_of_failure? {c : Connection η}
    (hc : ∀ r e, (c.exchange r).1 = .error e → e.isFatal = false) {q : Query} {e : EvalError}
    (h : c.failure? q = some e) : e.isFatal = false := by
  have key {α : Type} {reply : Except EvalError α} (he : failureOf reply = some e) :
      reply = .error e := by
    cases reply with
    | error e' => exact congrArg Except.error (Option.some.inj he)
    | ok a => exact absurd he nofun
  cases q with
  | request r => exact hc r e (key h)
  | unit code given =>
    exact isFatal_of_evaluationOf (hc _) ((c.evaluate_spec code given).1.symm.trans (key h))
  | names =>
    cases hl : c.listing with
    | none => exact isFatal_of_listingOf (hc _) ((symbols_spec hl).1.symm.trans (key h))
    | some listing =>
      have hs := key h
      rw [symbols_of_listing hl] at hs
      exact absurd hs nofun

theorem exchange_of_alive {c : Connection η} (h : c.alive = true) {r : Request}
    {bytes : List UInt8} (hb : (HostProcess.answer c.host r.encode).1 = (bytes, false)) :
    c.exchange r =
      ((readFrame [] (pieces 10 (c.unread ++ bytes))).1,
        { c with
          host := (HostProcess.answer c.host r.encode).2, alive := true
          unread := joinPieces 10 (readFrame [] (pieces 10 (c.unread ++ bytes))).2 }) := by
  unfold exchange
  rw [if_pos h]
  rcases ha : HostProcess.answer c.host r.encode with ⟨⟨written, exits⟩, host⟩
  rw [ha] at hb
  obtain ⟨rfl, rfl⟩ := Prod.mk.inj hb
  rfl

/-- A read of whole answers gives the first reply and leaves whole answers, with the other replies
in them. -/
theorem readFrame_joinPieces {bs : List UInt8} {reply : Outcome} {more : List Outcome}
    (hc : Closed 10 bs) (hs : Settled (pieces 10 bs))
    (h : outcomes [] (pieces 10 bs) = reply :: more) :
    (readFrame [] (pieces 10 bs)).1 = reply ∧
      let rest := joinPieces 10 (readFrame [] (pieces 10 bs)).2
      Closed 10 rest ∧ Settled (pieces 10 rest) ∧ outcomes [] (pieces 10 rest) = more := by
  obtain ⟨hfirst, before, hsplit, hmore, -⟩ := readFrame_of_outcomes h
  have hsettled := hs.readFrame h
  generalize readFrame [] (pieces 10 bs) = read at hfirst hsplit hmore hsettled
  have hmem {p : List UInt8 × Bool} (hp : p ∈ read.2) : p ∈ pieces 10 bs :=
    hsplit ▸ List.mem_append_right before hp
  have hcut : pieces 10 (joinPieces 10 read.2) = read.2 :=
    pieces_joinPieces fun p hp => ⟨not_mem_of_mem_pieces (hmem hp), hc p (hmem hp)⟩
  refine ⟨hfirst, ?_, ?_, ?_⟩
  · intro p hp
    rw [hcut] at hp
    exact hc p (hmem hp)
  · rw [hcut]
    exact hsettled
  · rw [hcut]
    exact hmore

/-- The connection after these lines: what is unread holds the replies that nobody took. -/
structure Served (host : η) (reply : List String → String → Answer) (lines : List String)
    (c : Connection η) : Prop where
  host : c.host = HostProcess.after host lines
  alive : c.alive = true
  closed : Closed 10 c.unread
  settled : Settled (pieces 10 c.unread)
  left : outcomes [] (pieces 10 c.unread) =
    (outcomesOf (answersTo reply [] lines)).drop lines.length

variable {host : η} {reply : List String → String → Answer} {lines : List String}
  {c : Connection η}

theorem Served.of_sameWire {d : Connection η} (h : Served host reply lines c)
    (hd : c.SameWire d) : Served host reply lines d where
  host := hd.host.trans h.host
  alive := hd.alive.trans h.alive
  closed := hd.unread ▸ h.closed
  settled := hd.unread ▸ h.settled
  left := hd.unread ▸ h.left

/-- The first request takes the first reply, the second one the second. -/
theorem Served.exchange (h : Served host reply lines c) (ha : HostProcess.Answers host reply)
    (r : Request) :
    (outcomesOf (answersTo reply [] (lines ++ [r.encode])))[lines.length]? =
        some (c.exchange r).1 ∧
      Served host reply (lines ++ [r.encode]) (c.exchange r).2 := by
  have hwritten := ha lines r.encode
  rw [← h.host] at hwritten
  have hle := length_le_outcomesOf (answersTo reply [] lines)
  rw [length_answersTo] at hle
  have houtcomes := outcomesOf_answersTo_concat reply lines r.encode
  generalize reply lines r.encode = own at hwritten houtcomes
  have hnow : outcomes [] (pieces 10 (c.unread ++ own.bytes)) =
      (outcomesOf (answersTo reply [] (lines ++ [r.encode]))).drop lines.length := by
    rw [pieces_append h.closed, h.settled, h.left, houtcomes, List.drop_append_of_le_length hle]
    rfl
  have hsettled : Settled (pieces 10 (c.unread ++ own.bytes)) := by
    rw [pieces_append h.closed]
    exact h.settled.append own.settled_bytes
  have hclosed : Closed 10 (c.unread ++ own.bytes) := h.closed.append own.closed_bytes
  have hlt : lines.length < (outcomesOf (answersTo reply [] (lines ++ [r.encode]))).length := by
    have hpos := own.length_outcomes_pos
    rw [houtcomes, List.length_append]
    omega
  rw [List.drop_eq_getElem_cons hlt] at hnow
  obtain ⟨hfirst, hrestClosed, hrestSettled, hrest⟩ := readFrame_joinPieces hclosed hsettled hnow
  rw [exchange_of_alive h.alive hwritten]
  refine ⟨?_, ?_, rfl, hrestClosed, hrestSettled, ?_⟩
  · rw [List.getElem?_eq_getElem hlt, hfirst]
  · rw [HostProcess.after_snoc, ← h.host]
  · rw [hrest, List.length_append]
    rfl

/-- One use sends at most one line. -/
theorem Served.ask (h : Served host reply lines c) (ha : HostProcess.Answers host reply)
    (q : Query) :
    Served host reply (lines ++ ((c.request? q).map Request.encode).toList) (c.ask q) := by
  have hwire := c.sameWire_ask q
  cases hr : c.request? q with
  | none =>
    rw [hr] at hwire
    rw [Option.map_none, Option.toList_none, List.append_nil]
    exact h.of_sameWire hwire
  | some r =>
    rw [hr] at hwire
    exact (h.exchange ha r).2.of_sameWire hwire

theorem Served.askAll (h : Served host reply lines c) (ha : HostProcess.Answers host reply)
    (queries : List Query) :
    Served host reply (lines ++ c.sent queries) (c.askAll queries) := by
  induction queries generalizing lines c with
  | nil =>
    rw [sent, List.append_nil]
    exact h
  | cons q queries ih =>
    rw [sent, ← List.append_assoc]
    exact ih (h.ask ha q)

/-- A connection with nothing left to read starts a life. -/
theorem served_of_unread_nil (reply : List String → String → Answer) {c : Connection η}
    (halive : c.alive = true) (hunread : c.unread = []) : Served c.host reply [] c where
  host := rfl
  alive := halive
  closed := hunread ▸ closed_nil
  settled := hunread ▸ settled_nil
  left := by rw [hunread]; rfl

theorem Served.isFatal_of_exchange (h : Served host reply lines c)
    (ha : HostProcess.Answers host reply) {r : Request} {e : EvalError}
    (he : (c.exchange r).1 = .error e) : e.isFatal = false := by
  have htaken := (h.exchange ha r).1
  rw [he] at htaken
  obtain ⟨a, -, hmem⟩ := List.mem_flatMap.mp (List.mem_of_getElem? htaken)
  exact isFatal_of_mem_outcomes hmem

end Connection

end ScriptShell
