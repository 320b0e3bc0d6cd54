import ScriptShell.Proofs.Host.Exchange

/-!
When a listing of names is up to date. A connection remembers the last listing and the generation
that the last ok frame reported, but a unit that fails may change the names without a word, and a
listing carries no generation at all. The invariant brings the three together: what is remembered is
the listing of some generation between the one stored and the one that the host has by now. An ok
frame makes these two meet, and then the listing is the present one or is dropped.
-/

namespace ScriptShell

open Text

/-- The generation that a frame reports. -/
def Response.generation? : Response → Option Nat
  | .ready _ generation | .ok _ _ _ generation => some generation
  | .error _ _ | .symbols _ => none

namespace HostProcess

variable {η : Type} [HostProcess η]

/-- The host after these requests. -/
def served (host : η) (past : List Request) : η := after host (past.map Request.encode)

theorem served_snoc (host : η) (past : List Request) (r : Request) :
    served host (past ++ [r]) = (answer (served host past) r.encode).2 := by
  rw [served, List.map_append]
  exact after_snoc host (past.map Request.encode) r.encode

/-- What is read of the answer to a request, and the pieces after it. -/
def reading (host : η) (r : Request) : Outcome × List (List UInt8 × Bool) :=
  Connection.readFrame [] (pieces 10 (answer host r.encode).1.1)

/-- A host in step with its requests: each of its answers is one reply. Its generation never falls,
its frames report the generation that it has when they are sent, and its listings are those of that
generation. -/
structure Versioned (host : η) (generation : η → Nat) (names : Nat → Symbols) : Prop where
  inStep : ∀ past r, (reading (served host past) r).2 = []
  grows : ∀ past r, generation (served host past) ≤ generation (served host (past ++ [r]))
  reports : ∀ past r response text g,
    (reading (served host past) r).1 = .ok (response, text) → response.generation? = some g →
      g = generation (served host (past ++ [r]))
  lists : ∀ past r listing text,
    (reading (served host past) r).1 = .ok (.symbols listing, text) →
      listing = names (generation (served host (past ++ [r])))

end HostProcess

namespace Connection

open HostProcess

variable {η : Type}

/-- The generation that an ok frame reports. -/
def okGeneration? : Outcome → Option Nat
  | .ok (.ok _ _ _ generation, _) => some generation
  | _ => none

theorem okGeneration?_eq_some {reply : Outcome} {g : Nat} (h : okGeneration? reply = some g) :
    ∃ response text, reply = .ok (response, text) ∧ response.generation? = some g := by
  rcases reply with e | ⟨response, text⟩
  · exact absurd h nofun
  · cases response with
    | ok result bindings output generation => exact ⟨_, text, rfl, h⟩
    | ready version generation => exact absurd h nofun
    | error failure output => exact absurd h nofun
    | symbols listing => exact absurd h nofun

/-- What an ok frame with this generation changes. -/
def heard (c : Connection η) : Option Nat → Connection η
  | some g => if g = c.generation then c else { c with generation := g, listing := none }
  | none => c

/-- The listing, if there is one, is that of the generation which the host has now. -/
def Current (generation : η → Nat) (names : Nat → Symbols) (c : Connection η) : Prop :=
  ∀ listing, c.listing = some listing → listing = names (generation c.host)

variable [HostProcess η]

/-- A unit is one exchange, and what is stored changes with the generation that it reports; it
succeeds if and only if it reports one. -/
theorem evaluate_heard (c : Connection η) (code : String) (given : Bindings) :
    let x := c.exchange (.ofUnit code given)
    (c.evaluate code given).2 = x.2.heard (okGeneration? x.1) ∧
      ((∃ e, (c.evaluate code given).1 = .ok e) ↔ ∃ g, okGeneration? x.1 = some g) := by
  have hfails {reply : Except EvalError Evaluation} {cause : EvalError}
      (h : reply = .error cause) : (∃ e, reply = .ok e) ↔ ∃ g, (none : Option Nat) = some g := by
    rw [h]
    exact ⟨fun ⟨_, he⟩ => absurd he nofun, fun ⟨_, hg⟩ => absurd hg nofun⟩
  intro x
  unfold evaluate
  rcases hx : c.exchange (.ofUnit code given) with ⟨reply | ⟨response, stray⟩, d⟩
  · have hxd : x = (.error reply, d) := hx
    simp only [hx, hxd]
    exact ⟨rfl, hfails rfl⟩
  · have hxd : x = (.ok (response, stray), d) := hx
    rw [hxd]
    cases response with
    | ok result bindings output generation =>
      simp only [hx]
      exact ⟨rfl, fun _ => ⟨generation, rfl⟩, fun _ => ⟨_, rfl⟩⟩
    | error failure output =>
      simp only [hx]
      exact ⟨rfl, hfails rfl⟩
    | ready version generation =>
      simp only [hx]
      exact ⟨rfl, hfails rfl⟩
    | symbols listing =>
      simp only [hx]
      exact ⟨rfl, hfails rfl⟩

theorem symbols_of_reply {c d : Connection η} {listing : Symbols} {text : String}
    (h : c.listing = none) (hx : c.exchange .symbols = (.ok (.symbols listing, text), d)) :
    c.symbols = (.ok listing, { d with listing := some listing }) := by
  unfold symbols
  rw [h]
  simp only [hx]

/-- A listing that is asked for and given is remembered; otherwise nothing is. -/
theorem symbols_of_listing_none {c : Connection η} (h : c.listing = none) :
    let x := c.exchange .symbols
    (∃ listing text, x.1 = .ok (.symbols listing, text) ∧
      c.symbols = (.ok listing, { x.2 with listing := some listing })) ∨
    (∀ listing, c.symbols.1 ≠ .ok listing) ∧ c.symbols.2 = x.2 := by
  unfold symbols
  rw [h]
  rcases c.exchange .symbols with ⟨reply | ⟨response, text⟩, d⟩
  · exact Or.inr ⟨fun listing => nofun, rfl⟩
  · cases response with
    | symbols listing => exact Or.inl ⟨listing, text, rfl, rfl⟩
    | ok result bindings output generation => exact Or.inr ⟨fun listing => nofun, rfl⟩
    | error failure output => exact Or.inr ⟨fun listing => nofun, rfl⟩
    | ready version generation => exact Or.inr ⟨fun listing => nofun, rfl⟩

/-- An exchange leaves what is remembered alone. -/
theorem exchange_keeps (c : Connection η) (r : Request) :
    (c.exchange r).2.generation = c.generation ∧ (c.exchange r).2.listing = c.listing := by
  unfold exchange
  split
  · exact ⟨rfl, rfl⟩
  · exact ⟨rfl, rfl⟩

theorem exchange_of_unread_nil {c : Connection η} (halive : c.alive = true)
    (hunread : c.unread = []) (r : Request) :
    c.exchange r = ((reading c.host r).1, { c with
      host := (answer c.host r.encode).2, alive := !(answer c.host r.encode).1.2
      unread := joinPieces 10 (reading c.host r).2 }) := by
  unfold exchange
  rw [if_pos halive, hunread]
  rfl

theorem exchange_of_not_alive {c : Connection η} (h : c.alive = false) (r : Request) :
    c.exchange r = (.error (.disconnected ""), c) := by
  unfold exchange
  rw [h]
  rfl

/-- A connection to the host after some requests: nothing is left to read, and what is remembered
lies between the generation that is stored and the one that the host has. -/
structure Tracks (host : η) (generation : η → Nat) (names : Nat → Symbols) (c : Connection η) :
    Prop where
  reached : ∃ past, c.host = served host past
  unread : c.unread = []
  stored : c.generation ≤ generation c.host
  listed : ∀ listing, c.listing = some listing →
    ∃ g, listing = names g ∧ c.generation ≤ g ∧ g ≤ generation c.host

section Invariant

variable {host : η} {generation : η → Nat} {names : Nat → Symbols} {c : Connection η}

/-- An exchange keeps the invariant, and what it is told is true of the host after it. -/
theorem Tracks.exchange (h : Tracks host generation names c)
    (hv : Versioned host generation names) (r : Request) :
    let d := (c.exchange r).2
    Tracks host generation names d ∧
    ∀ response text, (c.exchange r).1 = .ok (response, text) →
      (∀ g, response.generation? = some g → g = generation d.host) ∧
      ∀ listing, response = .symbols listing → listing = names (generation d.host) := by
  cases halive : c.alive with
  | false =>
    rw [exchange_of_not_alive halive]
    exact ⟨h, fun _ _ hreply => absurd hreply nofun⟩
  | true =>
    obtain ⟨past, hpast⟩ := h.reached
    have hgrows := hv.grows past r
    have hnext : (answer c.host r.encode).2 = served host (past ++ [r]) := by
      rw [hpast, served_snoc]
    have hread : reading c.host r = reading (served host past) r := by rw [hpast]
    rw [exchange_of_unread_nil halive h.unread, hnext, hread]
    refine ⟨⟨⟨_, rfl⟩, ?_, ?_, ?_⟩, ?_⟩
    · rw [hv.inStep past r]
      rfl
    · have hstored := h.stored
      rw [hpast] at hstored
      exact Nat.le_trans hstored hgrows
    · intro listing hlisting
      obtain ⟨g, hg, hlow, hhigh⟩ := h.listed listing hlisting
      rw [hpast] at hhigh
      exact ⟨g, hg, hlow, Nat.le_trans hhigh hgrows⟩
    · intro response text hreply
      refine ⟨fun g hg => hv.reports past r response text g hreply hg, ?_⟩
      rintro listing rfl
      exact hv.lists past r listing text hreply

/-- A unit keeps the invariant, and one that succeeds leaves no listing but the present one. -/
theorem Tracks.evaluate (h : Tracks host generation names c)
    (hv : Versioned host generation names) (code : String) (given : Bindings) :
    Tracks host generation names (c.evaluate code given).2 ∧
      ∀ e, (c.evaluate code given).1 = .ok e →
        Current generation names (c.evaluate code given).2 := by
  obtain ⟨hafter, hok⟩ := c.evaluate_heard code given
  obtain ⟨hd, htold⟩ := h.exchange hv (.ofUnit code given)
  rw [hafter]
  generalize (c.exchange (.ofUnit code given)).2 = d at hd htold ⊢
  cases hg : okGeneration? (c.exchange (.ofUnit code given)).1 with
  | none =>
    refine ⟨hd, fun e he => ?_⟩
    obtain ⟨g, hsome⟩ := hok.mp ⟨e, he⟩
    exact absurd (hg.symm.trans hsome) nofun
  | some g =>
    obtain ⟨response, text, hreply, hreports⟩ := okGeneration?_eq_some hg
    have hnow : g = generation d.host := (htold response text hreply).1 g hreports
    rw [heard]
    split
    · next hsame =>
      refine ⟨hd, fun _ _ listing hlisting => ?_⟩
      obtain ⟨g', hg', hlow, hhigh⟩ := hd.listed listing hlisting
      have heq : g' = generation d.host := by omega
      rw [hg', heq]
    · refine ⟨⟨hd.reached, hd.unread, ?_, fun listing hnone => ?_⟩, fun _ _ listing hnone => ?_⟩
      · exact Nat.le_of_eq hnow
      · exact absurd hnone nofun
      · exact absurd hnone nofun

/-- Asking for the names keeps the invariant and keeps the listing that is remembered the present
one; what is given is remembered. Nothing is asked while a listing is remembered. -/
theorem Tracks.symbols (h : Tracks host generation names c)
    (hv : Versioned host generation names) :
    Tracks host generation names c.symbols.2 ∧
    (Current generation names c → Current generation names c.symbols.2) ∧
    ∀ listing, c.symbols.1 = .ok listing → c.symbols.2.listing = some listing := by
  cases hl : c.listing with
  | some listing =>
    rw [symbols_of_listing hl]
    refine ⟨h, id, fun given hgiven => ?_⟩
    rw [hl, Except.ok.inj hgiven]
  | none =>
    obtain ⟨hd, htold⟩ := h.exchange hv .symbols
    obtain ⟨-, hlisting⟩ := c.exchange_keeps .symbols
    rcases symbols_of_listing_none hl with ⟨listing, text, hreply, hsymbols⟩ | ⟨hfails, hsymbols⟩
    · have hnow := (htold _ text hreply).2 listing rfl
      rw [hsymbols]
      generalize (c.exchange .symbols).2 = d at hd hnow ⊢
      refine ⟨⟨hd.reached, hd.unread, hd.stored, fun l hsome => ?_⟩, fun _ l hsome => ?_,
        fun l hgiven => congrArg some (Except.ok.inj hgiven)⟩
      · have heq : listing = l := Option.some.inj hsome
        exact ⟨generation d.host, heq ▸ hnow, hd.stored, Nat.le_refl _⟩
      · have heq : listing = l := Option.some.inj hsome
        exact heq ▸ hnow
    · rw [hl] at hlisting
      refine ⟨hsymbols ▸ hd, fun _ l hsome => ?_, fun l hgiven => absurd hgiven (hfails l)⟩
      rw [hsymbols, hlisting] at hsome
      exact absurd hsome nofun

theorem Tracks.ask (h : Tracks host generation names c) (hv : Versioned host generation names)
    (q : Query) : Tracks host generation names (c.ask q) := by
  cases q with
  | request r => exact (h.exchange hv r).1
  | unit code given => exact (h.evaluate hv code given).1
  | names => exact (h.symbols hv).1

theorem Tracks.askAll (h : Tracks host generation names c) (hv : Versioned host generation names)
    (queries : List Query) : Tracks host generation names (c.askAll queries) := by
  induction queries generalizing c with
  | nil => exact h
  | cons q queries ih => exact ih (h.ask hv q)

/-- As long as nothing but names is asked for, the listing stays the present one. -/
theorem Tracks.current_askAll (h : Tracks host generation names c)
    (hv : Versioned host generation names) (hc : Current generation names c) {asks : List Query}
    (hasks : ∀ q ∈ asks, q = .names) : Current generation names (c.askAll asks) := by
  induction asks generalizing c with
  | nil => exact hc
  | cons q asks ih =>
    obtain ⟨rfl, hrest⟩ := List.forall_mem_cons.mp hasks
    obtain ⟨hnext, hcurrent, -⟩ := h.symbols hv
    exact ih hnext (hcurrent hc) hrest

/-- The invariant holds of a connection that was just opened, and it remembers no listing. Nothing
but a ready frame opens a connection. -/
theorem tracks_of_open? (hv : Versioned host generation names) {binary : String}
    {bootstrap : Option String} {env : NameMap String}
    (ho : (open? host binary bootstrap env).1 = .ok c) :
    Tracks host generation names c ∧ c.listing = none := by
  have hstart : Tracks host generation names ({ host } : Connection η) :=
    ⟨⟨[], rfl⟩, rfl, Nat.zero_le _, fun _ hnone => absurd hnone nofun⟩
  obtain ⟨hd, htold⟩ := hstart.exchange hv (.init bootstrap env)
  obtain ⟨-, hlisting⟩ := ({ host } : Connection η).exchange_keeps (.init bootstrap env)
  rcases hx : ({ host } : Connection η).exchange (.init bootstrap env) with
    ⟨cause | ⟨response, text⟩, d⟩
  · simp only [open?, hx] at ho
    cases cause <;> exact absurd ho nofun
  · simp only [open?, hx] at ho
    rw [hx] at hd hlisting htold
    cases response with
    | ready version g =>
      have hnow : g = generation d.host := (htold _ text rfl).1 g rfl
      obtain rfl := Except.ok.inj ho
      refine ⟨⟨hd.reached, hd.unread, Nat.le_of_eq hnow, fun listing hsome => ?_⟩, hlisting⟩
      exact absurd (hlisting.symm.trans hsome) nofun
    | ok result bindings output g => exact absurd ho nofun
    | error failure output => exact absurd ho nofun
    | symbols listing => exact absurd ho nofun

end Invariant

/-- This use receives an ok frame with another generation than the one stored. -/
def Moved (c : Connection η) : Query → Prop
  | .unit code given =>
    ∃ g, okGeneration? (c.exchange (.ofUnit code given)).1 = some g ∧ g ≠ c.generation
  | .request _ | .names => False

/-- Nothing but another generation makes the connection forget a listing. -/
theorem listing_ask {c : Connection η} {listing : Symbols} (h : c.listing = some listing)
    {q : Query} (hq : ¬c.Moved q) : (c.ask q).listing = some listing := by
  cases q with
  | request r =>
    obtain ⟨-, hkeeps⟩ := c.exchange_keeps r
    exact hkeeps.trans h
  | names =>
    rw [ask, symbols_of_listing h]
    exact h
  | unit code given =>
    obtain ⟨hgeneration, hkeeps⟩ := c.exchange_keeps (.ofUnit code given)
    rw [ask, (c.evaluate_heard code given).1]
    cases hg : okGeneration? (c.exchange (.ofUnit code given)).1 with
    | none => exact hkeeps.trans h
    | some g =>
      have hsame : g = c.generation := Classical.byContradiction fun hne => hq ⟨g, hg, hne⟩
      rw [heard, if_pos (hsame.trans hgeneration.symm)]
      exact hkeeps.trans h

theorem listing_askAll {c : Connection η} {listing : Symbols} (h : c.listing = some listing)
    {queries : List Query}
    (hq : ∀ before q after, queries = before ++ q :: after → ¬(c.askAll before).Moved q) :
    (c.askAll queries).listing = some listing := by
  induction queries generalizing c with
  | nil => exact h
  | cons q queries ih =>
    have hnext := listing_ask h (hq [] q queries rfl)
    exact ih hnext fun before r after hsplit =>
      hq (q :: before) r after (congrArg (q :: ·) hsplit)

/-- Take a host in step with its requests, whose listing is that of its generation, whose generation
never falls and is reported by its ready and ok frames, and any use of a connection to it. If no
unit has failed since the last one that succeeded, or since the connection was opened, so that
nothing but names was asked for since then, a listing that is given is that of the generation which
the host has now. And nothing is sent for a listing unless an ok frame has brought another
generation than the one stored, since each listing that was given before. -/
theorem symbols_current {host : η} {generation : η → Nat} {names : Nat → Symbols}
    (hv : Versioned host generation names) {binary : String} {bootstrap : Option String}
    {env : NameMap String} {c : Connection η}
    (ho : (open? host binary bootstrap env).1 = .ok c) (history : List Query) :
    (∀ earlier asks, history = earlier ++ asks → (∀ q ∈ asks, q = .names) →
      (earlier = [] ∨ ∃ past code given e, earlier = past ++ [.unit code given] ∧
        ((c.askAll past).evaluate code given).1 = .ok e) →
      ∀ listing, (c.askAll history).symbols.1 = .ok listing →
        listing = names (generation (c.askAll history).symbols.2.host)) ∧
    ((∃ listing, (c.askAll history).symbols = (.ok listing, c.askAll history)) ∨
      ∀ before after listing, history = before ++ .names :: after →
        (c.askAll before).symbols.1 = .ok listing →
        ∃ middle q rest, after = middle ++ q :: rest ∧
          (c.askAll (before ++ .names :: middle)).Moved q) := by
  obtain ⟨hopen, hnone⟩ := tracks_of_open? hv ho
  have happend (a b : List Query) : c.askAll (a ++ b) = (c.askAll a).askAll b := List.foldl_append
  constructor
  · rintro earlier asks rfl hasks hearlier listing hgiven
    have htracks := hopen.askAll hv earlier
    have hsettled : Current generation names (c.askAll earlier) := by
      rcases hearlier with rfl | ⟨past, code, given, e, rfl, he⟩
      · exact fun l hl => absurd (hnone.symm.trans hl) nofun
      · rw [happend]
        exact ((hopen.askAll hv past).evaluate hv code given).2 e he
    have hcurrent := htracks.current_askAll hv hsettled hasks
    rw [happend] at hgiven ⊢
    obtain ⟨-, hkeeps, hremembered⟩ := (htracks.askAll hv asks).symbols hv
    exact hkeeps hcurrent listing (hremembered listing hgiven)
  · cases hl : (c.askAll history).listing with
    | some listing => exact Or.inl ⟨listing, symbols_of_listing hl⟩
    | none =>
      refine Or.inr fun before after listing hsplit hgiven => ?_
      apply Classical.byContradiction
      intro hno
      have hremembered := ((hopen.askAll hv before).symbols hv).2.2 listing hgiven
      have hstill : ((c.askAll before).symbols.2.askAll after).listing = some listing := by
        apply listing_askAll hremembered
        intro middle q rest hafter hmoved
        refine hno ⟨middle, q, rest, hafter, ?_⟩
        rw [happend]
        exact hmoved
      rw [hsplit, happend] at hl
      exact absurd (hl.symm.trans hstill) nofun

end Connection

/-- A host that comes to know a function in its first unit, which fails. -/
structure Registry where
  grown : Bool

namespace Registry

/-- An answer with no output before it. -/
def plain (payload : String) (response : Response) (oneLine : '\n' ∉ payload.toList)
    (decodes : Response.spelled? payload.toList = some response) : Answer :=
  { stray := [], payload := payload.toList, response, oneLine, decodes }

def ready : Answer :=
  plain "\x7b\"status\":\"ready\",\"version\":\"8.3.0\",\"generation\":0\x7d" (.ready "8.3.0" 0)
    (by decide) (by decide)

def failed : Answer :=
  plain
    "\x7b\"status\":\"error\",\"error\":\x7b\"kind\":\"Error\",\"message\":\"boom\"\x7d\x7d"
    (.error { kind := "Error", message := "boom" } "") (by decide) (by decide)

def done : Answer :=
  plain "\x7b\"status\":\"ok\",\"generation\":1\x7d" (.ok none ∅ "" 1) (by decide) (by decide)

def nothing : Answer :=
  plain "\x7b\"status\":\"symbols\"\x7d" (.symbols {}) (by decide) (by decide)

def something : Answer :=
  plain "\x7b\"status\":\"symbols\",\"functions\":[\"f\"]\x7d" (.symbols { functions := ["f"] })
    (by decide) (by decide)

def startLine : String := (Request.init none ∅).encode

def reply (h : Registry) (line : String) : Answer :=
  if line = Request.symbols.encode then if h.grown then something else nothing
  else if h.grown then done
  else if line = startLine then ready
  else failed

def next (h : Registry) (line : String) : Registry :=
  ⟨h.grown || (line != Request.symbols.encode && line != startLine)⟩

instance : HostProcess Registry := ⟨fun h line => (((h.reply line).bytes, false), h.next line)⟩

def generation (h : Registry) : Nat := if h.grown then 1 else 0

def names (generation : Nat) : Symbols :=
  { functions := if generation = 0 then [] else ["f"] }

theorem reading_eq (h : Registry) (r : Request) :
    HostProcess.reading h r = (.ok ((h.reply r.encode).response, ""), []) := by
  have hquiet : (h.reply r.encode).HasText [] := by
    refine ⟨?_, Frame.cutAt?_eq_none_iff.mp (by decide)⟩
    unfold reply
    split
    · split <;> rfl
    · split
      · rfl
      · split <;> rfl
  exact Answer.readFrame_of_hasText hquiet

theorem asked_names (h : Registry) :
    h.reply Request.symbols.encode = (if h.grown then something else nothing) ∧
      h.next Request.symbols.encode = h := by
  refine ⟨if_pos rfl, ?_⟩
  rw [next, bne_self_eq_false, Bool.false_and, Bool.or_false]

theorem asked_to_start : reply ⟨false⟩ startLine = ready ∧ next ⟨false⟩ startLine = ⟨false⟩ := by
  have hs : startLine ≠ Request.symbols.encode := by decide +kernel
  refine ⟨(if_neg hs).trans ((if_neg Bool.false_ne_true).trans (if_pos rfl)), ?_⟩
  rw [next, bne_self_eq_false, Bool.and_false, Bool.or_false]

/-- Any other line stands for a unit. -/
theorem asked_unit {line : String} (hs : line ≠ Request.symbols.encode) (hi : line ≠ startLine)
    (h : Registry) : h.reply line = (if h.grown then done else failed) ∧ h.next line = ⟨true⟩ := by
  refine ⟨(if_neg hs).trans ?_, ?_⟩
  · rw [if_neg hi]
  · rw [next, bne_iff_ne.mpr hs, bne_iff_ne.mpr hi, Bool.and_self, Bool.or_true]

/-- What is answered is true of the host afterwards. -/
theorem truthful (h : Registry) (line : String) :
    (∀ g, (h.reply line).response.generation? = some g → g = generation (h.next line)) ∧
      ∀ listing, (h.reply line).response = .symbols listing →
        listing = names (generation (h.next line)) := by
  obtain ⟨grown⟩ := h
  by_cases hs : line = Request.symbols.encode
  · obtain ⟨hreply, hnext⟩ := asked_names ⟨grown⟩
    rw [hs, hreply, hnext]
    cases grown with
    | true => exact ⟨fun g hg => absurd hg nofun, fun l hl => (Response.symbols.inj hl).symm⟩
    | false => exact ⟨fun g hg => absurd hg nofun, fun l hl => (Response.symbols.inj hl).symm⟩
  · cases grown with
    | true =>
      have hreply : reply ⟨true⟩ line = done := if_neg hs
      rw [hreply]
      exact ⟨fun g hg => (Option.some.inj hg).symm, fun l hl => absurd hl nofun⟩
    | false =>
      by_cases hi : line = startLine
      · obtain ⟨hreply, hnext⟩ := asked_to_start
        rw [hi, hreply, hnext]
        exact ⟨fun g hg => (Option.some.inj hg).symm, fun l hl => absurd hl nofun⟩
      · obtain ⟨hreply, -⟩ := asked_unit hs hi ⟨false⟩
        rw [hreply]
        exact ⟨fun g hg => absurd hg nofun, fun l hl => absurd hl nofun⟩

theorem versioned (h : Registry) : HostProcess.Versioned h generation names := by
  have hnext (past : List Request) (r : Request) :
      HostProcess.served h (past ++ [r]) = (HostProcess.served h past).next r.encode :=
    HostProcess.served_snoc h past r
  refine ⟨fun past r => ?_, fun past r => ?_, fun past r response text g hread hreports => ?_,
    fun past r listing text hread => ?_⟩
  · rw [reading_eq]
  · rw [hnext]
    unfold generation next
    cases (HostProcess.served h past).grown with
    | true => exact Nat.le_refl 1
    | false => exact Nat.zero_le _
  · rw [reading_eq] at hread
    obtain ⟨hresponse, -⟩ := Prod.mk.inj (Except.ok.inj hread)
    rw [hnext]
    exact (truthful _ _).1 g (hresponse ▸ hreports)
  · rw [reading_eq] at hread
    obtain ⟨hresponse, -⟩ := Prod.mk.inj (Except.ok.inj hread)
    rw [hnext]
    exact (truthful _ _).2 listing hresponse

/-- An exchange with this host always succeeds. -/
theorem exchange_eq {c : Connection Registry} (halive : c.alive = true) (hunread : c.unread = [])
    (r : Request) : c.exchange r =
      (.ok ((c.host.reply r.encode).response, ""), { c with host := c.host.next r.encode }) := by
  rw [Connection.exchange_of_unread_nil halive hunread, reading_eq]
  refine congrArg (Prod.mk _) ?_
  obtain ⟨host, alive, unread, version, generation, listing⟩ := c
  obtain rfl : alive = true := halive
  obtain rfl : unread = [] := hunread
  rfl

end Registry

namespace Connection

/-- The listing from before the failure is given once more while the host knows better; the unit
that succeeds brings the present one. -/
theorem symbols_current_regrown :
    let host : Registry := ⟨false⟩
    let c : Connection Registry := { host, version := "8.3.0" }
    let earlier : List Query := [.names, .unit "f();" ∅]
    let history : List Query := earlier ++ [.names, .unit "g();" ∅]
    HostProcess.Versioned host Registry.generation Registry.names ∧
    (open? host "php" none ∅).1 = .ok c ∧
    (c.askAll earlier).symbols = (.ok {}, c.askAll earlier) ∧
    Registry.generation (c.askAll earlier).host = 1 ∧
    ((c.askAll (earlier ++ [.names])).evaluate "g();" ∅).1 = .ok {} ∧
    (c.askAll history).symbols.1 = .ok { functions := ["f"] } ∧
    { functions := ["f"] } =
      Registry.names (Registry.generation (c.askAll history).symbols.2.host) := by
  intro host c earlier history
  have hf : (Request.ofUnit "f();" ∅).encode ≠ Request.symbols.encode ∧
      (Request.ofUnit "f();" ∅).encode ≠ Registry.startLine := by decide +kernel
  have hg : (Request.ofUnit "g();" ∅).encode ≠ Request.symbols.encode ∧
      (Request.ofUnit "g();" ∅).encode ≠ Registry.startLine := by decide +kernel
  let listed : Connection Registry := { c with listing := some {} }
  let failed : Connection Registry := { listed with host := ⟨true⟩ }
  let done : Connection Registry := { failed with generation := 1, listing := none }
  have hopen : (open? host "php" none ∅).1 = .ok c := by
    have hx := Registry.exchange_eq (c := { host }) rfl rfl (.init none ∅)
    have hstart : (Request.init none ∅).encode = Registry.startLine := rfl
    rw [hstart, Registry.asked_to_start.1, Registry.asked_to_start.2] at hx
    simp only [open?, hx]
    rfl
  have hlisted : c.symbols = (.ok {}, listed) := by
    have hx := Registry.exchange_eq (c := c) rfl rfl .symbols
    rw [(Registry.asked_names _).1, (Registry.asked_names _).2] at hx
    exact symbols_of_reply rfl hx
  have hfailed : (listed.evaluate "f();" ∅).2 = failed := by
    have hx := Registry.exchange_eq (c := listed) rfl rfl (.ofUnit "f();" ∅)
    rw [(Registry.asked_unit hf.1 hf.2 _).1, (Registry.asked_unit hf.1 hf.2 _).2] at hx
    rw [(listed.evaluate_heard "f();" ∅).1, hx]
    rfl
  have hdone : failed.evaluate "g();" ∅ = (.ok {}, done) := by
    have hx := Registry.exchange_eq (c := failed) rfl rfl (.ofUnit "g();" ∅)
    rw [(Registry.asked_unit hg.1 hg.2 _).1, (Registry.asked_unit hg.1 hg.2 _).2] at hx
    unfold evaluate
    simp only [hx]
    rfl
  have hagain : done.symbols.1 = .ok { functions := ["f"] } := by
    have hx := Registry.exchange_eq (c := done) rfl rfl .symbols
    rw [(Registry.asked_names _).1, (Registry.asked_names _).2] at hx
    exact congrArg Prod.fst (symbols_of_reply rfl hx)
  have hnames : failed.symbols = (.ok {}, failed) := symbols_of_listing rfl
  have happend (a b : List Query) : c.askAll (a ++ b) = (c.askAll a).askAll b := List.foldl_append
  have hearlier : c.askAll earlier = failed := by
    change (c.symbols.2.evaluate "f();" ∅).2 = failed
    rw [hlisted, hfailed]
  have hstale : c.askAll (earlier ++ [.names]) = failed := by
    rw [happend, hearlier]
    exact congrArg Prod.snd hnames
  have hlast : ((c.askAll (earlier ++ [.names])).evaluate "g();" ∅).1 = .ok {} := by
    rw [hstale, hdone]
  have hsplit : history = earlier ++ [.names] ++ [.unit "g();" ∅] := rfl
  have hhistory : c.askAll history = done := by
    rw [hsplit, happend, hstale]
    exact congrArg Prod.snd hdone
  have hgiven : (c.askAll history).symbols.1 = .ok { functions := ["f"] } := by
    rw [hhistory, hagain]
  have hversioned := Registry.versioned host
  have hlate : history = [] ∨ ∃ past code given e, history = past ++ [.unit code given] ∧
      ((c.askAll past).evaluate code given).1 = .ok e := by
    refine Or.inr ⟨earlier ++ [.names], "g();", ∅, {}, ?_⟩
    exact ⟨hsplit, hlast⟩
  have hpresent := (symbols_current hversioned hopen history).1 history []
    (List.append_nil history).symm (fun q hq => absurd hq List.not_mem_nil) hlate _ hgiven
  refine ⟨hversioned, hopen, ?_, ?_, hlast, hgiven, hpresent⟩
  · rw [hearlier, hnames]
  · rw [hearlier]
    rfl

end Connection

end ScriptShell
