/-
Walks that do what readers do.

A reader is given the tokens that are left, a walk the whole list and its place in it.  A
walk tracks a reader if it ends wherever the same tokens are left: in what the reader ends
in, at the first token that it leaves, or at a token that its error is about.  On its way
every round of a loop has taken something, and no statement is looked for at the end of a
sequence.
-/
import Betik.Proofs.Syntax.Punctual.Expressions
import Betik.Proofs.Walk.Parser

namespace Betik

/-- The error is about the token, and if it says that a literal has no value, then this one
has none. -/
structure Token.Earns (t : Token) (e : ParseError) : Prop where
  about : e.About t
  literal : ∀ line lexeme, e = .invalidLiteral line lexeme → t.atom = .error e

theorem Token.earns_atom {t : Token} {e : ParseError} (h : t.atom = .error e) : t.Earns e :=
  ⟨atom_about h, fun _ _ _ => h⟩

theorem Token.earns_expectedToken (t : Token) (kind : TokenKind) :
    t.Earns (.expectedToken t.line kind t.found) :=
  ⟨⟨rfl, rfl⟩, nofun⟩

theorem Token.earns_expectedDataType (t : Token) : t.Earns (.expectedDataType t.line t.found) :=
  ⟨⟨rfl, rfl⟩, nofun⟩

theorem Token.earns_unexpectedToken (t : Token) : t.Earns (.unexpectedToken t.line t.found) :=
  ⟨⟨rfl, rfl⟩, nofun⟩

namespace Walk

variable {α β γ σ : Type}

theorem andThen_done (w : Walk α) : w.andThen done = w := by
  induction w with
  | done | outOfFuel | fail => rfl
  | look next ih | step next ih | peek sign next ih | ask next ih => exact congrArg _ (funext ih)
  | tell note next ih => exact congrArg _ ih

theorem andThen_assoc (w : Walk α) (f : α → Walk β) (g : β → Walk γ) :
    (w.andThen f).andThen g = w.andThen fun value => (f value).andThen g := by
  induction w with
  | done | outOfFuel | fail => rfl
  | look next ih | step next ih | peek sign next ih | ask next ih => exact congrArg _ (funext ih)
  | tell note next ih => exact congrArg _ ih

instance : LawfulMonad Walk :=
  .mk' Walk andThen_done (fun _ _ => rfl) andThen_assoc

def Turn.elim (leave : α → β) (again : σ → β) : Turn σ α → β
  | .leave value => leave value
  | .again state => again state

/-- A statement is not looked for at the end of a sequence, and a round takes something. -/
def Note.Proper (ts : List Token) : Note → Prop
  | statement place => ∃ t, ts[place]? = some t ∧ t.kind ≠ .endOfFile ∧ t.kind ≠ .mark .rightBrace
  | round _ start stop => start < stop

/-- The journey has come behind the tokens that are taken, or to an error that the token at
its place earns, unless there is none. -/
def Journey.Tells (pre ts : List Token) (j : Journey α) :
    Except ParseError (α × List Token) → Prop
  | .ok (value, rest) => ∃ us, ts = us ++ rest ∧ j.result = .ok value ∧
      j.place = (pre ++ us).length
  | .error e => ∃ place, j.result = .error ⟨e, place⟩ ∧
      (e = .beyondEndOfFile ∧ place = (pre ++ ts).length ∨
        ∃ t, (pre ++ ts)[place]? = some t ∧ t.Earns e)

def TracksAt (pre : List Token) (seen : Nat) (w : Walk α) (ts : List Token)
    (result : Except ParseError (α × List Token)) : Prop :=
  ∃ j, w.run (pre ++ ts) pre.length seen = some j ∧
    (∀ note ∈ j.notes, note.Proper (pre ++ ts)) ∧ j.Tells pre ts result

/-- Whatever is in front of the tokens, the walk ends with the result.  It may be known
which token has been looked at last. -/
def Tracks (last : Option Token) (w : Walk α) (ts : List Token)
    (result : Except ParseError (α × List Token)) : Prop :=
  ∀ pre seen, (∀ t ∈ last, (pre ++ ts)[seen]? = some t) → TracksAt pre seen w ts result

variable {last : Option Token} {t : Token} {ts : List Token} {e : ParseError}
  {result : Except ParseError (α × List Token)}

theorem Tracks.weaken {w : Walk α} (h : Tracks none w ts result) : Tracks last w ts result :=
  fun pre seen _ => h pre seen nofun

theorem TracksAt.behind {pre us : List Token} {seen : Nat} {w : Walk α} {rest : List Token}
    (h : TracksAt (pre ++ us) seen w rest result) (places : List Nat) {notes : List Note}
    (proper : ∀ note ∈ notes, note.Proper (pre ++ (us ++ rest))) :
    ∃ j, (w.run (pre ++ (us ++ rest)) (pre ++ us).length seen).map (Journey.behind places notes) =
        some j ∧
      (∀ note ∈ j.notes, note.Proper (pre ++ (us ++ rest))) ∧ j.Tells pre (us ++ rest) result := by
  obtain ⟨j, ran, proper', tells⟩ := h
  rw [List.append_assoc] at ran proper'
  refine ⟨j.behind places notes, by rw [ran]; rfl, ?_, ?_⟩
  · intro note mem
    exact (List.mem_append.1 mem).elim (proper note) (proper' note)
  · cases result with
    | error e =>
      obtain ⟨place, failed, why⟩ := tells
      rw [List.append_assoc] at why
      exact ⟨place, failed, why⟩
    | ok p =>
      obtain ⟨vs, rfl, ended, place⟩ := tells
      exact ⟨us ++ vs, (List.append_assoc ..).symm, ended, by rw [← List.append_assoc]; exact place⟩

theorem TracksAt.told {pre : List Token} {seen : Nat} {w : Walk α}
    (h : TracksAt pre seen w ts result) (note : Note) (proper : note.Proper (pre ++ ts)) :
    TracksAt pre seen (tell note w) ts result := by
  have told : ∀ note' ∈ [note], note'.Proper (pre ++ ([] ++ ts)) := by simpa using proper
  rw [← List.append_nil pre] at h
  obtain ⟨j, ran, others⟩ := h.behind [] told
  exact ⟨j, by simpa [run] using ran, others⟩

/-- One walk after another tracks one reader after another. -/
theorem TracksAt.bind {pre : List Token} {seen : Nat} {w : Walk α} {f : α → Walk β}
    {g : α × List Token → Except ParseError (β × List Token)}
    (first : TracksAt pre seen w ts result)
    (second : ∀ us value rest seen, ts = us ++ rest → result = .ok (value, rest) →
      TracksAt (pre ++ us) seen (f value) rest (g (value, rest))) :
    TracksAt pre seen (w >>= f) ts (result >>= g) := by
  obtain ⟨⟨ended, place, seen', places, notes⟩, ran, proper, tells⟩ := first
  cases result with
  | error e =>
    obtain ⟨at_, rfl, why⟩ := tells
    exact ⟨_, run_bind_of_error ran, proper, at_, rfl, why⟩
  | ok p =>
    obtain ⟨value, rest⟩ := p
    obtain ⟨us, rfl, rfl, rfl⟩ := tells
    obtain ⟨j, ran', others⟩ := (second us value rest seen' rfl rfl).behind places proper
    exact ⟨j, (run_bind_of_ok ran).trans ran', others⟩

namespace Tracks

theorem bind {w : Walk α} {f : α → Walk β}
    {g : α × List Token → Except ParseError (β × List Token)} (first : Tracks last w ts result)
    (second : ∀ value rest, result = .ok (value, rest) →
      Tracks none (f value) rest (g (value, rest))) :
    Tracks last (w >>= f) ts (result >>= g) :=
  fun pre seen known => (first pre seen known).bind fun us value rest seen _ read =>
    second value rest read (pre ++ us) seen nofun

/-! ## Single steps -/

theorem done (value : α) : Tracks last (pure value) ts (.ok (value, ts)) :=
  fun pre _ _ => ⟨_, rfl, nofun, [], rfl, rfl, by simp⟩

theorem fail (earns : t.Earns e) : Tracks (some t) (fail e : Walk α) ts (.error e) :=
  fun _ seen known => ⟨_, rfl, nofun, seen, rfl, .inr ⟨t, known t rfl, earns⟩⟩

theorem look_nil {next : Token → Walk α} :
    Tracks last (look next) [] (.error .beyondEndOfFile) := by
  intro pre seen known
  refine ⟨⟨.error ⟨.beyondEndOfFile, pre.length⟩, pre.length, seen, [], []⟩, ?_, nofun, _, rfl,
    .inl ⟨rfl, by simp⟩⟩
  simp [run]

theorem step_nil {next : Token → Walk α} :
    Tracks last (step next) [] (.error .beyondEndOfFile) := by
  intro pre seen known
  refine ⟨⟨.error ⟨.beyondEndOfFile, pre.length⟩, pre.length, seen, [], []⟩, ?_, nofun, _, rfl,
    .inl ⟨rfl, by simp⟩⟩
  simp [run]

theorem look_cons {next : Token → Walk α} (h : Tracks (some t) (next t) (t :: ts) result) :
    Tracks last (look next) (t :: ts) result := by
  intro pre seen known
  have here : (pre ++ t :: ts)[pre.length]? = some t := by simp
  obtain ⟨j, ran, others⟩ := h pre pre.length (by rintro _ ⟨⟩; exact here)
  refine ⟨j, ?_, others⟩
  rw [run, here]
  exact ran

theorem step_cons {next : Token → Walk α} (inside : t.kind ≠ .endOfFile)
    (h : Tracks (some t) (next t) ts result) : Tracks last (step next) (t :: ts) result := by
  intro pre seen known
  have here : (pre ++ t :: ts)[pre.length]? = some t := by simp
  have behind := h (pre ++ [t]) pre.length (by rintro _ ⟨⟩; simp)
  have quiet : ∀ note ∈ [], Note.Proper (pre ++ ([t] ++ ts)) note := nofun
  obtain ⟨j, ran, others⟩ := behind.behind [pre.length + 1] quiet
  refine ⟨j, ?_, others⟩
  rw [run, here]
  simpa [placeBehind, inside] using ran

theorem step_fail {next : Token → Walk α} (refused : next t = Walk.fail e) (earns : t.Earns e) :
    Tracks last (step next) (t :: ts) (.error e) := by
  intro pre seen known
  have here : (pre ++ t :: ts)[pre.length]? = some t := by simp
  refine ⟨⟨.error ⟨e, pre.length⟩, placeBehind t pre.length, pre.length,
    [placeBehind t pre.length], []⟩, ?_, nofun, _, rfl, .inr ⟨t, here, earns⟩⟩
  simp only [run, here, refused]
  rfl

theorem nextIsSign {sign : Mark} {f : Bool → Walk α}
    (h : Tracks last (f (nextIs (.mark sign) ts)) (t :: ts) result) :
    Tracks last (nextIsSign sign >>= f) (t :: ts) result := by
  intro pre seen known
  obtain ⟨j, ran, others⟩ := h pre seen known
  refine ⟨j, ?_, others⟩
  have next : (pre ++ t :: ts).drop (pre.length + 1) = ts := by simp [List.drop_append]
  change (f (nextIs _ ((pre ++ t :: ts).drop _))).run _ _ _ = _
  rw [next]
  exact ran

/-- A statement is looked for where one can be. -/
theorem entry {w : Walk α} (inside : t.kind ≠ .endOfFile) (open_ : t.kind ≠ .mark .rightBrace)
    (h : Tracks none w (t :: ts) result) :
    Tracks last (here >>= fun place => tell (.statement place) w) (t :: ts) result := by
  intro pre seen known
  exact (h pre seen nofun).told _ (by simpa [Note.Proper] using ⟨inside, open_⟩)

theorem current_cons {f : Token → Walk α} (h : Tracks (some t) (f t) (t :: ts) result) :
    Tracks last (current >>= f) (t :: ts) result :=
  look_cons h

theorem take_cons {f : Token → Walk α} (inside : t.kind ≠ .endOfFile)
    (h : Tracks none (f t) ts result) : Tracks last (take >>= f) (t :: ts) result :=
  step_cons inside h.weaken

/-- A token that is refused has been taken all the same. -/
theorem take_refused {f : Token → Walk α} (refused : f t = Walk.fail e) (earns : t.Earns e) :
    Tracks last (take >>= f) (t :: ts) (.error e) :=
  step_fail refused earns

theorem check_cons {kind : TokenKind} {f : Bool → Walk α}
    (h : Tracks (some t) (f (t.kind = kind)) (t :: ts) result) :
    Tracks last (check kind >>= f) (t :: ts) result :=
  look_cons h

theorem accept_yes {kind : TokenKind} {f : Bool → Walk α} (inside : kind ≠ .endOfFile)
    (yes : t.kind = kind) (h : Tracks none (f true) ts result) :
    Tracks last (accept kind >>= f) (t :: ts) result := by
  rw [accept, bind_assoc]
  refine check_cons ?_
  rw [decide_eq_true yes]
  exact take_cons (yes ▸ inside) h

theorem accept_no {kind : TokenKind} {f : Bool → Walk α} (no : t.kind ≠ kind)
    (h : Tracks none (f false) (t :: ts) result) :
    Tracks last (accept kind >>= f) (t :: ts) result := by
  rw [accept, bind_assoc]
  refine check_cons ?_
  rw [decide_eq_false no]
  exact h.weaken

/-- A token that is of the kind. -/
theorem consume_cons {kind : TokenKind} {f : Token → Walk α} (inside : kind ≠ .endOfFile)
    (same : t.kind = kind) (h : Tracks none (f t) ts result) :
    Tracks last (Walk.consume kind >>= f) (t :: ts) result := by
  rw [Walk.consume, bind_assoc]
  refine current_cons ?_
  rw [if_pos same]
  exact take_cons (same ▸ inside) h

/-- A token that is of another kind. -/
theorem consume_other {kind : TokenKind} {f : Token → Walk α} (other : t.kind ≠ kind) :
    Tracks last (Walk.consume kind >>= f) (t :: ts)
      (.error (.expectedToken t.line kind t.found)) := by
  rw [Walk.consume, bind_assoc]
  refine current_cons ?_
  rw [if_neg other]
  exact fail (t.earns_expectedToken kind)

theorem consume {kind : TokenKind} (inside : kind ≠ .endOfFile) :
    Tracks last (Walk.consume kind) ts (scanToken kind ts) := by
  cases ts with
  | nil => exact look_nil
  | cons t ts =>
    rw [scanToken_cons, ← bind_pure (Walk.consume kind)]
    by_cases same : t.kind = kind
    · rw [if_pos same]
      exact consume_cons inside same (done t)
    · rw [if_neg same]
      exact consume_other same

/-! ## Loops -/

theorem loop_succ (name : Loop) (round : σ → Walk (Turn σ α)) (further : α → Walk β) (fuel : Nat)
    (state : σ) : loop name round (fuel + 1) state >>= further = (do
      let start ← here
      match ← round state with
      | .leave value => further value
      | .again state' =>
        let stop ← here
        tell (.round name start stop) (loop name round fuel state' >>= further)) := by
  rw [Walk.loop]
  simp only [bind_assoc]
  refine congrArg _ (funext fun start => congrArg _ (funext fun turn => ?_))
  cases turn <;> rfl

/-- A loop does what its rounds do, and each that does not end it takes something. -/
theorem loop (name : Loop) {round : σ → Walk (Turn σ α)} {further : α → Walk β}
    {scanRound : σ → List Token → Except ParseError (Turn σ α × List Token)}
    {scanFurther : α → List Token → Except ParseError (β × List Token)}
    {scan : σ → List Token → Except ParseError (β × List Token)} {n : Nat}
    (rounds : ∀ state ts, ts.length < n → Tracks none (round state) ts (scanRound state ts))
    (leaves : ∀ value ts, Tracks none (further value) ts (scanFurther value ts))
    (shorter : ∀ state state' ts rest, scanRound state ts = .ok (.again state', rest) →
      rest.length < ts.length)
    (equation : ∀ state ts, scan state ts = scanRound state ts >>= fun p =>
      p.1.elim (scanFurther · p.2) (scan · p.2)) (fuel : Nat) :
    ∀ state (ts : List Token), ts.length < n → ts.length < fuel →
      Tracks none (Walk.loop name round fuel state >>= further) ts (scan state ts) := by
  induction fuel with
  | zero => omega
  | succ fuel ih =>
    intro state ts short enough pre seen _
    rw [equation, loop_succ]
    change TracksAt pre seen (round state >>= fun turn => _) ts _
    refine (rounds state ts short pre seen nofun).bind fun us turn rest seen' split read => ?_
    cases turn with
    | leave value => exact leaves value rest (pre ++ us) seen' nofun
    | again state' =>
      have less := shorter _ _ _ _ read
      have on := ih state' rest (by omega) (by omega) (pre ++ us) seen' nofun
      refine on.told (.round name pre.length (pre ++ us).length) ?_
      subst split
      simp only [Note.Proper, List.length_append] at less ⊢
      omega

end Tracks
end Walk
end Betik
