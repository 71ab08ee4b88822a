/-
Prompts take the input line by line.

The lines of the input are fixed before anything runs.  In a whole session the `i`th
prompt that gets to the input is answered by the `i`th line, and at each moment what is
left to read are the lines from the number of answers so far on.  So no line is lost and
none is read twice, and nothing but a prompt reads.
-/
import Betik.Proofs.Trace.World

namespace Betik
namespace Input

/-- The lines of some bytes.  Each has its line feed at its end, except perhaps the
last. -/
def lines : List UInt8 → List (List UInt8)
  | [] => []
  | b :: bs =>
    if b = lineFeed then [b] :: lines bs
    else
      match lines bs with
      | [] => [[b]]
      | line :: rest => (b :: line) :: rest

theorem flatten_lines (bytes : List UInt8) : (lines bytes).flatten = bytes := by
  induction bytes with
  | nil => rfl
  | cons b bs ih =>
    simp only [lines]
    split
    · rw [List.flatten_cons, ih, List.singleton_append]
    · cases later : lines bs with
      | nil =>
        rw [later] at ih
        simp [← ih]
      | cons line rest =>
        rw [later, List.flatten_cons] at ih
        simp [← ih]

/-- The first line is the one that is split off to be read. -/
theorem lines_of_ne_nil {bytes : List UInt8} (more : bytes ≠ []) :
    lines bytes = (splitLine bytes).1 :: lines (splitLine bytes).2 := by
  induction bytes with
  | nil => contradiction
  | cons b bs ih =>
    by_cases ends : b = lineFeed
    · simp [lines, splitLine, ends]
    · by_cases last : bs = []
      · subst last
        simp [lines, splitLine, ends]
      · simp [lines, splitLine, ends, ih last]

theorem lines_readLine (input : Input) :
    lines input.readLine.2.unread = (lines input.unread).drop 1 := by
  rw [readLine_rest]
  by_cases more : input.unread = []
  · rw [more]
    rfl
  · rw [lines_of_ne_nil more]
    rfl

end Input

/-! ## Answers -/

structure Trimmed (line text : String) : Prop where
  ends : ∃ ends : List Char, line.toList = text.toList ++ ends ∧ ∀ c ∈ ends, c = '\n' ∨ c = '\r'
  stops : ∀ c, text.toList.getLast? = some c → c ≠ '\n' ∧ c ≠ '\r'

theorem Input.trimmed_trimEnd (line : String) : Trimmed line (trimEnd line) := by
  let isEnd (c : Char) : Bool := decide (c = '\n' ∨ c = '\r')
  have kept : (trimEnd line).toList = (line.toList.reverse.dropWhile isEnd).reverse :=
    String.toList_ofList
  constructor
  · refine ⟨(line.toList.reverse.takeWhile isEnd).reverse, ?_, fun c mem => ?_⟩
    · rw [kept, ← List.reverse_append, List.takeWhile_append_dropWhile, List.reverse_reverse]
    · have dropped := List.all_eq_true.1 List.all_takeWhile c (List.mem_reverse.1 mem)
      simpa [isEnd] using dropped
  · intro c last
    rw [kept, List.getLast?_reverse] at last
    have stays := List.head?_dropWhile_not isEnd line.toList.reverse
    rw [last] at stays
    simpa [isEnd] using stays

inductive Answered (line : Nat) : Option (List UInt8) → Except RuntimeError Value → Prop
  | text {bytes : List UInt8} {s t : String} (decoded : s.toUTF8 = ⟨bytes.toArray⟩)
    (trimmed : Trimmed s t) : Answered line (some bytes) (.ok (.text t))
  | malformed {bytes : List UInt8} (noText : ∀ s : String, s.toUTF8 ≠ ⟨bytes.toArray⟩) :
    Answered line (some bytes) (.error ⟨.io .invalidText, line⟩)
  | closed : Answered line none (.error ⟨.inputClosed, line⟩)

theorem toUTF8_of_fromUTF8? {bytes : ByteArray} {s : String}
    (decoded : String.fromUTF8? bytes = some s) : s.toUTF8 = bytes := by
  unfold String.fromUTF8? at decoded
  split at decoded
  · cases decoded
    rfl
  · cases decoded

theorem toUTF8_ne_of_fromUTF8? {bytes : ByteArray} (failed : String.fromUTF8? bytes = none)
    (s : String) : s.toUTF8 ≠ bytes := by
  rintro rfl
  rw [String.fromUTF8?, String.toUTF8_eq_toByteArray, dif_pos s.isValidUTF8] at failed
  cases failed

theorem answered_readLine (line : Nat) (input : Input) :
    Answered line (Input.lines input.unread)[0]? (Trace.answerTo line input.readLine.1) := by
  obtain ⟨bytes⟩ := input
  by_cases more : bytes = []
  · subst more
    exact .closed
  · rw [Input.readLine_of_ne_nil more, Input.lines_of_ne_nil more]
    cases decoded : String.fromUTF8? ⟨(Input.splitLine bytes).1.toArray⟩ with
    | none => exact .malformed (toUTF8_ne_of_fromUTF8? decoded)
    | some s => exact .text (toUTF8_of_fromUTF8? decoded) (Input.trimmed_trimEnd s)

/-- A line with nothing in it is no end of the input. -/
theorem Answered.of_blank {line : Nat} {result : Except RuntimeError Value}
    (h : Answered line (some [Input.lineFeed]) result) : result = .ok (.text "") := by
  cases h with
  | @text _ s t decoded trimmed =>
    obtain rfl : s = "\n" := String.toByteArray_inj.1 (by exact decoded)
    obtain ⟨ends, split, -⟩ := trimmed.ends
    have stops := trimmed.stops
    cases chars : t.toList with
    | nil => rw [String.toList_eq_nil_iff.1 chars]
    | cons c cs =>
      rw [chars] at split stops
      obtain ⟨rfl, rest⟩ := List.cons.inj split
      obtain ⟨rfl, -⟩ := List.append_eq_nil_iff.1 rest.symm
      exact absurd rfl (stops '\n' rfl).1
  | malformed noText => exact absurd rfl (noText "\n")

/-! ## Where the input stands -/

/-- The prompts that got to the input, each with its line in the source and with what it
gave. -/
def answers : List Moment → List (Nat × Except RuntimeError Value)
  | [] => []
  | mo :: moments =>
    match mo.deed with
    | .answer line result => (line, result) :: answers moments
    | .statement _ | .call .. | .write .. | .flush _ => answers moments

/-- A prompt gets to the input just if its text was written and flushed, and then what it
gives is the answer. -/
theorem answers_prompt {fuel line : Nat} {text : String} {m m' : Machine}
    {r : Except RuntimeError Value}
    (ran : (Expr.prompt line text).eval (fuel + 1) m = some (r, m')) :
    let asked := (m.sink.write text).1 = .ok () ∧ (m.sink.write text).2.flush.1 = .ok ()
    (asked → answers ((Expr.prompt line text).trace (fuel + 1) m) = [(line, r)]) ∧
      (¬asked → answers ((Expr.prompt line text).trace (fuel + 1) m) = []) := by
  intro asked
  let m₁ : Machine := { m with sink := (m.sink.write text).2 }
  simp only [Expr.eval] at ran
  simp only [Expr.trace]
  cases written : (m.sink.write text).1 with
  | error failure =>
    have failed : Action.write line text m = some (.error ⟨.io failure, line⟩, m₁) := by
      rw [Action.write_run, written]
      rfl
    rw [Trace.andThen_of_error failed]
    exact ⟨fun all => absurd (written.symm.trans all.1) nofun, fun _ => rfl⟩
  | ok =>
    have done : Action.write line text m = some (.ok (), m₁) := by
      rw [Action.write_run, written]
      rfl
    rw [Trace.andThen_of_ok done]
    rw [Action.bind_of_ok done] at ran
    cases flushed : m₁.sink.flush.1 with
    | error failure =>
      have failed : Action.flush line m₁ = some (.error ⟨.io failure, line⟩, m₁.flushed) := by
        rw [Action.flush_run, flushed]
        rfl
      rw [Trace.andThen_of_error failed]
      exact ⟨fun all => absurd (flushed.symm.trans all.2) nofun, fun _ => rfl⟩
    | ok =>
      have through : Action.flush line m₁ = some (.ok (), m₁.flushed) := by
        rw [Action.flush_run, flushed]
        rfl
      rw [Action.bind_of_ok through] at ran
      have gives := Trace.takeAnswer_run line m₁.flushed
      rw [Trace.andThen_of_ok through, Trace.outcome_takeAnswer]
      cases gives.symm.trans ran
      exact ⟨fun _ => rfl, fun not => absurd ⟨written, flushed⟩ not⟩

/-- Each answer uses up one line, and no other deed reads. -/
theorem lines_worldAfter (moments : List Moment) (world : Sink × Input) :
    Input.lines (worldAfter moments world).2.unread =
      (Input.lines world.2.unread).drop (answers moments).length := by
  induction moments generalizing world with
  | nil => rfl
  | cons mo moments ih =>
    obtain ⟨m, deed⟩ := mo
    rw [worldAfter_cons, ih]
    cases deed with
    | statement | call | write | flush => rfl
    | answer line result =>
      have counted : (answers (⟨m, .answer line result⟩ :: moments)).length =
          1 + (answers moments).length := Nat.add_comm _ 1
      rw [counted, ← List.drop_drop]
      exact congrArg _ (Input.lines_readLine world.2)

theorem unread_worldAfter (moments : List Moment) (world : Sink × Input) :
    (worldAfter moments world).2.unread =
      ((Input.lines world.2.unread).drop (answers moments).length).flatten := by
  rw [← lines_worldAfter, Input.flatten_lines]

theorem exists_of_getElem?_answers {moments : List Moment} {i line : Nat}
    {result : Except RuntimeError Value} (h : (answers moments)[i]? = some (line, result)) :
    ∃ before mo after, moments = before ++ mo :: after ∧ (answers before).length = i ∧
      mo.deed = .answer line result := by
  induction moments generalizing i with
  | nil => cases h
  | cons mo moments ih =>
    obtain ⟨m, deed⟩ := mo
    cases deed with
    | statement | call | write | flush =>
      obtain ⟨before, mo', after, rfl, count, same⟩ := ih h
      exact ⟨_ :: before, mo', after, rfl, count, same⟩
    | answer =>
      cases i with
      | zero =>
        cases h
        exact ⟨[], _, moments, rfl, rfl, rfl⟩
      | succ i =>
        obtain ⟨before, mo', after, rfl, count, same⟩ := ih h
        exact ⟨_ :: before, mo', after, rfl, congrArg (· + 1) count, same⟩

/-- What is left to read at a moment. -/
theorem unread_of_chained {bytes : List UInt8} {sink : Sink} {before after : List Moment}
    {mo : Moment} (chained : Chained (sink, ⟨bytes⟩) (before ++ mo :: after)) :
    mo.machine.input.unread = ((Input.lines bytes).drop (answers before).length).flatten := by
  have world : mo.machine.input = (worldAfter before (sink, ⟨bytes⟩)).2 :=
    congrArg Prod.snd chained.at
  rw [world, unread_worldAfter]

theorem answered_of_chained {bytes : List UInt8} {sink : Sink} {before after : List Moment}
    {mo : Moment} (chained : Chained (sink, ⟨bytes⟩) (before ++ mo :: after))
    (truthful : mo.Truthful) {line : Nat} {result : Except RuntimeError Value}
    (same : mo.deed = .answer line result) :
    Answered line (Input.lines bytes)[(answers before).length]? result := by
  obtain ⟨m', taken⟩ := truthful line result same
  rw [Trace.takeAnswer_run] at taken
  cases taken
  have answered := answered_readLine line mo.machine.input
  have world : mo.machine.input = (worldAfter before (sink, ⟨bytes⟩)).2 :=
    congrArg Prod.snd chained.at
  rw [world] at answered ⊢
  rwa [lines_worldAfter, List.getElem?_drop, Nat.add_zero] at answered

/-- Prompts take the input line by line.  In a session on a new machine, of whatever
steps, and also while one more step is under way, each prompt that gets to the input is
answered by the line that follows those of the prompts before it, and at each moment just
the lines after those are left to read.  The prompts that get to the input are those whose
text was written and flushed. -/
theorem prompts_take_lines (scope : Scope) (limit : Nat) (bytes : List UInt8) (sink : Sink)
    (told : List Moment) (m' : Machine)
    (session : Session.Told (.new scope limit ⟨bytes⟩ sink) told m') (fuel : Nat)
    (step : Session.Step) :
    let moments := told ++ step.trace fuel m'
    let lines := Input.lines bytes
    (∀ (i line : Nat) (result : Except RuntimeError Value),
      (answers moments)[i]? = some (line, result) →
      Answered line lines[i]? result ∧
        (lines[i]? = some [Input.lineFeed] → result = .ok (.text ""))) ∧
    (∀ before mo after, moments = before ++ mo :: after →
      mo.machine.input.unread = (lines.drop (answers before).length).flatten) ∧
    m'.input.unread = (lines.drop (answers told).length).flatten ∧
    ∀ k line text (m₁ m₂ : Machine) (result : Except RuntimeError Value),
      (Expr.prompt line text).eval (k + 1) m₁ = some (result, m₂) →
      let asked := (m₁.sink.write text).1 = .ok () ∧ (m₁.sink.write text).2.flush.1 = .ok ()
      (asked → answers ((Expr.prompt line text).trace (k + 1) m₁) = [(line, result)]) ∧
        (¬asked → answers ((Expr.prompt line text).trace (k + 1) m₁) = []) := by
  intro moments lines
  obtain ⟨world, done⟩ := session.accounts
  obtain ⟨chained, truthful⟩ := done fuel step
  change Chained (sink, ⟨bytes⟩) moments at chained
  refine ⟨fun i line result at_i => ?_, fun before mo after split => ?_, ?_, ?_⟩
  · obtain ⟨before, mo, after, split, rfl, same⟩ := exists_of_getElem?_answers at_i
    have mem : mo ∈ moments := by rw [split]; exact List.mem_append_cons_self
    rw [split] at chained
    have answered := answered_of_chained chained (truthful mo mem) same
    refine ⟨answered, fun blank => ?_⟩
    rw [blank] at answered
    exact answered.of_blank
  · rw [split] at chained
    exact unread_of_chained chained
  · have input : m'.input = (worldAfter told (sink, ⟨bytes⟩)).2 := congrArg Prod.snd world
    rw [input, unread_worldAfter]
  · exact fun _ _ _ _ _ _ => answers_prompt

/-- Four lines, of which the second is blank, the third is no text and the last has no
line feed, and five prompts: two in one program, and the last one while it is under way. -/
theorem prompts_take_lines_to_the_end :
    let m := Machine.new .dynamic defaultCallLimit ⟨[120, 13, 10, 10, 255, 10, 121]⟩ {}
    let ask : Session.Step := .expression (.prompt 4 "?")
    ∃ told m', Session.Told m told m' ∧
      answers (told ++ ask.trace 1 m') = [(1, .ok (.text "x")), (2, .ok (.text "")),
        (4, .error ⟨.io .invalidText, 4⟩), (4, .ok (.text "y")),
        (4, .error ⟨.inputClosed, 4⟩)] ∧
      m'.input.unread = ((Input.lines [120, 13, 10, 10, 255, 10, 121]).drop 4).flatten := by
  intro m ask
  let two : Session.Step := .program ⟨[.expr 1 (.prompt 1 ""), .expr 2 (.prompt 2 "")]⟩
  let m₁ : Machine :=
    { m with input := ⟨[255, 10, 121]⟩
             sink := { requests := [.flush, .flush, .write "", .flush, .write ""] } }
  let m₂ : Machine :=
    { m₁ with
      input := ⟨[121]⟩
      sink := { written := "?".toUTF8, requests := .flush :: .write "?" :: m₁.sink.requests } }
  let m₃ : Machine :=
    { m₂ with
      input := ⟨[]⟩
      sink := { written := "??".toUTF8, requests := .flush :: .write "?" :: m₂.sink.requests } }
  have first : two.leaves? 5 m = some m₁ := rfl
  have second : ask.leaves? 1 m₁ = some m₂ := rfl
  have third : ask.leaves? 1 m₂ = some m₃ := rfl
  have session := ((Session.Told.start (m := m)).step 5 two first).step 1 ask second
    |>.step 1 ask third
  refine ⟨_, _, session, rfl, ?_⟩
  exact (prompts_take_lines .dynamic defaultCallLimit _ {} _ _ session 1 ask).2.2.1

end Betik
