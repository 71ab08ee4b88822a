/-
Which names the global frame has.

A statement whose declarations are in blocks or in bodies of functions adds no name to any
frame, and a source has other declarations only between its statements, since every branch
and every body is a block.  What is left are the declarations that the run comes to there:
`globals_after_run`.
-/
import Betik.Proofs.Machine.Names
import Betik.Proofs.Machine.Unbounded
import Betik.Proofs.Sequence.Run

namespace Betik

theorem Environment.globals_define_nil {env : Environment} (alone : env.locals = [])
    (name : String) (value : Value) :
    (env.define name value).globals = env.globals.put name value := by
  simp [define, alone]

theorem Environment.globals_leaveCall (env : Environment) :
    env.leaveCall.globals = env.globals := by
  unfold leaveCall
  split <;> rfl

def Machine.globalNames (m : Machine) : List String :=
  m.environment.globals.names

theorem Machine.globalNames_of_kept {m m' : Machine}
    (kept : Environment.Kept 0 m.environment m'.environment) :
    m'.globalNames = m.globalNames := by
  have same : m'.names = m.names := kept.others
  have last (m : Machine) : m.names.getLast? = some m.globalNames := by
    simp [names, Environment.names, globalNames]
  exact Option.some.inj (by rw [← last, same, last])

open Betik.Action

/-! ## Statements -/

namespace Stmt

/-- A declaration, or a statement all of whose declarations are in blocks or bodies. -/
def OneDeep : Stmt → Prop
  | declare .. => True
  | s => s.Enclosed

theorem Enclosed.oneDeep {s : Stmt} (h : s.Enclosed) : s.OneDeep := by
  cases s with
  | declare => trivial
  | _ => exact h

def Phrase.Enclosed : Phrase → Prop
  | one s => s.OneDeep
  | cond s | branch s | block s => s.Enclosed
  | body _ => True
  | many ss => ∀ s ∈ ss, s.OneDeep

/-- Branches and bodies are blocks, or conditions whose branches are. -/
theorem Derives.enclosed {look : Lookahead} {ts : List Token} {phrase : Phrase}
    (d : Derives look ts phrase) : phrase.Enclosed := by
  induction d with
  | declare | assign | call | callEnded | print | function | ret | comment | block | body =>
    trivial
  | loop _ _ _ ih | withoutAlternative _ _ _ ih => exact ih
  | condition _ ih | dangling _ _ ih => exact ih.oneDeep
  | withAlternative _ _ _ _ _ yes no => exact ⟨yes, no⟩
  | branchCond _ ih | branchBlock _ ih | empty _ _ ih => exact ih
  | nil => exact fun _ mem => nomatch mem
  | cons _ _ _ first rest => exact List.forall_mem_cons.2 ⟨first, rest⟩

/-- The first of some statements has ended, and the others have if it did as a statement
usually does. -/
theorem runProgram_cons_ended {fuel : Nat} {s : Stmt} {ss : List Stmt} {m m' : Machine}
    {r : Except RuntimeError Unit} (ran : Stmt.runProgram fuel (s :: ss) m = some (r, m')) :
    ∃ r₁ m₁, s.run fuel m = some (r₁, m₁) ∧
      (r₁ = .ok .normal ∧ Stmt.runProgram fuel ss m₁ = some (r, m') ∨
        r₁ ≠ .ok .normal ∧ m₁ = m' ∧ ∀ value, r ≠ .ok value) := by
  obtain ⟨e, failed, rfl⟩ | ⟨flow, m₁, first, ran⟩ := bind_ended ran
  · exact ⟨_, m', failed, .inr ⟨nofun, rfl, nofun⟩⟩
  · refine ⟨_, m₁, first, ?_⟩
    cases flow with
    | normal => exact .inl ⟨rfl, ran⟩
    | returned value =>
      cases ran
      exact .inr ⟨nofun, rfl, nofun⟩

/-- Running the statements from the machine comes to a declaration of the name among
them, and its value is found. -/
def Declared (ss : List Stmt) (m : Machine) (name : String) : Prop :=
  ∃ before line type init after fuel m₁ value m₂,
    ss = before ++ declare line name type init :: after ∧
      Stmt.runProgram fuel before m = some (.ok (), m₁) ∧
      init.eval fuel m₁ = some (.ok value, m₂)

theorem not_declared_nil (m : Machine) (name : String) : ¬Declared [] m name := by
  rintro ⟨before, line, type, init, after, -, -, -, -, split, -⟩
  exact List.append_ne_nil_of_right_ne_nil before (List.cons_ne_nil _ after) split.symm

def Declares (s : Stmt) (m : Machine) (name : String) : Prop :=
  ∃ line type init fuel value m₁, s = declare line name type init ∧
    init.eval fuel m = some (.ok value, m₁)

/-- More than the first statement runs only if that ends and nothing is returned. -/
theorem declared_cons {s : Stmt} {ss : List Stmt} {m : Machine} {name : String} :
    Declared (s :: ss) m name ↔ s.Declares m name ∨
      ∃ fuel m₁, s.run fuel m = some (.ok .normal, m₁) ∧ Declared ss m₁ name := by
  constructor
  · rintro ⟨before, line, type, init, after, fuel, m₁, value, m₂, split, ran, found⟩
    cases before with
    | nil =>
      cases split
      cases ran
      exact .inl ⟨line, type, init, fuel, value, m₂, rfl, found⟩
    | cons t before =>
      injection split with first others
      subst first
      obtain ⟨r₁, m₀, first, ⟨rfl, ran⟩ | ⟨-, -, failed⟩⟩ := runProgram_cons_ended ran
      · exact .inr ⟨fuel, m₀, first, before, line, type, init, after, fuel, m₁, value, m₂, others,
          ran, found⟩
      · exact absurd rfl (failed ())
  · rintro (⟨line, type, init, fuel, value, m₁, rfl, found⟩ |
      ⟨fuel₁, m₁, first, before, line, type, init, after, fuel₂, m₂, value, m₃, rfl, ran, found⟩)
    · exact ⟨[], line, type, init, ss, fuel, m, value, m₁, rfl, rfl, found⟩
    · -- the statement and the others have fuel of their own, and more does no harm
      have first' := Stmt.run_below (Nat.le_max_left fuel₁ fuel₂) s m _ first
      have ran' := Stmt.runProgram_below (Nat.le_max_right fuel₁ fuel₂) before m₁ _ ran
      have found' := Expr.eval_below (Nat.le_max_right fuel₁ fuel₂) init m₂ _ found
      refine ⟨s :: before, line, type, init, after, max fuel₁ fuel₂, m₂, value, m₃, rfl, ?_, found'⟩
      exact (bind_of_ok first').trans ran'

/-- Whether the others come to a declaration is seen on the machine that the first one
leaves. -/
theorem declared_behind_iff {s : Stmt} {ss : List Stmt} {m m₁ : Machine} {fuel : Nat}
    {r₁ : Except RuntimeError Flow} (first : s.run fuel m = some (r₁, m₁)) (name : String) :
    (∃ fuel m₂, s.run fuel m = some (.ok .normal, m₂) ∧ Declared ss m₂ name) ↔
      r₁ = .ok .normal ∧ Declared ss m₁ name := by
  constructor
  · rintro ⟨fuel', m₂, first', declared⟩
    cases s.run_grows.unique ⟨fuel, first⟩ ⟨fuel', first'⟩
    exact ⟨rfl, declared⟩
  · rintro ⟨rfl, declared⟩
    exact ⟨fuel, m₁, first, declared⟩

theorem declares_iff {line : Nat} {name other : String} {type : DataType} {init : Expr}
    {m m₁ : Machine} {fuel : Nat} {r : Except RuntimeError Value}
    (ran : init.eval fuel m = some (r, m₁)) :
    (declare line name type init).Declares m other ↔ name = other ∧ ∃ value, r = .ok value := by
  constructor
  · rintro ⟨_, _, _, fuel', value, m₂, same, found⟩
    cases same
    cases init.eval_grows.unique ⟨fuel, ran⟩ ⟨fuel', found⟩
    exact ⟨rfl, value, rfl⟩
  · rintro ⟨rfl, value, rfl⟩
    exact ⟨line, type, init, fuel, value, m₁, rfl, ran⟩

theorem Enclosed.not_declares {s : Stmt} (enclosed : s.Enclosed) (m : Machine) (name : String) :
    ¬s.Declares m name := by
  rintro ⟨_, _, _, _, _, _, rfl, -⟩
  exact enclosed

/-- What a statement that is no part of another does to the names of the global frame. -/
theorem globals_after_one {s : Stmt} (shape : s.OneDeep) {m m' : Machine} {fuel : Nat}
    {r : Except RuntimeError Flow} (alone : m.environment.locals = [])
    (ran : s.run fuel m = some (r, m')) (name : String) :
    name ∈ m'.globalNames ↔ name ∈ m.globalNames ∨ s.Declares m name := by
  cases s with
  | declare line declared type init =>
    cases fuel with
    | zero => cases ran
    | succ fuel =>
      have kept := (keepsNamesOn_eval fuel).1 init m
      obtain ⟨e, failed, rfl⟩ | ⟨value, m₁, evaluated, ran⟩ := bind_ended ran
      · have same := Machine.globalNames_of_kept (kept.ends _ m' failed)
        simp [declares_iff failed, same]
      · have same := Machine.globalNames_of_kept (kept.ends _ m₁ evaluated)
        have stack := (closed_disciplined.everywhere fuel).eval init m |>.restores _ _ evaluated
        have alone₁ : m₁.environment.locals = [] :=
          List.eq_nil_of_length_eq_zero (by rw [stack.shape.frames, alone]; rfl)
        have put : (m₁.environment.define declared value).globals.names =
            if declared ∈ m.globalNames then m.globalNames else m.globalNames ++ [declared] := by
          rw [Environment.globals_define_nil alone₁, Table.names_put, ← same]
          rfl
        cases ran
        rw [declares_iff evaluated, Machine.globalNames, put]
        have succeeds : ∃ v, (Except.ok value : Except RuntimeError Value) = .ok v := ⟨value, rfl⟩
        simp only [succeeds, and_true]
        split
        · rename_i known
          refine ⟨.inl, fun found => found.elim id ?_⟩
          rintro rfl
          exact known
        · rw [List.mem_append, List.mem_singleton, eq_comm (a := name)]
  | _ =>
    have enclosed : Enclosed _ := shape
    have kept := ((keepsNamesOn_run fuel).1 _ enclosed m).ends r m' ran
    have same := Machine.globalNames_of_kept kept
    simp [same, Enclosed.not_declares enclosed]

/-- The names of the global frame after statements, however these ended: those that were
there and those of the declarations the run came to. -/
theorem globals_after_all {ss : List Stmt} (shapes : ∀ s ∈ ss, s.OneDeep) {m m' : Machine}
    {fuel : Nat} {r : Except RuntimeError Unit} (alone : m.environment.locals = [])
    (ran : Stmt.runProgram fuel ss m = some (r, m')) (name : String) :
    name ∈ m'.globalNames ↔ name ∈ m.globalNames ∨ Declared ss m name := by
  induction ss generalizing m with
  | nil =>
    cases ran
    simp [not_declared_nil]
  | cons s ss ih =>
    obtain ⟨shape, others⟩ := List.forall_mem_cons.1 shapes
    obtain ⟨r₁, m₁, first, others_run⟩ := runProgram_cons_ended ran
    have here := globals_after_one shape alone first name
    rw [declared_cons, declared_behind_iff first]
    obtain ⟨rfl, ran⟩ | ⟨unusual, rfl, -⟩ := others_run
    · have stack := (closed_disciplined.everywhere fuel).run s m |>.restores _ _ first
      have alone₁ : m₁.environment.locals = [] :=
        List.eq_nil_of_length_eq_zero (by rw [stack.shape.frames, alone]; rfl)
      rw [ih others alone₁ ran, here, or_assoc]
      simp only [true_and]
    · simp only [here, unusual, false_and, or_false]

end Stmt

/-- The names of the global frame after a source was run between the steps of a session,
in success or with an error: those that were there, and those of the declarations among
its statements that the run came to and found a value for. -/
theorem globals_after_run (source : String) (p : Program) (compiled : compile source = .ok p)
    (m : Machine) (rest : m.AtRest) (r : Except Error Unit) (m' : Machine)
    (ended : Ends source m r m') (name : String) :
    name ∈ m'.globalNames ↔ name ∈ m.globalNames ∨ Stmt.Declared p.statements m name := by
  have shapes := Stmt.Derives.enclosed (compile_ok.1 compiled).2
  obtain ⟨fuel, ran⟩ := ended
  simp only [run, compiled, Option.map_eq_some_iff] at ran
  obtain ⟨⟨r₁, m₁⟩, ran, same⟩ := ran
  cases same
  have names {r : Except RuntimeError Unit} {m' : Machine}
      (all : Stmt.runProgram fuel p.statements m = some (r, m')) :=
    Stmt.globals_after_all shapes rest.stack.1 all name
  obtain ⟨r₂, m₂, all, -, rfl⟩ := thenFlush_ended ran
  have after := names all
  exact after

/-- Of two declarations one stands in a block, and the run stops behind both. -/
theorem globals_after_run_stopped :
    let source := "tanımla x tür tamsayı başlangıç 1$ " ++
      "ise (doğru) \x7b tanımla y tür tamsayı başlangıç 2$ \x7d f()$"
    let p : Program := ⟨[.declare 1 "x" .integer (.literal 1 (.integer 1)),
      .cond 1 (.literal 1 (.boolean true))
        (.block 1 [.declare 1 "y" .integer (.literal 1 (.integer 2))]) none,
      .expr 1 (.call 1 "f" [])]⟩
    let m := Machine.new .dynamic defaultCallLimit ⟨[]⟩ {}
    compile source = .ok p ∧ m.AtRest ∧ ∃ m',
      Ends source m (.error (.runtime ⟨.undefinedFunction "f", 1⟩)) m' ∧
        m'.globalNames = ["x"] ∧ ∀ name, Stmt.Declared p.statements m name ↔ name = "x" := by
  intro source p m
  have tokens : tokenize source = [⟨.keyword .declare, "tanımla", 1⟩, ⟨.name, "x", 1⟩,
      ⟨.keyword .typed, "tür", 1⟩, ⟨.keyword (.dataType .integer), "tamsayı", 1⟩,
      ⟨.keyword .initially, "başlangıç", 1⟩, ⟨.integer, "1", 1⟩, ⟨.mark .dollar, "$", 1⟩,
      ⟨.keyword .cond, "ise", 1⟩, ⟨.mark .leftParen, "(", 1⟩,
      ⟨.keyword (.truth true), "doğru", 1⟩, ⟨.mark .rightParen, ")", 1⟩,
      ⟨.mark .leftBrace, "\x7b", 1⟩, ⟨.keyword .declare, "tanımla", 1⟩, ⟨.name, "y", 1⟩,
      ⟨.keyword .typed, "tür", 1⟩, ⟨.keyword (.dataType .integer), "tamsayı", 1⟩,
      ⟨.keyword .initially, "başlangıç", 1⟩, ⟨.integer, "2", 1⟩, ⟨.mark .dollar, "$", 1⟩,
      ⟨.mark .rightBrace, "\x7d", 1⟩, ⟨.name, "f", 1⟩, ⟨.mark .leftParen, "(", 1⟩,
      ⟨.mark .rightParen, ")", 1⟩, ⟨.mark .dollar, "$", 1⟩, ⟨.endOfFile, "", 1⟩] := by
    decide +kernel
  have compiled : compile source = .ok p := by
    rw [compile, tokens]
    with_unfolding_all rfl
  have rest : m.AtRest := .new _ _ _ _
  let m' := { m.flushed with environment := m.environment.define "x" (.integer 1) }
  have ended : Ends source m (.error (.runtime ⟨.undefinedFunction "f", 1⟩)) m' := by
    refine ⟨8, ?_⟩
    rw [run, compiled]
    rfl
  refine ⟨compiled, rest, m', ended, rfl, fun name => ?_⟩
  have names := globals_after_run source p compiled m rest _ m' ended name
  have before : name ∉ m.globalNames := List.not_mem_nil
  have after : name ∈ m'.globalNames ↔ name = "x" := List.mem_singleton
  rw [← after, names, or_iff_right before]

end Betik
