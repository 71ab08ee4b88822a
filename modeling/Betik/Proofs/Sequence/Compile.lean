/-
Compiling two sources with a line feed between them.

The tokens of the first source stay as they are and those of the second move down.  The
parser looks one token beyond a statement: for a dollar sign, which is an empty statement
anyway, and for an alternative, which is why the second source must not begin with one.
So it comes out of the first source where it would have found the end of file, and reads
the second one from its start.
-/
import Betik.Proofs.Lines.Reading
import Betik.Proofs.Sequence.Tokens

namespace Betik

/-! ## Tokens -/

theorem checkTokens_ok {ts : List Token} : checkTokens ts = .ok () ↔ Lacks .unknown ts := by
  unfold checkTokens
  cases found : ts.find? (·.kind = .unknown) with
  | none => simpa [Lacks] using found
  | some t =>
    have mem := List.mem_of_find?_eq_some found
    have unknown : t.kind = .unknown := by simpa using List.find?_some found
    exact iff_of_false (fun h => by cases h) fun known => known t mem unknown

theorem checkTokens_append {ts : List Token} (known : Lacks .unknown ts) (us : List Token) :
    checkTokens (ts ++ us) = checkTokens us := by
  have nothing : ts.find? (·.kind = .unknown) = none := by simpa [Lacks] using known
  rw [checkTokens, List.find?_append, nothing, Option.none_or, checkTokens]

theorem checkTokens_relabel (f : Nat → Nat) (ts : List Token) :
    checkTokens (ts.map (Token.relabel f)) = (checkTokens ts).mapError (LexError.relabel f) := by
  have found : (ts.map (Token.relabel f)).find? (·.kind = .unknown) =
      (ts.find? (·.kind = .unknown)).map (Token.relabel f) := by
    rw [List.find?_map]
    rfl
  rw [checkTokens, checkTokens, found]
  cases ts.find? (·.kind = .unknown) <;> rfl

/-- A source is its tokens and one end of file behind them. -/
theorem tokenize_ends (source : String) : ∃ ts eof, tokenize source = ts ++ [eof] ∧
    eof.kind = .endOfFile ∧ Lacks .endOfFile ts := by
  obtain ⟨pieces, last, laid, split⟩ := (scans_scan 1 source.toList).layout
  refine ⟨pieces.map Prod.snd, _, split, rfl, fun t mem => ?_⟩
  obtain ⟨p, mem', rfl⟩ := List.mem_map.1 mem
  exact laid.inner p mem'

theorem compile_ok {source : String} {p : Program} : compile source = .ok p ↔
    Lacks .unknown (tokenize source) ∧ p.Derives .direct (tokenize source).dropLast := by
  obtain ⟨ts, eof, split, ends, inner⟩ := tokenize_ends source
  rw [← checkTokens_ok, split, List.dropLast_concat, ← parse_eq_ok inner ends [] p, compile, split]
  cases checkTokens (ts ++ [eof]) with
  | error e => exact iff_of_false (fun h => by cases h) fun h => by cases h.1
  | ok =>
    cases parse (ts ++ [eof]) with
    | error e => exact iff_of_false (fun h => by cases h) fun h => by cases h.2
    | ok q =>
      constructor
      · intro h
        exact ⟨rfl, congrArg Except.ok (Except.ok.inj h)⟩
      · intro h
        exact congrArg Except.ok (Except.ok.inj h.2)

theorem compile_call : compile "f()" = .ok ⟨[.expr 1 (.call 1 "f" [])]⟩ := by
  have tokens : tokenize "f()" = [⟨.name, "f", 1⟩, ⟨.mark .leftParen, "(", 1⟩,
      ⟨.mark .rightParen, ")", 1⟩, ⟨.endOfFile, "", 1⟩] := by decide +kernel
  rw [compile_ok, tokens]
  exact ⟨by simp, .cons (.call rfl (.noArguments rfl rfl)) .nil fun h => by cases h⟩

/-! ## Reading on -/

theorem Stmt.Derives.readStatements_append {us : List Token} {ss : List Stmt}
    (d : Derives .direct us (.many ss)) {t : Token} (kind : t.kind ≠ .keyword .otherwise)
    (ts : List Token) :
    readStatements (us ++ t :: ts) = (ss ++ ·) <$> readStatements (t :: ts) := by
  -- of the phrases only sequences stand in front of other statements
  generalize phrase : Phrase.many ss = p at d
  induction d generalizing ss with
  | nil =>
    cases phrase
    cases h : readStatements (t :: ts) <;> simp [h]
  | empty dollar rest ih =>
    rw [List.cons_append, readStatements_empty dollar, ih phrase]
  | @cons us vs s ss first others apart _ ih =>
    cases phrase
    -- a call takes a dollar sign along, which is no loss to the statements after it
    obtain ⟨rest, read, dropped⟩ := first.read (vs ++ t :: ts) (by simp) (apart.append kind ts)
    obtain ⟨u, tail, rfl, notBrace, notEnd⟩ := first.head
    rw [List.append_assoc]
    rw [List.cons_append] at read ⊢
    rw [readStatements_cons, if_neg notEnd, if_neg notBrace, read]
    simp only [Except.ok_bind]
    rw [dropped.readStatements, ih rfl]
    cases readStatements (t :: ts) <;> rfl
  | _ => cases phrase

theorem parse_append {us : List Token} {p : Program} (d : p.Derives .direct us) {t : Token}
    (kind : t.kind ≠ .keyword .otherwise) (ts : List Token) :
    parse (us ++ t :: ts) =
      (fun q => ⟨p.statements ++ q.statements⟩) <$> parse (t :: ts) := by
  have nonempty : (us ++ t :: ts).isEmpty = false := by simp
  rw [parse, nonempty, if_neg Bool.false_ne_true, Stmt.Derives.readStatements_append d kind, parse]
  cases readStatements (t :: ts) <;> rfl

/-- What compiling brings for the second source, where it stands behind the first. -/
def continued (p : Program) (k : Nat) : Except Error Program → Except Error Program
  | .ok q => .ok ⟨p.statements ++ (q.relabel (· + k)).statements⟩
  | .error e => .error (e.relabel (· + k))

theorem compile_append {a b : String} {p : Program} (compiled : compile a = .ok p)
    (apart : ¬nextIs (.keyword .otherwise) (tokenize b)) :
    compile (a ++ "\n" ++ b) = continued p (linesTaken a) (compile b) := by
  obtain ⟨known, d⟩ := compile_ok.1 compiled
  have known' : Lacks .unknown (tokenize a).dropLast :=
    fun t mem => known t (List.dropLast_subset _ mem)
  have check := checkTokens_relabel (· + linesTaken a) (tokenize b)
  have parsed := parse_relabel (f := (· + linesTaken a)) (tokenize b)
  obtain ⟨t, ts, split⟩ := List.exists_cons_of_ne_nil (scans_scan 1 b.toList).ne_nil
  have split' : tokenize b = t :: ts := split
  have kind : (t.relabel (· + linesTaken a)).kind ≠ .keyword .otherwise := by
    simpa [split', nextIs] using apart
  rw [compile, compile, tokenize_append known, checkTokens_append known', check]
  rw [split', List.map_cons] at parsed ⊢
  rw [parse_append d kind, parsed]
  cases checkTokens (t :: ts) with
  | error e => rfl
  | ok => cases parse (t :: ts) <;> rfl

/-- Compiling is compositional. -/
theorem compile_compositional (a b : String) (p : Program) (compiled : compile a = .ok p)
    (apart : ¬nextIs (.keyword .otherwise) (tokenize b)) :
    let k := 1 + Text.lineBreaks a.toList
    (∀ q, compile b = .ok q →
      compile (a ++ "\n" ++ b) = .ok ⟨p.statements ++ (q.relabel (· + k)).statements⟩) ∧
    ∀ e, compile b = .error e → compile (a ++ "\n" ++ b) = .error (e.relabel (· + k)) := by
  intro k
  have whole := compile_append compiled apart
  constructor
  · intro q compiled'
    rw [whole, compiled']
    rfl
  · intro e failed
    rw [whole, failed]
    rfl

theorem compile_compositional_stray :
    compile ("f()" ++ "\n" ++ "\n€") = .error (.lex ⟨"€", 3⟩) := by
  have tokens : tokenize "\n€" = [⟨.unknown, "€", 2⟩, ⟨.endOfFile, "", 2⟩] := by decide +kernel
  have failed : compile "\n€" = .error (.lex ⟨"€", 2⟩) := by
    rw [compile, tokens]
    rfl
  have apart : ¬nextIs (.keyword .otherwise) (tokenize "\n€") := by
    rw [tokens]
    decide
  exact (compile_compositional _ _ _ compile_call apart).2 _ failed

end Betik
