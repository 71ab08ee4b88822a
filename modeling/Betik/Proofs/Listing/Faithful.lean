/-
How faithful listings are.

The tokens of a source that is compiled are found by the patterns of their kinds, so its tree
is `Sourced`, and its listing determines the outline.  The texts of prompts and of comments
inside of blocks have to show their ends for that: nothing is escaped.
-/
import Betik.Proofs.Listing.Outline
import Betik.Proofs.Sequence.Compile
import Betik.Proofs.Syntax.Parentheses

namespace Betik

/-! ## Tokens -/

def Token.Found (t : Token) : Prop :=
  ∃ rest, t.kind.Front t.lexeme.toList rest

theorem Scans.found {line : Nat} {cs : List Char} {ts : List Token} (h : Scans line cs ts) :
    ∀ t ∈ ts, t.kind ≠ .endOfFile → t.kind ≠ .unknown → t.Found := by
  induction h with
  | ends =>
    intro t mem other
    rw [List.mem_singleton.1 mem] at other
    exact absurd rfl other
  | token _ heads _ ih =>
    refine List.forall_mem_cons.2 ⟨fun _ known => ?_, ih⟩
    cases heads with
    | front front => exact ⟨_, by simpa using front⟩
    | stray => exact absurd rfl known

theorem Text.mem_of_mem_strip {p : Char → Bool} {c : Char} {cs : List Char}
    (h : c ∈ strip p cs) : c ∈ cs := by
  have inner := (List.dropWhile_sublist _).mem (List.mem_reverse.1 h)
  exact (List.dropWhile_sublist _).mem (List.mem_reverse.1 inner)

namespace Token.Found

variable {t : Token}

theorem admits (h : t.Found) {kind : TokenKind} (same : t.kind = kind) :
    kind.Admits t.lexeme.toList := by
  obtain ⟨rest, front⟩ := h
  exact same ▸ front.admits

theorem isName (h : t.Found) (kind : t.kind = .name) : IsName t.lexeme where
  looks := h.admits kind
  reserved word same := by
    obtain ⟨rest, front⟩ := h
    exact front.reserved kind word (by rw [same])

/-- The word for printing stands where names do, in front of arguments. -/
theorem looksLikeName (h : t.Found) (kind : t.kind.callable) : LooksLikeName t.lexeme := by
  cases same : t.kind with
  | name => exact h.admits same
  | keyword word =>
    have spelled : t.lexeme.toList = word.spelling.toList := h.admits same
    rw [LooksLikeName, spelled]
    exact TokenKind.admits_name_spelling word
  | _ => simp [same, TokenKind.callable] at kind

/-- Decimals may become infinite, but not not-a-number. -/
theorem decimal {x : Float} (h : t.Found) (kind : t.kind = .decimal)
    (value : Number.double? t.lexeme.toList = some x) : Number.Binary64.ofFloat x ≠ .nan := by
  obtain ⟨whole, fraction, lexeme, digits, digits'⟩ := h.admits kind
  rw [lexeme, Number.double?_of_digits digits digits', Option.some.injEq] at value
  intro nan
  have number := Number.isNaN_nearest (Number.natural (whole ++ fraction)) (-fraction.length)
  rw [value, Number.Binary64.eq_nan_of_ofFloat nan, Float.isNaN_eq_decide_eq_nan] at number
  simp at number

theorem text (h : t.Found) (kind : t.kind = .text) :
    '"' ∉ Text.strip (· = '"') t.lexeme.toList := by
  obtain ⟨body, lexeme, inside⟩ := h.admits kind
  rwa [lexeme, Text.strip_quoted inside]

theorem comment (h : t.Found) (kind : t.kind = .comment) :
    '\n' ∉ (Stmt.commentText t.lexeme).toList := by
  obtain ⟨body, lexeme, inside⟩ := h.admits kind
  intro mem
  rw [Stmt.commentText, lexeme, String.toList_ofList] at mem
  have mem := (List.dropWhile_sublist _).mem (Text.mem_of_mem_strip mem)
  simp [inside] at mem

end Token.Found

/-! ## Trees -/

namespace Expr

def Phrase.Sourced : Phrase → Prop
  | level _ e | enclosed e => e.Sourced
  | arguments es | listed es => SourcedAll es

theorem Derives.sourced {ts : List Token} {phrase : Phrase} (d : Derives ts phrase)
    (found : ∀ t ∈ ts, t.Found) : phrase.Sourced := by
  induction d with
  | integer | truth | prompt | noArguments => trivial
  | decimal kind value => exact (found _ (List.mem_singleton_self _)).decimal kind value
  | text kind =>
    simpa [Phrase.Sourced, Expr.Sourced, Literal.Sourced] using
      (found _ (List.mem_singleton_self _)).text kind
  | var kind => exact (found _ (List.mem_singleton_self _)).isName kind
  | call kind _ ih =>
    obtain ⟨callee, others⟩ := List.forall_mem_cons.1 found
    exact ⟨callee.looksLikeName kind, ih others⟩
  | parentheses _ ih | tighter _ _ ih => exact ih found
  | @joined _ _ _ joiner _ _ _ _ _ left right =>
    obtain ⟨found, others⟩ := List.forall_mem_append.1 found
    have operands := And.intro (left found) (right (List.forall_mem_cons.1 others).2)
    cases joiner <;> exact operands
  | enclosed _ _ _ ih | someArguments _ _ _ ih =>
    obtain ⟨-, others⟩ := List.forall_mem_cons.1 found
    exact ih (List.forall_mem_append.1 others).1
  | last _ ih => exact ⟨ih found, trivial⟩
  | more _ _ _ first others =>
    obtain ⟨found, found'⟩ := List.forall_mem_append.1 found
    exact ⟨first found, others (List.forall_mem_cons.1 found').2⟩

end Expr

namespace Stmt

theorem DerivesNames.looks {ts : List Token} {names : List String} (d : DerivesNames ts names)
    (found : ∀ t ∈ ts, t.Found) : ∀ name ∈ names, LooksLikeName name := by
  induction d with
  | last kind => simpa using (found _ (List.mem_singleton_self _)).isName kind |>.looks
  | more kind _ _ ih =>
    obtain ⟨first, others⟩ := List.forall_mem_cons.1 found
    exact List.forall_mem_cons.2 ⟨(first.isName kind).looks, ih (List.forall_mem_cons.1 others).2⟩

theorem DerivesParams.looks {ts : List Token} {names : List String} (d : DerivesParams ts names)
    (found : ∀ t ∈ ts, t.Found) : ∀ name ∈ names, LooksLikeName name := by
  cases d with
  | none => simp
  | some _ inside _ =>
    obtain ⟨-, others⟩ := List.forall_mem_cons.1 found
    exact inside.looks (List.forall_mem_append.1 others).1

def Phrase.Sourced : Phrase → Prop
  | one s | cond s | branch s | block s => s.Sourced
  | body ss | many ss => SourcedAll ss

theorem Derives.sourced {look : Lookahead} {ts : List Token} {phrase : Phrase}
    (d : Derives look ts phrase) (found : ∀ t ∈ ts, t.Found) : phrase.Sourced := by
  induction d with
  | declare _ named _ _ _ value =>
    simp only [List.forall_mem_cons, List.forall_mem_append] at found
    exact ⟨(found.2.1.isName named).looks, value.sourced found.2.2.2.2.2.1⟩
  | assign kind _ value =>
    simp only [List.forall_mem_cons, List.forall_mem_append] at found
    exact ⟨rfl, (found.1.isName kind).looks, value.sourced found.2.2.1⟩
  | call kind arguments =>
    obtain ⟨callee, others⟩ := List.forall_mem_cons.1 found
    exact ⟨rfl, (callee.isName kind).looks, arguments.sourced others⟩
  | callEnded kind arguments =>
    simp only [List.forall_mem_cons, List.forall_mem_append] at found
    exact ⟨rfl, (found.1.isName kind).looks, arguments.sourced found.2.1⟩
  | print _ value | ret _ value =>
    simp only [List.forall_mem_cons, List.forall_mem_append] at found
    exact value.sourced found.2.1
  | loop _ condition _ ih | withoutAlternative _ condition _ ih =>
    simp only [List.forall_mem_cons, List.forall_mem_append] at found
    first
      | exact ⟨condition.sourced found.2.1, ih found.2.2⟩
      | exact ⟨condition.sourced found.2.1, ih found.2.2, trivial⟩
  | condition _ ih | branchCond _ ih | branchBlock _ ih | block _ ih => exact ih found
  | dangling _ _ ih | empty _ _ ih => exact ih (List.forall_mem_cons.1 found).2
  | function _ named params _ ih =>
    simp only [List.forall_mem_cons, List.forall_mem_append] at found
    exact ⟨(found.2.1.isName named).looks, params.looks found.2.2.1, ih found.2.2.2⟩
  | comment kind => exact (found _ (List.mem_singleton_self _)).comment kind
  | withAlternative _ condition _ _ _ first other =>
    simp only [List.forall_mem_cons, List.forall_mem_append] at found
    exact ⟨condition.sourced found.2.1, first found.2.2.1, other found.2.2.2.2⟩
  | body _ _ _ ih =>
    obtain ⟨-, others⟩ := List.forall_mem_cons.1 found
    exact ih (List.forall_mem_append.1 others).1
  | nil => trivial
  | cons _ _ _ first others =>
    obtain ⟨found, found'⟩ := List.forall_mem_append.1 found
    exact ⟨first found, others found'⟩

end Stmt

theorem sourced_of_compile {source : String} {p : Program} (h : compile source = .ok p) :
    p.Sourced := by
  obtain ⟨known, d⟩ := compile_ok.1 h
  obtain ⟨ts, eof, split, -, inner⟩ := tokenize_ends source
  have found := (scans_scan 1 source.toList).found
  rw [split, List.dropLast_concat] at d
  refine Stmt.Derives.sourced d fun t mem => ?_
  have mem' : t ∈ tokenize source := split ▸ List.mem_append_left _ mem
  exact found t mem' (inner t mem) (known t mem')

/-- Which programs have one listing: those of one outline, provided that the texts show their
ends.  If moreover no decimal is infinite, they are the programs that differ in lines only. -/
theorem render_eq_iff (a b : String) (p q : Program) (compiled : compile a = .ok p)
    (compiled' : compile b = .ok q) (late : Late p.quotes) (late' : Late q.quotes) :
    (p.render = q.render ↔ p.outline = q.outline) ∧
    (NoInfinite (Stmt.literalsAll p.statements) → NoInfinite (Stmt.literalsAll q.statements) →
      (p.render = q.render ↔ p.relabel (fun _ => 0) = q.relabel fun _ => 0)) := by
  have told : p.render = q.render ↔ p.outline = q.outline := by
    refine ⟨Program.outline_of_render (sourced_of_compile compiled)
      (sourced_of_compile compiled') late late', fun same => ?_⟩
    rw [← p.render_outline, same, q.render_outline]
  refine ⟨told, fun finite finite' => ?_⟩
  rw [told, Program.outline, Program.outline, Stmt.outlineAll_eq _ finite,
    Stmt.outlineAll_eq _ finite']
  rfl

/-- One call on two lines, spelled in two ways. -/
theorem render_eq_iff_moved :
    let p : Program := ⟨[.expr 1 (.call 1 "f" [.prompt 1 "ad", .literal 1 (.integer 7)])]⟩
    let q : Program := ⟨[.expr 2 (.call 2 "f" [.prompt 2 "ad", .literal 2 (.integer 7)])]⟩
    compile "f(??ad??, 7)" = .ok p ∧ compile "\nf(??ad??, 07)$" = .ok q ∧
      Late p.quotes ∧ Late q.quotes ∧ p.render = q.render := by
  intro p q
  have tokens : tokenize "f(??ad??, 7)" = [⟨.name, "f", 1⟩, ⟨.mark .leftParen, "(", 1⟩,
      ⟨.prompt, "??ad??", 1⟩, ⟨.mark .comma, ",", 1⟩, ⟨.integer, "7", 1⟩,
      ⟨.mark .rightParen, ")", 1⟩, ⟨.endOfFile, "", 1⟩] := by decide +kernel
  have tokens' : tokenize "\nf(??ad??, 07)$" = [⟨.name, "f", 2⟩, ⟨.mark .leftParen, "(", 2⟩,
      ⟨.prompt, "??ad??", 2⟩, ⟨.mark .comma, ",", 2⟩, ⟨.integer, "07", 2⟩,
      ⟨.mark .rightParen, ")", 2⟩, ⟨.mark .dollar, "$", 2⟩, ⟨.endOfFile, "", 2⟩] := by
    decide +kernel
  have compiled : compile "f(??ad??, 7)" = .ok p := by
    rw [compile, tokens]
    with_unfolding_all rfl
  have compiled' : compile "\nf(??ad??, 07)$" = .ok q := by
    rw [compile, tokens']
    with_unfolding_all rfl
  have late : Late ["ad"] := List.forall_mem_singleton.2 (by decide)
  have finite (line : Nat) : NoInfinite [.prompt line "ad", .literal line (.integer 7)] := by
    intro _ _ mem
    obtain ⟨-, rfl⟩ := by simpa using mem
    exact id
  obtain ⟨-, same⟩ := render_eq_iff _ _ p q compiled compiled' late late
  exact ⟨compiled, compiled', late, late, (same (finite 1) (finite 2)).2 rfl⟩

/-- Two sources of one listing whose programs differ in more than lines. -/
def Confused (a b : String) : Prop :=
  ∃ p q, compile a = .ok p ∧ compile b = .ok q ∧ p.render = q.render ∧
    p.relabel (fun _ => 0) ≠ q.relabel fun _ => 0

/-- A prompt that is written like two. -/
theorem confused_prompts : Confused "f(??a??, ??b??)" "f(??a\") (input \"b??)" := by
  have tokens : tokenize "f(??a??, ??b??)" = [⟨.name, "f", 1⟩, ⟨.mark .leftParen, "(", 1⟩,
      ⟨.prompt, "??a??", 1⟩, ⟨.mark .comma, ",", 1⟩, ⟨.prompt, "??b??", 1⟩,
      ⟨.mark .rightParen, ")", 1⟩, ⟨.endOfFile, "", 1⟩] := by decide +kernel
  have tokens' : tokenize "f(??a\") (input \"b??)" = [⟨.name, "f", 1⟩,
      ⟨.mark .leftParen, "(", 1⟩, ⟨.prompt, "??a\") (input \"b??", 1⟩,
      ⟨.mark .rightParen, ")", 1⟩, ⟨.endOfFile, "", 1⟩] := by decide +kernel
  refine ⟨⟨[.expr 1 (.call 1 "f" [.prompt 1 "a", .prompt 1 "b"])]⟩,
    ⟨[.expr 1 (.call 1 "f" [.prompt 1 "a\") (input \"b"])]⟩, ?_, ?_,
    by decide +kernel, fun same => ?_⟩
  · rw [compile, tokens]
    with_unfolding_all rfl
  · rw [compile, tokens']
    with_unfolding_all rfl
  · simp [Program.relabel, Stmt.relabelAll, Stmt.relabel, Expr.relabel, Expr.relabelAll] at same

/-- A comment that is written like two. -/
theorem confused_comments : Confused "fonksiyon f() \x7b\n@a\n@b\n\x7d"
    "fonksiyon f() \x7b\n@a\") (comment \"b\n\x7d" := by
  have tokens : tokenize "fonksiyon f() \x7b\n@a\n@b\n\x7d" = [
      ⟨.keyword .function, "fonksiyon", 1⟩, ⟨.name, "f", 1⟩, ⟨.mark .leftParen, "(", 1⟩,
      ⟨.mark .rightParen, ")", 1⟩, ⟨.mark .leftBrace, "\x7b", 1⟩, ⟨.comment, "@a", 2⟩,
      ⟨.comment, "@b", 3⟩, ⟨.mark .rightBrace, "\x7d", 4⟩, ⟨.endOfFile, "", 4⟩] := by
    decide +kernel
  have tokens' : tokenize "fonksiyon f() \x7b\n@a\") (comment \"b\n\x7d" = [
      ⟨.keyword .function, "fonksiyon", 1⟩, ⟨.name, "f", 1⟩, ⟨.mark .leftParen, "(", 1⟩,
      ⟨.mark .rightParen, ")", 1⟩, ⟨.mark .leftBrace, "\x7b", 1⟩,
      ⟨.comment, "@a\") (comment \"b", 2⟩, ⟨.mark .rightBrace, "\x7d", 3⟩,
      ⟨.endOfFile, "", 3⟩] := by decide +kernel
  refine ⟨⟨[.function 1 "f" [] [.comment 2 "a", .comment 3 "b"]]⟩,
    ⟨[.function 1 "f" [] [.comment 2 "a\") (comment \"b"]]⟩, ?_, ?_,
    by decide +kernel, fun same => ?_⟩
  · rw [compile, tokens]
    with_unfolding_all rfl
  · rw [compile, tokens']
    with_unfolding_all rfl
  · simp [Program.relabel, Stmt.relabelAll, Stmt.relabel] at same

def huge : List Char :=
  '1' :: (List.replicate 309 '0' ++ ['.', '0'])

/-- An infinite decimal that is written like a variable. -/
theorem confused_decimal :
    Confused "f(inf)" (String.ofList ('f' :: '(' :: (huge ++ [')']))) := by
  have tokens : tokenize "f(inf)" = [⟨.name, "f", 1⟩, ⟨.mark .leftParen, "(", 1⟩,
      ⟨.name, "inf", 1⟩, ⟨.mark .rightParen, ")", 1⟩, ⟨.endOfFile, "", 1⟩] := by decide +kernel
  have tokens' : tokenize (String.ofList ('f' :: '(' :: (huge ++ [')']))) = [⟨.name, "f", 1⟩,
      ⟨.mark .leftParen, "(", 1⟩, ⟨.decimal, String.ofList huge, 1⟩,
      ⟨.mark .rightParen, ")", 1⟩, ⟨.endOfFile, "", 1⟩] := by
    rw [tokenize, String.toList_ofList]
    decide +kernel
  have value : Number.double? huge = some (Number.Binary64.infinite false).toFloat := by
    decide +kernel
  refine ⟨⟨[.expr 1 (.call 1 "f" [.var 1 "inf"])]⟩,
    ⟨[.expr 1 (.call 1 "f" [.literal 1 (.decimal (Number.Binary64.infinite false).toFloat)])]⟩,
    ?_, ?_, by decide +kernel, fun same => ?_⟩
  · rw [compile, tokens]
    with_unfolding_all rfl
  · rw [compile_ok, tokens']
    have value' : Number.double? (String.ofList huge).toList =
        some (Number.Binary64.infinite false).toFloat := by rwa [String.toList_ofList]
    have inside := Expr.Derives.decimal (t := ⟨.decimal, String.ofList huge, 1⟩) rfl value'
    have argument := inside.loosen (show _ ≤ Precedence.logicalOr.height by decide)
    exact ⟨by simp, .cons (.call rfl (.someArguments rfl (.last argument) rfl)) .nil
      fun h => by cases h⟩
  · simp [Program.relabel, Stmt.relabelAll, Stmt.relabel, Expr.relabel, Expr.relabelAll] at same

/-- A listing does not determine the program: texts are not escaped in it. -/
theorem listings_confused :
    Confused "f(??a??, ??b??)" "f(??a\") (input \"b??)" ∧
    Confused "fonksiyon f() \x7b\n@a\n@b\n\x7d"
      "fonksiyon f() \x7b\n@a\") (comment \"b\n\x7d" ∧
    Confused "f(inf)" (String.ofList ('f' :: '(' :: (huge ++ [')']))) :=
  ⟨confused_prompts, confused_comments, confused_decimal⟩

end Betik
