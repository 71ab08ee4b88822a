/-
The readers without the bounds in their types.

A reader says in its type that it leaves fewer tokens than it got, which is what
makes reading end but stands in the way of rewriting.  A scanner is a reader whose
result has lost that proof.  The lemmas here say of each reader which scanners it is
put together from; nothing else unfolds a reader.
-/
import Betik.Syntax.Parser

namespace Betik

def Parsed.pair {α : Type} {n : Nat} (p : Parsed α n) : α × List Token :=
  (p.value, p.rest)

def scanned {α : Type} {n : Nat} (result : Except ParseError (Parsed α n)) :
    Except ParseError (α × List Token) :=
  result.map Parsed.pair

section

variable {α β : Type} {n m : Nat}

theorem scanned_bind {result : Except ParseError (Parsed α n)}
    {f : Parsed α n → Except ParseError (Parsed β m)}
    {g : α × List Token → Except ParseError (β × List Token)}
    (h : ∀ p, scanned (f p) = g p.pair) : scanned (result >>= f) = scanned result >>= g := by
  cases result with
  | error e => rfl
  | ok p => exact h p

theorem scanned_ok {result : Except ParseError (Parsed α n)} {value : α} {rest : List Token} :
    scanned result = .ok (value, rest) ↔ ∃ short, result = .ok ⟨value, rest, short⟩ := by
  cases result with
  | error e => simp [scanned, Except.map]
  | ok p =>
    obtain ⟨v, r, short⟩ := p
    simp only [scanned, Except.map, Parsed.pair, Except.ok.injEq, Prod.mk.injEq, Parsed.mk.injEq,
      exists_prop]
    exact ⟨fun h => ⟨h.2 ▸ short, h⟩, fun h => h.2⟩

@[simp] theorem Except.ok_bind {ε : Type} (a : α) (f : α → Except ε β) :
    Except.ok a >>= f = f a := rfl

theorem Except.bind_eq_ok {ε : Type} {r : Except ε α} {f : α → Except ε β} {b : β} :
    r >>= f = .ok b ↔ ∃ a, r = .ok a ∧ f a = .ok b := by
  cases r with
  | error e => simp [bind, Except.bind]
  | ok a => simp [bind, Except.bind]

end

def scanToken (kind : TokenKind) (ts : List Token) : Except ParseError (Token × List Token) :=
  scanned (expect kind ts)

@[simp] theorem scanToken_nil (kind : TokenKind) :
    scanToken kind [] = .error .beyondEndOfFile := rfl

theorem scanToken_cons (kind : TokenKind) (t : Token) (ts : List Token) :
    scanToken kind (t :: ts) =
      if t.kind = kind then .ok (t, ts) else .error (.expectedToken t.line kind t.found) := by
  simp only [scanToken, expect]
  split <;> rfl

theorem scanToken_of {kind : TokenKind} {t : Token} (h : t.kind = kind) (ts : List Token) :
    scanToken kind (t :: ts) = .ok (t, ts) := by
  rw [scanToken_cons, if_pos h]

theorem scanToken_ok {kind : TokenKind} {ts rest : List Token} {t : Token} :
    scanToken kind ts = .ok (t, rest) ↔ ts = t :: rest ∧ t.kind = kind := by
  cases ts with
  | nil => simp
  | cons t' ts =>
    rw [scanToken_cons]
    split <;> grind

namespace Expr

def scanAt (level : Precedence) (ts : List Token) : Except ParseError (Expr × List Token) :=
  scanned (readAt level ts)

def scanOperands (level : Precedence) (lhs : Expr) (ts : List Token) :
    Except ParseError (Expr × List Token) :=
  scanned (readOperands level lhs ts)

def scanPrimary (ts : List Token) : Except ParseError (Expr × List Token) :=
  scanned (readPrimary ts)

def scanCall (callee : Token) (ts : List Token) : Except ParseError (Expr × List Token) :=
  scanned (readCall callee ts)

def scanArgs (ts : List Token) : Except ParseError (List Expr × List Token) :=
  scanned (readArgs ts)

theorem scanAt_primary (ts : List Token) : scanAt .primary ts = scanPrimary ts := by
  rw [scanAt, readAt]
  rfl

theorem scanAt_of_ne {level : Precedence} (h : level ≠ .primary) (ts : List Token) :
    scanAt level ts = (do
      let (lhs, rest) ← scanAt level.next ts
      scanOperands level lhs rest) := by
  rw [scanAt, readAt, dif_neg h]
  refine scanned_bind fun p => ?_
  rw [scanned_bind fun _ => rfl]
  exact bind_pure _

@[simp] theorem scanOperands_nil (level : Precedence) (lhs : Expr) :
    scanOperands level lhs [] = .error .beyondEndOfFile := by
  rw [scanOperands, readOperands]
  rfl

theorem scanOperands_stop {level : Precedence} {t : Token} (h : t.kind.joinerAt? level = none)
    (lhs : Expr) (ts : List Token) : scanOperands level lhs (t :: ts) = .ok (lhs, t :: ts) := by
  rw [scanOperands, readOperands]
  split
  · rfl
  · rename_i hj
    cases h.symm.trans hj

theorem scanOperands_join {level : Precedence} {t : Token} {joiner : Joiner}
    (h : t.kind.joinerAt? level = some joiner) (lhs : Expr) (ts : List Token) :
    scanOperands level lhs (t :: ts) = (do
      let (rhs, rest) ← scanAt level.next ts
      scanOperands level (join t.line joiner lhs rhs) rest) := by
  rw [scanOperands, readOperands]
  split
  · rename_i hj
    cases h.symm.trans hj
  · rename_i hj
    cases h.symm.trans hj
    refine scanned_bind fun p => ?_
    rw [scanned_bind fun _ => rfl]
    exact bind_pure _

@[simp] theorem scanPrimary_nil : scanPrimary [] = .error .beyondEndOfFile := by
  rw [scanPrimary, readPrimary]
  rfl

theorem scanPrimary_cons (t : Token) (ts : List Token) :
    scanPrimary (t :: ts) =
      if t.kind = .mark .leftParen then do
        let (e, rest) ← scanAt .logicalOr ts
        let (_, rest) ← scanToken (.mark .rightParen) rest
        return (e, rest)
      else if t.kind.callable && nextIs (.mark .leftParen) ts then scanCall t ts
      else do return (← t.atom, ts) := by
  rw [scanPrimary, readPrimary]
  split
  · refine scanned_bind fun p => ?_
    exact scanned_bind fun _ => rfl
  · split
    · rw [scanned_bind fun _ => rfl]
      exact bind_pure _
    · cases t.atom <;> rfl

theorem scanCall_eq (callee : Token) (ts : List Token) :
    scanCall callee ts = (do
      let (_, rest) ← scanToken (.mark .leftParen) ts
      match rest with
      | [] => .error .beyondEndOfFile
      | t :: tail =>
        if t.kind = .mark .rightParen then return (.call callee.line callee.lexeme [], tail)
        else
          let (args, rest) ← scanArgs (t :: tail)
          return (.call callee.line callee.lexeme args, rest)) := by
  rw [scanCall, readCall]
  refine scanned_bind fun p => ?_
  obtain ⟨_, rest, h⟩ := p
  cases rest with
  | nil => rfl
  | cons t tail =>
    simp only [Parsed.pair]
    split
    · rfl
    · exact scanned_bind fun _ => rfl

theorem scanArgs_eq (ts : List Token) :
    scanArgs ts = (do
      let (e, rest) ← scanAt .logicalOr ts
      match rest with
      | [] => .error .beyondEndOfFile
      | t :: tail =>
        if t.kind = .mark .comma then
          let (es, rest) ← scanArgs tail
          return (e :: es, rest)
        else
          let (_, rest) ← scanToken (.mark .rightParen) (t :: tail)
          return ([e], rest)) := by
  rw [scanArgs, readArgs]
  refine scanned_bind fun p => ?_
  obtain ⟨e, rest, h⟩ := p
  cases rest with
  | nil => rfl
  | cons t tail =>
    simp only [Parsed.pair]
    split
    · exact scanned_bind fun _ => rfl
    · exact scanned_bind fun _ => rfl

end Expr

namespace Stmt

def scanDataType (ts : List Token) : Except ParseError (DataType × List Token) :=
  scanned (readDataType ts)

def scanParenthesized (ts : List Token) : Except ParseError (Expr × List Token) :=
  scanned (readParenthesized ts)

def scanNames (ts : List Token) : Except ParseError (List String × List Token) :=
  scanned (readNames ts)

def scanParams (ts : List Token) : Except ParseError (List String × List Token) :=
  scanned (readParams ts)

def scanDeclaration (line : Nat) (ts : List Token) : Except ParseError (Stmt × List Token) :=
  scanned (readDeclaration line ts)

def scanAssignment (name : Token) (ts : List Token) : Except ParseError (Stmt × List Token) :=
  scanned (readAssignment name ts)

def scanCallStatement (callee : Token) (ts : List Token) : Except ParseError (Stmt × List Token) :=
  scanned (readCallStatement callee ts)

def scanPrint (line : Nat) (ts : List Token) : Except ParseError (Stmt × List Token) :=
  scanned (readPrint line ts)

def scanReturn (line : Nat) (ts : List Token) : Except ParseError (Stmt × List Token) :=
  scanned (readReturn line ts)

def scanOne (ts : List Token) : Except ParseError (Option Stmt × List Token) :=
  scanned (readOne ts)

def scanCond (line : Nat) (ts : List Token) : Except ParseError (Stmt × List Token) :=
  scanned (readCond line ts)

def scanBranch (ts : List Token) : Except ParseError (Stmt × List Token) :=
  scanned (readBranch ts)

def scanBlock (ts : List Token) : Except ParseError (Stmt × List Token) :=
  scanned (readBlock ts)

def scanBody (ts : List Token) : Except ParseError (List Stmt × List Token) :=
  scanned (readBody ts)

def scanMany (ts : List Token) : Except ParseError (List Stmt × List Token) :=
  scanned (readMany ts)

@[simp] theorem scanDataType_nil : scanDataType [] = .error .beyondEndOfFile := rfl

theorem scanDataType_cons (t : Token) (ts : List Token) :
    scanDataType (t :: ts) =
      match t.kind with
      | .keyword (.dataType type) => .ok (type, ts)
      | _ => .error (.expectedDataType t.line t.found) := by
  simp only [scanDataType, readDataType]
  generalize t.kind = kind
  cases kind with
  | keyword word => cases word <;> rfl
  | _ => rfl

theorem scanParenthesized_eq (ts : List Token) :
    scanParenthesized ts = (do
      let (_, rest) ← scanToken (.mark .leftParen) ts
      let (e, rest) ← Expr.scanAt .logicalOr rest
      let (_, rest) ← scanToken (.mark .rightParen) rest
      return (e, rest)) := by
  refine scanned_bind fun p => scanned_bind fun q => ?_
  exact scanned_bind fun _ => rfl

theorem scanNames_eq (ts : List Token) :
    scanNames ts = (do
      let (name, rest) ← scanToken .name ts
      match rest with
      | [] => .error .beyondEndOfFile
      | t :: tail =>
        if t.kind = .mark .comma then
          let (names, rest) ← scanNames tail
          return (name.lexeme :: names, rest)
        else
          let (_, rest) ← scanToken (.mark .rightParen) (t :: tail)
          return ([name.lexeme], rest)) := by
  rw [scanNames, readNames]
  refine scanned_bind fun p => ?_
  obtain ⟨name, rest, h⟩ := p
  cases rest with
  | nil => rfl
  | cons t tail =>
    simp only [Parsed.pair]
    split
    · exact scanned_bind fun _ => rfl
    · exact scanned_bind fun _ => rfl

theorem scanParams_eq (ts : List Token) :
    scanParams ts = (do
      let (_, rest) ← scanToken (.mark .leftParen) ts
      match rest with
      | [] => .error .beyondEndOfFile
      | t :: tail =>
        if t.kind = .mark .rightParen then return ([], tail)
        else scanNames (t :: tail)) := by
  refine scanned_bind fun p => ?_
  obtain ⟨_, rest, h⟩ := p
  cases rest with
  | nil => rfl
  | cons t tail =>
    simp only [Parsed.pair]
    split
    · rfl
    · rw [scanned_bind fun _ => rfl]
      exact bind_pure _

theorem scanDeclaration_eq (line : Nat) (ts : List Token) :
    scanDeclaration line ts = (do
      let (name, rest) ← scanToken .name ts
      let (_, rest) ← scanToken (.keyword .typed) rest
      let (type, rest) ← scanDataType rest
      let (_, rest) ← scanToken (.keyword .initially) rest
      let (init, rest) ← Expr.scanAt .logicalOr rest
      let (_, rest) ← scanToken (.mark .dollar) rest
      return (.declare line name.lexeme type init, rest)) := by
  refine scanned_bind fun _ => scanned_bind fun _ => scanned_bind fun _ => ?_
  refine scanned_bind fun _ => scanned_bind fun _ => ?_
  exact scanned_bind fun _ => rfl

theorem scanAssignment_eq (name : Token) (ts : List Token) :
    scanAssignment name ts = (do
      let (_, rest) ← scanToken (.mark .equals) ts
      let (value, rest) ← Expr.scanAt .logicalOr rest
      let (_, rest) ← scanToken (.mark .dollar) rest
      return (.expr name.line (.assign name.line name.lexeme value), rest)) := by
  refine scanned_bind fun _ => scanned_bind fun _ => ?_
  exact scanned_bind fun _ => rfl

theorem scanCallStatement_eq (callee : Token) (ts : List Token) :
    scanCallStatement callee ts = (do
      let (call, rest) ← Expr.scanCall callee ts
      match rest with
      | [] => .error .beyondEndOfFile
      | t :: tail =>
        if t.kind = .mark .dollar then return (.expr callee.line call, tail)
        else return (.expr callee.line call, t :: tail)) := by
  refine scanned_bind fun p => ?_
  obtain ⟨call, rest, h⟩ := p
  cases rest with
  | nil => rfl
  | cons t tail =>
    simp only [Parsed.pair]
    split <;> rfl

theorem scanPrint_eq (line : Nat) (ts : List Token) :
    scanPrint line ts = (do
      let (value, rest) ← scanParenthesized ts
      let (_, rest) ← scanToken (.mark .dollar) rest
      return (.print line value, rest)) := by
  refine scanned_bind fun _ => ?_
  exact scanned_bind fun _ => rfl

theorem scanReturn_eq (line : Nat) (ts : List Token) :
    scanReturn line ts = (do
      let (value, rest) ← Expr.scanAt .logicalOr ts
      let (_, rest) ← scanToken (.mark .dollar) rest
      return (.ret line value, rest)) := by
  refine scanned_bind fun _ => ?_
  exact scanned_bind fun _ => rfl

theorem scanDataType_ok {ts rest : List Token} {type : DataType} :
    scanDataType ts = .ok (type, rest) ↔
      ∃ t, ts = t :: rest ∧ t.kind = .keyword (.dataType type) := by
  cases ts with
  | nil => simp
  | cons t ts =>
    rw [scanDataType_cons]
    split <;> grind

def noted (result : Except ParseError (Stmt × List Token)) :
    Except ParseError (Option Stmt × List Token) := do
  let (s, rest) ← result
  return (some s, rest)

theorem noted_ok {result : Except ParseError (Stmt × List Token)} {s : Option Stmt}
    {rest : List Token} :
    noted result = .ok (s, rest) ↔ ∃ x, s = some x ∧ result = .ok (x, rest) := by
  cases result with
  | error e => simp [noted, bind, Except.bind]
  | ok p =>
    constructor
    · intro h
      cases h
      exact ⟨_, rfl, rfl⟩
    · rintro ⟨x, rfl, h⟩
      cases h
      rfl

theorem scanned_announced {n : Nat} (result : Except ParseError (Parsed Stmt n)) :
    scanned (announced <$> result) = noted (scanned result) := by
  cases result <;> rfl

@[simp] theorem scanOne_nil : scanOne [] = .error .beyondEndOfFile := by
  rw [scanOne, readOne]
  rfl

theorem scanOne_cons (t : Token) (ts : List Token) :
    scanOne (t :: ts) =
      match t.kind with
      | .keyword .declare => noted (scanDeclaration t.line ts)
      | .name =>
        if nextIs (.mark .equals) ts then noted (scanAssignment t ts)
        else if nextIs (.mark .leftParen) ts then noted (scanCallStatement t ts)
        else .error (.unexpectedToken t.line t.found)
      | .keyword .print => noted (scanPrint t.line ts)
      | .keyword .loop => do
        let (condition, rest) ← scanParenthesized ts
        let (body, rest) ← scanBlock rest
        return (some (.loop t.line condition body), rest)
      | .keyword .cond => noted (scanCond t.line ts)
      | .keyword .otherwise => noted (scanBranch ts)
      | .keyword .function => do
        let (name, rest) ← scanToken .name ts
        let (params, rest) ← scanParams rest
        let (body, rest) ← scanBody rest
        return (some (.function t.line name.lexeme params body), rest)
      | .keyword .ret => noted (scanReturn t.line ts)
      | .comment => .ok (some (.comment t.line (commentText t.lexeme)), ts)
      | .mark .dollar => .ok (none, ts)
      | _ => .error (.unexpectedToken t.line t.found) := by
  rw [scanOne, readOne]
  obtain ⟨kind, lexeme, line⟩ := t
  cases kind with
  | keyword word =>
    cases word with
    | loop =>
      refine scanned_bind fun _ => ?_
      exact scanned_bind fun _ => rfl
    | function =>
      refine scanned_bind fun _ => scanned_bind fun _ => ?_
      exact scanned_bind fun _ => rfl
    | declare | print | cond | otherwise | ret => exact scanned_announced _
    | _ => rfl
  | name =>
    simp only
    split
    · exact scanned_announced _
    · split
      · exact scanned_announced _
      · rfl
  | mark sign => cases sign <;> rfl
  | _ => rfl

theorem scanCond_eq (line : Nat) (ts : List Token) :
    scanCond line ts = (do
      let (condition, rest) ← scanParenthesized ts
      let (yes, rest) ← scanBlock rest
      match rest with
      | [] => .error .beyondEndOfFile
      | t :: tail =>
        if t.kind = .keyword .otherwise then
          let (no, rest) ← scanBranch tail
          return (.cond line condition yes (some no), rest)
        else return (.cond line condition yes none, t :: tail)) := by
  rw [scanCond, readCond]
  refine scanned_bind fun _ => scanned_bind fun p => ?_
  obtain ⟨yes, rest, h⟩ := p
  cases rest with
  | nil => rfl
  | cons t tail =>
    simp only [Parsed.pair]
    split
    · exact scanned_bind fun _ => rfl
    · rfl

@[simp] theorem scanBranch_nil : scanBranch [] = .error .beyondEndOfFile := by
  rw [scanBranch, readBranch]
  rfl

theorem scanBranch_cons (t : Token) (ts : List Token) :
    scanBranch (t :: ts) =
      if t.kind = .keyword .cond then scanCond t.line ts else scanBlock (t :: ts) := by
  rw [scanBranch, readBranch]
  split
  · rw [scanned_bind fun _ => rfl]
    exact bind_pure _
  · rfl

@[simp] theorem scanBlock_nil : scanBlock [] = .error .beyondEndOfFile := by
  rw [scanBlock, readBlock]
  rfl

theorem scanBlock_cons (t : Token) (ts : List Token) :
    scanBlock (t :: ts) = (do
      let (body, rest) ← scanBody (t :: ts)
      return (.block t.line body, rest)) := by
  rw [scanBlock, readBlock]
  exact scanned_bind fun _ => rfl

theorem scanBody_eq (ts : List Token) :
    scanBody ts = (do
      let (_, rest) ← scanToken (.mark .leftBrace) ts
      scanMany rest) := by
  rw [scanBody, readBody]
  refine scanned_bind fun _ => ?_
  rw [scanned_bind fun _ => rfl]
  exact bind_pure _

@[simp] theorem scanMany_nil : scanMany [] = .error .beyondEndOfFile := by
  rw [scanMany, readMany]
  rfl

theorem scanMany_cons (t : Token) (ts : List Token) :
    scanMany (t :: ts) =
      if t.kind = .mark .rightBrace then .ok ([], ts)
      else if t.kind = .endOfFile then .error (.expectedToken t.line (.mark .rightBrace) t.found)
      else do
        let (s, rest) ← scanOne (t :: ts)
        let (ss, rest) ← scanMany rest
        return (s.toList ++ ss, rest) := by
  rw [scanMany, readMany]
  split
  · rfl
  · split
    · rfl
    · refine scanned_bind fun _ => ?_
      exact scanned_bind fun _ => rfl

end Stmt

@[simp] theorem readStatements_nil : readStatements [] = .error .beyondEndOfFile := by
  rw [readStatements]

theorem readStatements_cons (t : Token) (ts : List Token) :
    readStatements (t :: ts) =
      if t.kind = .endOfFile then .ok []
      else if t.kind = .mark .rightBrace then .error (.unexpectedToken t.line t.found)
      else do
        let (s, rest) ← Stmt.scanOne (t :: ts)
        return s.toList ++ (← readStatements rest) := by
  rw [readStatements]
  split
  · rfl
  · split
    · rfl
    · cases h : Stmt.readOne (t :: ts) with
      | error e => simp [Stmt.scanOne, scanned, h, bind, Except.bind, Except.map]
      | ok p => simp [Stmt.scanOne, scanned, h, bind, Except.bind, Except.map, Parsed.pair]

end Betik
