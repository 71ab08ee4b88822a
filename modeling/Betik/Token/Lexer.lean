/-
Source to tokens.  Every character that is not blank ends up in exactly one
token; a character that starts no token becomes one of its own, which
`checkTokens` refuses afterwards.
-/
import Betik.Text.Blank
import Betik.Text.Located
import Betik.Token.Basic
import Betik.Token.Pattern

namespace Betik

open Text

def scan (line : Nat) : List Char → List Token
  | [] => [⟨.endOfFile, "", line⟩]
  | c :: cs =>
    if isBlank c then scan (line + lineBreaks [c]) cs
    else
      let (kind, more) := (TokenKind.front? c cs).getD (.unknown, 0)
      let lexeme := c :: cs.take more
      ⟨kind, String.ofList lexeme, line⟩ :: scan (line + lineBreaks lexeme) (cs.drop more)
termination_by cs => cs.length
decreasing_by
  · simp
  · rw [List.length_drop, List.length_cons]; omega

def tokenize (source : String) : List Token :=
  scan 1 source.toList

structure LexError where
  lexeme : String
  line : Nat
deriving DecidableEq, Repr

def LexError.message (e : LexError) : String :=
  located e.line ("invalid character '" ++ e.lexeme ++ "'.")

/-- Refuses a list with an unknown token, for the first of them. -/
def checkTokens (tokens : List Token) : Except LexError Unit :=
  match tokens.find? (·.kind = .unknown) with
  | some t => .error ⟨t.lexeme, t.line⟩
  | none => .ok ()

end Betik
