/-
Tokens, and how listings and messages show them.
-/
import Betik.Token.Kind

namespace Betik

/-- A piece of source with its class and the line it starts on, counted from
one.  Blanks belong to no token. -/
structure Token where
  kind : TokenKind
  lexeme : String
  line : Nat
deriving DecidableEq, Repr

namespace Token

def listing (t : Token) : String :=
  t.kind.label ++ "('" ++ t.lexeme ++ "', line " ++ toString t.line ++ ")"

/-- What a message says it found: the text of the token, or its kind where it
has none. -/
def found (t : Token) : String :=
  if t.lexeme = "" then t.kind.describe else t.lexeme

end Token
end Betik
