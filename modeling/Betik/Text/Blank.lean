/-
White space and trimming.  The set of blanks is the one the Unicode standard
gives, so a no-break space separates two words as well as a plain one does.
-/

namespace Betik
namespace Text

/-- The twenty-five characters with the Unicode property `White_Space`. -/
def isBlank (c : Char) : Bool :=
  ('\t' ≤ c && c ≤ '\r') || c == ' ' || c == '\u0085' || c == '\u00a0' ||
    c == '\u1680' || ('\u2000' ≤ c && c ≤ '\u200a') || c == '\u2028' ||
    c == '\u2029' || c == '\u202f' || c == '\u205f' || c == '\u3000'

/-- A line ends at a line feed and nowhere else. -/
def lineBreaks (cs : List Char) : Nat :=
  cs.count '\n'

def strip (p : Char → Bool) (cs : List Char) : List Char :=
  ((cs.dropWhile p).reverse.dropWhile p).reverse

end Text
end Betik
