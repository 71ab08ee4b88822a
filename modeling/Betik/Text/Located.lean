/-
Messages about a place in the source.
-/

namespace Betik
namespace Text

def located (line : Nat) (message : String) : String :=
  "Line " ++ toString line ++ ": " ++ message

end Text
end Betik
