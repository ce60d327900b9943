/-! What can be wrong with a JSON text. -/
namespace ServiceDirectory.Json

inductive Fault where
  | malformed
  | cutShort
  | misfit (message : String)
  deriving DecidableEq, Repr

namespace Fault

def category : Fault → String
  | .malformed => "syntax"
  | .cutShort => "eof"
  | .misfit _ => "data"

end Fault
end ServiceDirectory.Json
