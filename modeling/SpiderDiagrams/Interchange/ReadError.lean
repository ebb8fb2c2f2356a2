import SpiderDiagrams.DiagramError

/-!
# Errors of reading

Why a text could not be read as a value of some type. Fields and variants are named; everything else
that is not of the expected form, or not JSON at all, is invalid.
-/
namespace SpiderDiagrams

inductive ReadError where
  | missingField (name : String)
  | duplicateField (name : String)
  | unknownVariant (name : String)
  | invalid
  | diagram (error : DiagramError)
  deriving DecidableEq, Repr

namespace ReadError

def message : ReadError → String
  | missingField name => s!"missing field `{name}`"
  | duplicateField name => s!"duplicate field `{name}`"
  | unknownVariant name => s!"unknown variant `{name}`"
  | invalid => "invalid JSON"
  | diagram e => e.message

end ReadError

end SpiderDiagrams
