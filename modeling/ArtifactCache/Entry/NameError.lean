import ArtifactCache.Text.Quoted

/-! # Why a text is no file name

The causes for which a file name or a bare digest is refused, one for each
element of the grammar, and the sentence that reports a refused text.
-/

namespace ArtifactCache

def digestLength : Nat := 64

/-- The element of the grammar that did not match. -/
inductive NameFault where
  | digest
  | separator
  | size
  | missingToken
  | token
  | trailing
  deriving DecidableEq, Repr

/-- What was expected in the place of the fault. -/
def NameFault.message : NameFault → String
  | .digest => "expected " ++ toString digestLength ++ " lowercase hex characters"
  | .separator => "expected '-' after the hash"
  | .size => "logical size must be a positive decimal integer without leading zeros"
  | .missingToken => "missing random token"
  | .token => "random token must be ASCII alphanumeric"
  | .trailing => "unexpected trailing characters"

/-- A text that was refused, and why. -/
structure NameError where
  input : String
  fault : NameFault
  deriving DecidableEq, Repr

def NameError.message (error : NameError) : String :=
  "invalid cache filename " ++ Text.quoted error.input ++ ": " ++ error.fault.message

end ArtifactCache
