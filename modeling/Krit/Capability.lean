import Krit.Operators

/-!
# Names of resources

The grammar of resource names and configuration keys, which the manifest, the compiler
and the host share.
-/

namespace Krit

/-- The bytes that may stand inside a name and not at its ends. -/
def isNameSeparator (byte : ℕ) : Bool :=
  byte == ascii '.' || byte == ascii '-' || byte == ascii '_'

/-- Whether a separator stands twice in a row. -/
def holdsDouble : List ℕ → Bool
  | first :: second :: rest =>
      (first == second && isNameSeparator first) || holdsDouble (second :: rest)
  | _ => false

def isNameByte (allowUnderscore : Bool) (byte : ℕ) : Bool :=
  (ascii 'a' ≤ byte && byte ≤ ascii 'z') || (ascii '0' ≤ byte && byte ≤ ascii '9') ||
    byte == ascii '.' || byte == ascii '-' || (allowUnderscore && byte == ascii '_')

def isCanonicalName (name : String) (allowUnderscore : Bool) : Bool :=
  let bytes := stringBytes name
  !bytes.isEmpty && bytes.length ≤ 64 &&
    !(bytes.head?.any isNameSeparator) && !(bytes.getLast?.any isNameSeparator) &&
    !holdsDouble bytes && bytes.all (isNameByte allowUnderscore)

def isValidResourceName (name : String) : Bool := isCanonicalName name false

def isValidConfigKey (name : String) : Bool := isCanonicalName name true

end Krit
