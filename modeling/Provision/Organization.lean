import Provision.Error
import Provision.Time.Instant

/-!
# Organizations

An organization is known by its name, which is not empty and holds ASCII letters, ASCII digits,
hyphens and underscores only.
-/

namespace Provision

/-- An organization. -/
structure Organization where
  /-- The name, unique among organizations. -/
  name : String
  /-- When the organization was created. -/
  createdAt : Instant
  deriving DecidableEq, Repr

namespace Organization

/-- Whether a character may stand in a name. -/
def isNameChar (c : Char) : Bool :=
  c.isAlphanum || c == '-' || c == '_'

/-- Whether a text may be a name. -/
def isName (s : String) : Bool :=
  !s.isEmpty && s.toList.all isNameChar

/-- A new organization. -/
def new (name : String) (now : Instant) : Except Error Organization :=
  if isName name then .ok ⟨name, now⟩
  else .error (.validation "name" ("invalid organization name " ++ Error.quoted name))

end Organization

end Provision
