import Provision.Run.Basic
import Provision.Workspace

/-!
# Aliases

An operator gives new runs and workspaces names of his own. The console takes these names wherever it takes
identifiers (`Aliases.resolve`), puts identifiers into texts in the place of names that stand behind a
dollar sign (`Aliases.fill`), and shows the names in the place of identifiers (`Aliases.mask`). An
identifier that was given no name is shown by the kind of thing it identifies.
-/

namespace Provision

/-- The identifiers that names stand for. -/
structure Aliases where
  /-- The names with their identifiers. -/
  table : List (String × String) := []
  deriving Repr

namespace Aliases

/-- Let a name stand for an identifier, and for no other any more. -/
def add (a : Aliases) (name id : String) : Aliases :=
  ⟨a.table.filter (fun e => e.1 != name) ++ [(name, id)]⟩

/-- The identifier that a name stands for; any other text stands for itself. -/
def resolve (a : Aliases) (name : String) : String :=
  ((a.table.find? fun e => e.1 == name).map (·.2)).getD name

/-- The name of an identifier. -/
def name? (a : Aliases) (id : String) : Option String :=
  (a.table.find? fun e => e.2 == id).map (·.1)

/-- The longest name at the front of a text: its length and its identifier. -/
def longest? (a : Aliases) (s : List Char) : Option (Nat × String) :=
  let found := a.table.filter fun e => e.1.toList.isPrefixOf s
  (found.mergeSort fun x y => decide (y.1.length ≤ x.1.length)).head?.map fun e =>
    (e.1.length, e.2)

/-- The text with identifiers in the place of names behind a dollar sign, the first `skipped` characters
left out. -/
def fillFrom (a : Aliases) : Nat → List Char → List Char
  | _, [] => []
  | skipped + 1, _ :: rest => fillFrom a skipped rest
  | 0, c :: rest =>
    match if c = '$' then a.longest? rest else none with
    | some (length, id) => id.toList ++ fillFrom a length rest
    | none => c :: fillFrom a 0 rest

/-- The text with identifiers in the place of names behind a dollar sign. -/
def fill (a : Aliases) (s : String) : String :=
  String.ofList (a.fillFrom 0 s.toList)

/-- The identifier at the front of a text, with the kind of thing it identifies. -/
def identifier? (s : List Char) : Option (String × String) :=
  [Run.stem, Workspace.stem].findSome? fun stem =>
    let id := String.ofList (s.take (stem.length + 33))
    if Identifier.hasShape stem id then some (stem, id) else none

/-- What is shown in the place of an identifier. -/
def shown (a : Aliases) (stem id : String) : String :=
  (a.name? id).getD (stem ++ "-$new")

/-- The text with names in the place of identifiers, the first `skipped` characters left out. -/
def maskFrom (a : Aliases) : Nat → List Char → List Char
  | _, [] => []
  | skipped + 1, _ :: rest => maskFrom a skipped rest
  | 0, c :: rest =>
    match if c = 'r' ∨ c = 'w' then identifier? (c :: rest) else none with
    | some (stem, id) => (a.shown stem id).toList ++ maskFrom a (id.length - 1) rest
    | none => c :: maskFrom a 0 rest

/-- The text with names in the place of identifiers. -/
def maskText (a : Aliases) (s : String) : String :=
  String.ofList (a.maskFrom 0 s.toList)

mutual

/-- The value with names in the place of identifiers. -/
def mask (a : Aliases) : Json → Json
  | .string t => .string (t.map a.maskText)
  | .array items => .array (maskItems a items)
  | .object members => .object (maskMembers a members)
  | v => v

/-- The items with names in the place of identifiers. -/
def maskItems (a : Aliases) : List Json → List Json
  | [] => []
  | v :: rest => mask a v :: maskItems a rest

/-- The members with names in the place of identifiers in their values. -/
def maskMembers (a : Aliases) : List (Json.Text × Json) → List (Json.Text × Json)
  | [] => []
  | (name, v) :: rest => (name, mask a v) :: maskMembers a rest

end

end Aliases

end Provision
