import PacketLayers.Bytes

namespace PacketLayers

inductive Directory where
  | empty
  | file (name : String) (content : Bytes) (others : Directory)
  | directory (name : String) (inside others : Directory)
deriving DecidableEq, Repr

inductive Entry where
  | file (content : Bytes)
  | directory (inside : Directory)
deriving DecidableEq, Repr

abbrev Location := List String

/-- The octets of the path from the root, with a slash before every name. -/
def Location.octets : Location → Nat
  | [] => 0
  | name :: rest => name.utf8ByteSize + 1 + octets rest

namespace Directory

def find? : Directory → String → Option Entry
  | empty, _ => none
  | file n content others, name => if n = name then some (.file content) else others.find? name
  | directory n inside others, name =>
    if n = name then some (.directory inside) else others.find? name

def add (name : String) (e : Entry) (others : Directory) : Directory :=
  match e with
  | .file content => file name content others
  | .directory inside => directory name inside others

/-- Puts an entry under a name, in the place of what was there. -/
def set : Directory → String → Entry → Directory
  | empty, name, e => add name e empty
  | file n content others, name, e =>
    if n = name then add name e others else file n content (others.set name e)
  | directory n inside others, name, e =>
    if n = name then add name e others else directory n inside (others.set name e)

def names : Directory → List String
  | empty => []
  | file name _ others => name :: others.names
  | directory name _ others => name :: others.names

def at? : Directory → Location → Option Entry
  | d, [] => some (.directory d)
  | d, name :: rest =>
    match d.find? name with
    | some (.directory inside) => inside.at? rest
    | some (.file content) => if rest = [] then some (.file content) else none
    | none => none

/-- Puts an entry at a location, if that lies in a directory. -/
def put : Directory → Location → Entry → Directory
  | d, [], _ => d
  | d, [name], e => d.set name e
  | d, name :: rest, e =>
    match d.find? name with
    | some (.directory inside) => d.set name (.directory (inside.put rest e))
    | _ => d

/-- All locations below one, each directory before what it holds. -/
def locations (above : Location) : Directory → List Location
  | empty => []
  | file name _ others => (above ++ [name]) :: others.locations above
  | directory name inside others =>
    (above ++ [name]) :: (inside.locations (above ++ [name]) ++ others.locations above)

def height : Directory → Nat
  | empty => 0
  | file _ _ others => max 1 others.height
  | directory _ inside others => max (inside.height + 1) others.height

theorem find?_add (name : String) (e : Entry) (others : Directory) (sought : String) :
    (add name e others).find? sought = if name = sought then some e else others.find? sought := by
  cases e <;> rfl

theorem find?_set (d : Directory) (name : String) (e : Entry) (sought : String) :
    (d.set name e).find? sought = if name = sought then some e else d.find? sought := by
  induction d with
  | empty => exact find?_add name e empty sought
  | file n content others ih =>
    by_cases here : n = name
    · subst here
      simp only [set, if_true, find?_add, find?]
      split <;> rfl
    · simp only [set, if_neg here, find?, ih]
      by_cases first : n = sought
      · have other : name ≠ sought := fun h => here (first.trans h.symm)
        simp only [if_pos first, if_neg other]
      · simp only [if_neg first]
  | directory n inside others _ ih =>
    by_cases here : n = name
    · subst here
      simp only [set, if_true, find?_add, find?]
      split <;> rfl
    · simp only [set, if_neg here, find?, ih]
      by_cases first : n = sought
      · have other : name ≠ sought := fun h => here (first.trans h.symm)
        simp only [if_pos first, if_neg other]
      · simp only [if_neg first]

end Directory

end PacketLayers
