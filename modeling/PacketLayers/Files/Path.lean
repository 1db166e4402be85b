namespace PacketLayers.Path

def isLong (path : String) : Bool := decide (4095 < path.utf8ByteSize)

def isLongName (name : String) : Bool := decide (255 < name.utf8ByteSize)

def cut : List Char → List (List Char)
  | [] => [[]]
  | c :: rest =>
    match cut rest with
    | [] => [[c]]
    | piece :: others => if c = '/' then [] :: piece :: others else (c :: piece) :: others

def pieces (path : String) : List String := (cut path.toList).map String.ofList

def isRooted (path : String) : Bool := path.toList.head? == some '/'

/-- The pieces behind the root, or all of them. -/
def bodyPieces (path : String) : List String :=
  if isRooted path then (pieces path).drop 1 else pieces path

def saysNothing (piece : String) : Bool := piece == "" || piece == "."

def trimEnd (rooted : Bool) (body : List String) : List String :=
  let trim (ps : List String) : List String := (ps.reverse.dropWhile saysNothing).reverse
  match rooted, body with
  | false, "." :: rest => "." :: trim rest
  | _, _ => trim body

def ofPieces (rooted : Bool) (body : List String) : String :=
  (if rooted then "/" else "") ++ "/".intercalate body

/-- What a path names, piece by piece; a root counts as a piece. -/
def components (path : String) : List String :=
  let rooted := isRooted path
  let rest (ps : List String) : List String := ps.filter fun p => !saysNothing p
  match rooted, bodyPieces path with
  | true, body => "/" :: rest body
  | false, "." :: body => "." :: rest body
  | false, body => rest body

def parent? (path : String) : Option String :=
  let rooted := isRooted path
  match trimEnd rooted (bodyPieces path) with
  | [] => none
  | body => some (ofPieces rooted (trimEnd rooted body.dropLast))

def fileName? (path : String) : Option String :=
  match (trimEnd (isRooted path) (bodyPieces path)).getLast? with
  | none => none
  | some last => if last == "." || last == ".." then none else some last

/-- What follows the last dot of the name, unless the name begins with that dot. -/
def extension? (path : String) : Option String :=
  match fileName? path with
  | none => none
  | some name =>
    let reversed := name.toList.reverse
    let after := reversed.takeWhile (· != '.')
    match reversed.drop after.length with
    | _ :: _ :: _ => some (String.ofList after.reverse)
    | _ => none

def join (first second : String) : String :=
  if isRooted second then second
  else if first.isEmpty || first.toList.getLast? == some '/' then first ++ second
  else first ++ "/" ++ second

end PacketLayers.Path
