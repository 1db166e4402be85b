import PacketLayers.Command.Run

namespace PacketLayers.Main

def locationOf (path : String) : Location :=
  (Path.bodyPieces path).filter fun piece => !Path.saysNothing piece

def absolute (loc : Location) : String := "/" ++ "/".intercalate loc

def addDirectory (w : Workspace) (loc : Location) : Workspace :=
  if (w.entry? loc).isSome then w else w.put loc (.directory .empty)

/-- Adds what a path names, with the directories it lies in. Only captures are read. -/
def look (w : Workspace) (path : String) : IO Workspace := do
  let base ← IO.currentDir
  let found ← try pure (some (← IO.FS.realPath (base / path))) catch _ => pure none
  match found with
  | none => return w
  | some real =>
    if !(← real.pathExists) then return w
    let loc := locationOf real.toString
    let mut seen := w
    for size in List.range loc.length do
      seen := addDirectory seen (loc.take size)
    if ← real.isDir then return addDirectory seen loc
    let content ← if Command.isCaptureName path then IO.FS.readBinFile real else pure .empty
    return seen.put loc (.file content.toList)

def lookAlong (w : Workspace) (path : String) : IO Workspace := do
  let body := Path.bodyPieces path
  let mut seen := w
  for size in List.range (body.length + 1) do
    if 0 < size then
      seen ← look seen (Path.ofPieces (Path.isRooted path) (body.take size))
  return seen

partial def lookBelow (w : Workspace) (path : String) : IO Workspace := do
  let base ← IO.currentDir
  let mut seen ← look w path
  if !(← (base / path).isDir) then return seen
  for entry in ← (base / path).readDir do
    seen ← lookBelow seen (Path.join path entry.fileName)
  return seen

/-- The pieces of a pattern before the first one that is more than a name. -/
def plainPart (pattern : String) : String :=
  Path.ofPieces (Path.isRooted pattern)
    ((Path.bodyPieces pattern).takeWhile fun piece => !Command.isPattern piece)

def survey (o : Command.Options) : IO Workspace := do
  let here := locationOf (← IO.currentDir).toString
  let mut seen ← look { here } "."
  if Command.isPattern o.input then
    let plain := plainPart o.input
    seen ← lookBelow seen (if plain.isEmpty then "." else plain)
  else
    seen ← lookAlong seen o.input
  match o.report with
  | some report => lookAlong seen report
  | none => return seen

/-- Makes the directories and files of a tree that were not in the tree before. -/
def carryOut (before after : Workspace) : IO Unit := do
  for loc in after.root.locations [] do
    match after.entry? loc with
    | some (.directory _) =>
      if (before.entry? loc).isNone then IO.FS.createDirAll (absolute loc)
    | some (.file content) =>
      if before.content? loc != some content then
        IO.FS.writeBinFile (absolute loc) (ByteArray.mk content.toArray)
    | none => pure ()

def usage : String :=
  "usage: " ++ Report.thisTool.name ++
    " pcap dissect [--pretty|--compact] [--quiet] [--strict] [--list-layers]" ++
    " (-o REPORT | --stdout) INPUT\n"

def perform (request : Command.Request) : IO UInt32 := do
  let workspace ← match request with
    | .version => pure {}
    | .dissect o => survey o
  let result := Command.run workspace request
  carryOut workspace result.workspace
  (← IO.getStdout).putStr result.stdout
  (← IO.getStderr).putStr result.stderr
  return UInt32.ofNat result.code

end PacketLayers.Main

def main (args : List String) : IO UInt32 := do
  match PacketLayers.Command.request? args with
  | some request => PacketLayers.Main.perform request
  | none =>
    (← IO.getStderr).putStr PacketLayers.Main.usage
    return 2
