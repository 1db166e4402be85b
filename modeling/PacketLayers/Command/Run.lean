import PacketLayers.Command.Arguments
import PacketLayers.Dissect.Capture
import PacketLayers.Files.Glob
import PacketLayers.Report.Json

/-!
The command as a function: from a file tree and the options to what is printed, the exit code and
the file tree afterwards.
-/
namespace PacketLayers.Command

structure Failure where
  message : String
  hint : Option String := none
deriving DecidableEq, Repr

def Failure.text (f : Failure) : String :=
  "error: " ++ f.message ++ "\n" ++
    match f.hint with
    | some hint => "hint: " ++ hint ++ "\n"
    | none => ""

structure Result where
  code : Nat
  stdout : String
  stderr : String
  workspace : Workspace

def isPattern (input : String) : Bool :=
  input.toList.any fun c => c == '*' || c == '?' || c == '['

/-- At most three of the matches, and a mark for more. -/
def listed (found : List String) : String :=
  ", ".intercalate (found.take 3) ++ if 3 < found.length then ", ..." else ""

def badPattern (input cause : String) : Failure :=
  ⟨"invalid input pattern '" ++ input ++ "'", some ("pattern error: " ++ cause)⟩

def unlisted (path : String) : String :=
  "attempting to read `" ++ path ++ "` resulted in an error: " ++ FileError.nameTooLong.message

def oneFile (input : String) (found : List String) : Except Failure String :=
  match found with
  | [] =>
    .error ⟨"no files match pattern '" ++ input ++ "'",
      some "check the path or quote the pattern; expected .pcap or .pcapng"⟩
  | [path] => .ok path
  | _ =>
    .error ⟨"multiple files match pattern '" ++ input ++ "' (" ++ toString found.length ++
      " matches); matches: " ++ listed found,
      some "pass a single capture file, or run once per file"⟩

/-- The path that an input stands for: itself, or the one file that its pattern matches. -/
def inputPath (w : Workspace) (input : String) : Except Failure String :=
  if !isPattern input then .ok input
  else
    match Glob.parse input with
    | .error e => .error (badPattern input e.message)
    | .ok pattern =>
      match Glob.find w pattern with
      | .error path => .error (badPattern input (unlisted path))
      | .ok paths => oneFile input (paths.filter w.isFile)

def isCaptureName (path : String) : Bool :=
  let extension := ((Path.extension? path).getD "").toList.map Char.toLower
  extension == "pcap".toList || extension == "pcapng".toList

def checkInput (w : Workspace) (path : String) : Except Failure Unit :=
  if !w.exists? path then
    .error ⟨"input file not found: " ++ path, some "use a .pcap or .pcapng file"⟩
  else if !w.isFile path then
    .error ⟨"input is not a file: " ++ path, some "use a .pcap or .pcapng file"⟩
  else if !isCaptureName path then
    .error ⟨"unsupported input format '" ++ path ++ "'",
      some "expected a .pcap or .pcapng file"⟩
  else .ok ()

def reportDirectory (report : String) : String :=
  match Path.parent? report with
  | none => "."
  | some parent => if parent.isEmpty then "." else parent

/-- Refuses to write the report over the input. Where the directory of the report cannot be
located, it is taken not to hold the input. -/
def checkReport (w : Workspace) (report : String) (input : Location) : Except Failure Unit :=
  match w.locate (reportDirectory report) with
  | .error _ => .ok ()
  | .ok directory =>
    match Path.fileName? report with
    | none => .error { message := "Invalid report path: " ++ report }
    | some name =>
      if directory ++ [name] = input then
        .error ⟨"report path must differ from input: " ++ report,
          some "choose a different output path"⟩
      else .ok ()

def unresolved (path : String) (cause : FileError) : Failure :=
  { message := "Failed to resolve input path: " ++ path ++ ": " ++ cause.message }

/-- What is dissected and, unless the report is printed, where it goes. -/
def prepare (w : Workspace) (o : Options) : Except Failure String := do
  let path ← inputPath w o.input
  checkInput w path
  match w.locate path with
  | .error e => .error (unresolved path e)
  | .ok location =>
    match o.report with
    | none => .ok path
    | some report => do
      checkReport w report location
      .ok path

def writeReport (w : Workspace) (path text : String) : Workspace × Except Failure Unit :=
  let parent := (Path.parent? path).getD ""
  match w.makeAllDirectories parent with
  | (made, .error e) =>
    (made, .error
      { message := "Failed to create output directory: " ++ parent ++ ": " ++ e.message })
  | (made, .ok ()) =>
    match made.write path text.toUTF8.toList with
    | .ok written => (written, .ok ())
    | .error e =>
      (made, .error { message := "Failed to write report: " ++ path ++ ": " ++ e.message })

/-- The text of a report. Options that ask for both forms are refused with the arguments, in
`Gathered.options?`, so nothing is left to refuse here. -/
def reportText (o : Options) (r : Report) : String :=
  if o.pretty then Report.codec.pretty r else Report.codec.compact r

def hex4 (n : Nat) : String :=
  String.ofList ([n / 4096, n / 256, n / 16, n].map fun d => Nat.digitChar (d % 16))

def padTo (width : Nat) (s : String) : String :=
  s ++ String.ofList (List.replicate (width - s.length) ' ')

def layerLines (r : Report) : String :=
  let layers := r.layers.map fun l => "  " ++ padTo 8 l.layer ++ " " ++ toString l.frames ++ "\n"
  let ethertypes := r.ethertypes.map fun e =>
    "  ethertype 0x" ++ hex4 e.ethertype.toNat ++ " " ++ toString e.frames ++ "\n"
  let unsupported :=
    if 0 < r.unsupportedLinkTypes then
      ["  unsupported link type " ++ toString r.unsupportedLinkTypes ++ "\n"]
    else []
  "Decoded frames:\n" ++ String.join (layers ++ ethertypes ++ unsupported)

def failed (w : Workspace) (stdout stderr : String) (f : Failure) : Result :=
  ⟨2, stdout, stderr ++ f.text, w⟩

def finish (o : Options) (r : Report) (w : Workspace) (stdout stderr : String) : Result :=
  let lines := if o.listLayers && !o.quiet then layerLines r else ""
  if o.strict && decide (0 < r.unsupportedLinkTypes) then
    failed w stdout (stderr ++ lines)
      ⟨toString r.unsupportedLinkTypes ++ " packet(s) used an unsupported link type",
        some "only Ethernet and raw IP captures are dissected"⟩
  else ⟨0, stdout, stderr ++ lines, w⟩

def dissect (w : Workspace) (o : Options) : Result :=
  match prepare w o with
  | .error f => failed w "" "" f
  | .ok path =>
    match (dissectFile path (w.read path)).1 with
    | .error e =>
      failed w "" ""
        { message := ": ".intercalate ("PCAP/PCAPNG dissection failed" :: e.chain) }
    | .ok r =>
      let text := reportText o r
      match o.report with
      | none => finish o r w text ""
      | some target =>
        match writeReport w target text with
        | (after, .error f) => failed after "" "" f
        | (after, .ok ()) =>
          finish o r after ""
            (if o.quiet then "" else "OK: report written -> " ++ target ++ "\n")

def versionText : String := Report.thisTool.name ++ " " ++ Report.thisTool.version ++ "\n"

def run (w : Workspace) : Request → Result
  | .version => ⟨0, versionText, "", w⟩
  | .dissect o => dissect w o

end PacketLayers.Command
