namespace PacketLayers.Command

structure Options where
  input : String
  report : Option String := none
  stdout : Bool := false
  pretty : Bool := false
  compact : Bool := false
  quiet : Bool := false
  strict : Bool := false
  listLayers : Bool := false
deriving DecidableEq, Repr

inductive Request where
  | version
  | dissect (options : Options)
deriving DecidableEq, Repr

inductive Switch where
  | stdout
  | pretty
  | compact
  | quiet
  | strict
  | listLayers
deriving DecidableEq, Repr

namespace Switch

def all : List Switch := [stdout, pretty, compact, quiet, strict, listLayers]

def name : Switch → String
  | stdout => "--stdout"
  | pretty => "--pretty"
  | compact => "--compact"
  | quiet => "--quiet"
  | strict => "--strict"
  | listLayers => "--list-layers"

def ofName? (arg : String) : Option Switch := all.find? (·.name == arg)

end Switch

structure Gathered where
  input : Option String := none
  report : Option String := none
  switches : List Switch := []

namespace Gathered

def setInput (g : Gathered) (value : String) : Option Gathered :=
  if g.input.isSome || value.isEmpty then none else some { g with input := some value }

def setReport (g : Gathered) (value : String) : Option Gathered :=
  if g.report.isSome || value.isEmpty then none else some { g with report := some value }

def turnOn (g : Gathered) (s : Switch) : Option Gathered :=
  if s ∈ g.switches then none else some { g with switches := s :: g.switches }

def has (g : Gathered) (s : Switch) : Bool := decide (s ∈ g.switches)

/-- The options, if nothing is missing and nothing contradicts. There is one place for the
report. -/
def options? (g : Gathered) : Option Options :=
  match g.input with
  | none => none
  | some input =>
    if g.has .stdout == g.report.isSome then none
    else if g.has .pretty && g.has .compact then none
    else
      some ⟨input, g.report, g.has .stdout, g.has .pretty, g.has .compact, g.has .quiet,
        g.has .strict, g.has .listLayers⟩

end Gathered

/-- Whether an argument cannot be the value of the option before it. -/
def looksLikeOption (arg : String) : Bool :=
  match arg.toList with
  | '-' :: _ :: _ => true
  | _ => false

/-- What a report option says that holds its value itself; `none` inside if the value is the
next argument. -/
def attachedReport? (arg : List Char) : Option (Option String) :=
  match arg with
  | '-' :: 'o' :: rest =>
    match rest with
    | [] => some none
    | '=' :: value => some (some (String.ofList value))
    | value => some (some (String.ofList value))
  | '-' :: '-' :: 'r' :: 'e' :: 'p' :: 'o' :: 'r' :: 't' :: rest =>
    match rest with
    | [] => some none
    | '=' :: value => some (some (String.ofList value))
    | _ => none
  | _ => none

def gather (g : Gathered) (operandsOnly : Bool) : List String → Option Gathered
  | [] => some g
  | arg :: rest =>
    if operandsOnly || !looksLikeOption arg then
      (g.setInput arg).bind fun g => gather g operandsOnly rest
    else if arg == "--" then gather g true rest
    else
      match attachedReport? arg.toList with
      | some (some value) => (g.setReport value).bind fun g => gather g false rest
      | some none =>
        match rest with
        | value :: others =>
          if looksLikeOption value then none
          else (g.setReport value).bind fun g => gather g false others
        | [] => none
      | none =>
        match Switch.ofName? arg with
        | some s => (g.turnOn s).bind fun g => gather g false rest
        | none => none

def request? : List String → Option Request
  | "pcap" :: verb :: rest =>
    if verb == "dissect" || verb == "decode" then
      ((gather {} false rest).bind (·.options?)).map .dissect
    else none
  | first :: _ =>
    match first.toList with
    | '-' :: 'V' :: _ => some .version
    | _ => none
  | [] => none

end PacketLayers.Command
