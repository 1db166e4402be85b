import PacketLayers.Capture.Source
import PacketLayers.Dissect.Trees
import PacketLayers.Time.Rfc3339
import PacketLayers.Time.Truncate

namespace PacketLayers

inductive DissectError where
  | file (cause : FileError)
  | source (cause : SourceError)
deriving DecidableEq, Repr

namespace DissectError

def message : DissectError → String
  | .file cause => "I/O error: " ++ cause.message
  | .source cause => "Source error: " ++ cause.message

def chain : DissectError → List String
  | .file cause => [message (.file cause), cause.message]
  | .source cause => message (.source cause) :: cause.chain

end DissectError

structure TimeBounds where
  first : Option Float := none
  last : Option Float := none

/-- Takes a packet's time into account. A time that compares with nothing moves no bound. -/
def TimeBounds.add (b : TimeBounds) (time : Option Float) : TimeBounds :=
  match time with
  | none => b
  | some t =>
    let first := match b.first with
      | none => t
      | some earliest => if t < earliest then t else earliest
    let last := match b.last with
      | none => t
      | some latest => if latest < t then t else latest
    ⟨some first, some last⟩

/-- The text of a time in seconds, to the nanosecond. -/
def timeText? (dates : DateTimes) (time : Option Float) : Option String :=
  time.bind fun t => dates.text? (truncate (t * 1e9))

structure Dissection where
  counters : Counters := {}
  packets : Nat := 0
  unsupported : Nat := 0
  times : TimeBounds := {}

namespace Dissection

def tally (c : Counters) : List (Step Tally) → Counters
  | [] => c
  | .call call :: rest => tally (c.record call) rest
  | .event _ :: rest => tally c rest

def eventsOf (steps : List (Step Tally)) : List Event :=
  steps.filterMap fun
    | .call _ => none
    | .event e => some e

def add (d : Dissection) (p : Packet) : Dissection × List Event :=
  let seen := { d with packets := d.packets + 1, times := d.times.add p.time }
  match Dissect.packet? p.linkType p.data with
  | some steps => ({ seen with counters := tally d.counters steps }, eventsOf steps)
  | none => ({ seen with unsupported := d.unsupported + 1 }, [.unknownLinkType p.linkType])

/-- Dissects what a source yields, up to its end or its first error. -/
def run (d : Dissection) : List Pull → Except SourceError Dissection × List Event
  | [] => (.ok d, [])
  | pull :: rest =>
    match pull.reading with
    | .packet p =>
      let (next, events) := d.add p
      let (result, later) := run next rest
      (result, pull.events ++ (events ++ later))
    | .finished => (.ok d, pull.events)
    | .failed e => (.error e, pull.events)

def report (d : Dissection) (path : String) (bytes : Nat) (dates : DateTimes := .standard) :
    Report :=
  let timeStart := timeText? dates d.times.first
  let timeEnd := timeText? dates d.times.last
  { Report.stub path (UInt64.ofNat bytes) with
    generatedAt := (timeEnd.or timeStart).getD Report.epoch
    captureSummary := some ⟨UInt64.ofNat d.packets, timeStart, timeEnd⟩
    layers := d.counters.layerSummaries
    ethertypes := d.counters.ethertypeSummaries
    unsupportedLinkTypes := UInt64.ofNat d.unsupported }

end Dissection

/-- Dissects what a source yields for the input of a path, whose size is asked for at the end. -/
def dissectPulls (path : String) (size : Except FileError Nat) (pulls : List Pull) :
    Except DissectError Report × List Event :=
  match Dissection.run {} pulls with
  | (.error e, events) => (.error (.source e), events)
  | (.ok d, events) =>
    let events := events ++ [.dissected d.packets d.unsupported]
    match size with
    | .error e => (.error (.file e), events)
    | .ok bytes => (.ok (d.report path bytes), events)

def dissectFile (path : String) (content : Except FileError Bytes) :
    Except DissectError Report × List Event :=
  match content with
  | .error e => (.error (.source (.file e)), [])
  | .ok file =>
    match Source.open? file with
    | .error e => (.error (.source e), [])
    | .ok source => dissectPulls path (.ok file.length) source.drain.1

end PacketLayers
