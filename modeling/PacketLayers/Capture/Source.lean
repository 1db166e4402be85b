import PacketLayers.Capture.Legacy
import PacketLayers.Capture.Sections

/-!
A capture file as a source of packets. The first four octets choose the container. After the end
or an error the source repeats it.
-/
namespace PacketLayers

inductive Source where
  | legacy (r : Legacy.Reader)
  | sections (r : Sections.Reader)

namespace Source

def sectionMagic : Bytes := [0x0A, 0x0D, 0x0D, 0x0A]

def open? (file : Bytes) : Except SourceError Source :=
  if file.length < 4 then .error (.file .shortRead)
  else if file.take 4 = sectionMagic then
    match Sections.Reader.open file with
    | .ok r => .ok (.sections r)
    | .error e => .error (.during "pcapng reader init" e)
  else
    match Legacy.Reader.open file with
    | .ok r => .ok (.legacy r)
    | .error e => .error (.during "pcap reader init" e)

def next : Source → Pull × Source
  | .legacy r => r.next.map id .legacy
  | .sections r => r.next.map id .sections

def ahead : Source → Bytes
  | .legacy r => r.window.ahead
  | .sections r => r.window.ahead

theorem ahead_lt_of_next {s : Source} {p : Packet} (found : s.next.1.reading = .packet p) :
    s.next.2.ahead.length < s.ahead.length := by
  cases s with
  | legacy r => exact Legacy.Reader.ahead_lt_of_next found
  | sections r => exact Sections.Reader.ahead_lt_of_next found

def drain (s : Source) : List Pull × Source :=
  match _ : s.next with
  | (pull, rest) =>
    match _ : pull.reading with
    | .packet _ => rest.drain.map (pull :: ·) id
    | .finished => ([pull], rest)
    | .failed _ => ([pull], rest)
termination_by s.ahead.length
decreasing_by
  all_goals
    rename_i pulled _ found
    have step := ahead_lt_of_next (s := s) (by rw [pulled]; exact found)
    rw [pulled] at step
    exact step

end Source

end PacketLayers
