import PacketLayers.Bytes
import PacketLayers.Event

namespace PacketLayers

structure Packet where
  /-- Seconds since the Unix epoch, if the capture records a time. -/
  time : Option Float
  linkType : Int
  data : Bytes

inductive Reading where
  | packet (p : Packet)
  | finished
  | failed (error : SourceError)

structure Pull where
  events : List Event := []
  reading : Reading

namespace LinkType

def ethernet : Int := 1

end LinkType

end PacketLayers
