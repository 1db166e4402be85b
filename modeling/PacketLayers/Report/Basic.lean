namespace PacketLayers

structure ToolInfo where
  name : String
  version : String
deriving DecidableEq, Repr

structure InputInfo where
  path : String
  bytes : UInt64
deriving DecidableEq, Repr

structure CaptureSummary where
  packetsTotal : UInt64
  timeStart : Option String
  timeEnd : Option String
deriving DecidableEq, Repr

structure LayerSummary where
  layer : String
  frames : UInt64
deriving DecidableEq, Repr

structure EthertypeSummary where
  ethertype : UInt16
  frames : UInt64
deriving DecidableEq, Repr

structure Report where
  reportVersion : UInt32
  tool : ToolInfo
  /-- The time of the last packet, so that the same capture gives the same report. -/
  generatedAt : String
  input : InputInfo
  captureSummary : Option CaptureSummary
  layers : List LayerSummary
  ethertypes : List EthertypeSummary
  unsupportedLinkTypes : UInt64
deriving DecidableEq, Repr

namespace Report

def thisTool : ToolInfo := ⟨"framesieve", "0.1.0"⟩

def epoch : String := "1970-01-01T00:00:00Z"

def stub (path : String) (bytes : UInt64) : Report :=
  ⟨1, thisTool, epoch, ⟨path, bytes⟩, none, [], [], 0⟩

end Report

end PacketLayers
