import PacketLayers.Capture.Error
import PacketLayers.Frame.Format

namespace PacketLayers

inductive Event where
  | dispatching (frame : String) (subscribers : Nat)
  | notEncapsulated (frame parent : String)
  | dropping (frame : String) (parent : Option String) (error : ParseError)
  | unsupportedResolution (code : Nat)
  | readFailed (container : String) (error : ReadError)
  | neitherVersion (version : Option Nat)
  | unknownLinkType (linkType : Int)
  | dissected (packets unsupported : Nat)
deriving DecidableEq, Repr

namespace Event

inductive Level where
  | trace
  | debug
deriving DecidableEq, Repr

def Level.name : Level → String
  | .trace => "trace"
  | .debug => "debug"

inductive Value where
  | number (n : Int)
  | text (s : String)
deriving DecidableEq, Repr

def level : Event → Level
  | .dispatching .. => .trace
  | .notEncapsulated .. => .trace
  | _ => .debug

def message : Event → String
  | .dispatching .. => "dispatching frame"
  | .notEncapsulated .. => "parent does not encapsulate frame"
  | .dropping .. => "dropping frame"
  | .unsupportedResolution _ => "unsupported timestamp resolution, assuming microseconds"
  | .readFailed .. => "capture read failed"
  | .neitherVersion _ => "raw packet is neither IPv4 nor IPv6"
  | .unknownLinkType _ => "no decode tree for link type"
  | .dissected .. => "capture dissected"

def versionText : Option Nat → String
  | none => "None"
  | some v => "Some(" ++ toString v ++ ")"

def fields : Event → List (String × Value)
  | .dispatching frame subscribers =>
    [("frame", .text frame), ("subscribers", .number subscribers)]
  | .notEncapsulated frame parent => [("frame", .text frame), ("parent", .text parent)]
  | .dropping frame none error => [("frame", .text frame), ("error", .text error.message)]
  | .dropping frame (some parent) error =>
    [("frame", .text frame), ("parent", .text parent), ("error", .text error.message)]
  | .unsupportedResolution code => [("if_tsresol", .number code)]
  | .readFailed container error =>
    [("format", .text container), ("error", .text error.message)]
  | .neitherVersion version => [("version", .text (versionText version))]
  | .unknownLinkType linkType => [("linktype", .number linkType)]
  | .dissected packets unsupported =>
    [("packets_total", .number packets), ("unsupported_linktypes", .number unsupported)]

end Event

end PacketLayers
