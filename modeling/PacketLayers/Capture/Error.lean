import PacketLayers.Bytes
import PacketLayers.Files.Error

namespace PacketLayers

inductive ReadError where
  | unrecognized
  /-- The header at the start lacks octets. -/
  | incomplete (missing : Nat)
  | tooLarge
  | unexpectedEnd
  /-- A length contradicts another; the octets are those still unread at that point. -/
  | inconsistent (unread : Bytes)
deriving DecidableEq, Repr

def ReadError.message : ReadError → String
  | .unrecognized => "Header not recognized as PCAP or PCAPNG"
  | .incomplete missing => "Incomplete read: " ++ toString missing
  | .tooLarge => "Buffer is too small"
  | .unexpectedEnd => "Unexpected end of file"
  | .inconsistent unread =>
    "Internal parser error Verify, input [" ++
      ", ".intercalate (unread.map fun b => toString b.toNat) ++ "]"

inductive SourceError where
  | file (cause : FileError)
  | container (text : String)
deriving DecidableEq, Repr

namespace SourceError

def during (phase : String) (e : ReadError) : SourceError :=
  .container (phase ++ ": " ++ e.message)

def message : SourceError → String
  | .file cause => "I/O error: " ++ cause.message
  | .container text => "PCAP parse error: " ++ text

def chain : SourceError → List String
  | .file cause => [message (.file cause), cause.message]
  | .container text => [message (.container text)]

end SourceError

end PacketLayers
