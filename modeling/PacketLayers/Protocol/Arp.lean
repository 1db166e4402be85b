import PacketLayers.Protocol.Ethernet

namespace PacketLayers.Arp

def hardwareType : Field := ⟨0, 2⟩
def protocolType : Field := ⟨2, 2⟩
def hardwareAddressLength : Field := ⟨4, 1⟩
def protocolAddressLength : Field := ⟨5, 1⟩
def operation : Field := ⟨6, 2⟩
def senderHardwareAddress : Field := ⟨8, 6⟩
def senderProtocolAddress : Field := ⟨14, 4⟩
def targetHardwareAddress : Field := ⟨18, 6⟩
def targetProtocolAddress : Field := ⟨24, 4⟩

def isRequest (h : Bytes) : Bool := operation.value h == 1
def isReply (h : Bytes) : Bool := operation.value h == 2

def format : Format where
  name := "arp"
  headerLength := 28
  valid h _ :=
    hardwareType.value h == 1 && protocolType.value h == 0x0800 &&
      hardwareAddressLength.value h == 6 && protocolAddressLength.value h == 4
  readings h := [
    ("hardware_type", .number (hardwareType.value h)),
    ("protocol_type", .number (protocolType.value h)),
    ("hardware_address_len", .number (hardwareAddressLength.value h)),
    ("protocol_address_len", .number (protocolAddressLength.value h)),
    ("operation", .number (operation.value h)),
    ("is_request", .flag (isRequest h)),
    ("is_reply", .flag (isReply h)),
    ("sender_hardware_address", .octets (senderHardwareAddress.octets h)),
    ("sender_protocol_address", .dotted (senderProtocolAddress.octets h)),
    ("target_hardware_address", .octets (targetHardwareAddress.octets h)),
    ("target_protocol_address", .dotted (targetProtocolAddress.octets h))]
  settable := [("operation", operation)]

def overEthernet : Encapsulation := Ethernet.carries format 0x0806

end PacketLayers.Arp
