import PacketLayers.Proofs.Frame.Wire
import PacketLayers.Proofs.Protocol.Payload

namespace PacketLayers

open Wire

def Ipv4.fragmentBits : List Bits := [
  ⟨"reserved", 1, .reserved⟩, ⟨"dont_fragment", 1, .flag⟩, ⟨"more_fragments", 1, .flag⟩,
  ⟨"fragment_offset", 13, .number⟩]

namespace Layer

def words : Layer → List Word
  | ethernet => [
    .octets "destination" Ethernet.destination,
    .octets "source" Ethernet.source,
    .number "ethertype" Ethernet.ethertype]
  | arp => [
    .number "hardware_type" Arp.hardwareType,
    .number "protocol_type" Arp.protocolType,
    .number "hardware_address_len" Arp.hardwareAddressLength,
    .number "protocol_address_len" Arp.protocolAddressLength,
    .number "operation" Arp.operation ["is_request", "is_reply"],
    .octets "sender_hardware_address" Arp.senderHardwareAddress,
    .dotted "sender_protocol_address" Arp.senderProtocolAddress,
    .octets "target_hardware_address" Arp.targetHardwareAddress,
    .dotted "target_protocol_address" Arp.targetProtocolAddress]
  | ipv4 => [
    ⟨Ipv4.versionAndLength, [⟨"version", 4, .number⟩, ⟨"ihl", 4, .number⟩], ["header_length"]⟩,
    ⟨Ipv4.service, [⟨"dscp", 6, .number⟩, ⟨"ecn", 2, .number⟩], []⟩,
    .number "total_length" Ipv4.totalLength,
    .number "identification" Ipv4.identification,
    ⟨Ipv4.fragment, Ipv4.fragmentBits, ["is_fragment"]⟩,
    .number "ttl" Ipv4.ttl,
    .number "protocol" Ipv4.protocol,
    .number "checksum" Ipv4.headerChecksum,
    .dotted "source" Ipv4.source,
    .dotted "destination" Ipv4.destination]
  | ipv6 => [
    ⟨Ipv6.firstWord,
      [⟨"version", 4, .number⟩, ⟨"traffic_class", 8, .number⟩, ⟨"flow_label", 20, .number⟩], []⟩,
    .number "payload_length" Ipv6.payloadLength,
    .number "next_header" Ipv6.nextHeader,
    .number "hop_limit" Ipv6.hopLimit,
    .octets "source" Ipv6.source,
    .octets "destination" Ipv6.destination]
  | icmp => [
    .number "type" Icmp.type ["is_echo_request", "is_echo_reply"],
    .number "code" Icmp.code,
    .number "checksum" Icmp.messageChecksum]
  | udp => [
    .number "source_port" Udp.sourcePort,
    .number "destination_port" Udp.destinationPort,
    .number "length" Udp.length,
    .number "checksum" Udp.datagramChecksum]

end Layer

namespace Wire

theorem shown_number {readings : List (String × Field.Reading)} {b : Bits} {n v : Nat}
    (kind : b.kind = .number) (read : readings.lookup b.name = some (.number n)) (same : n = v) :
    readings.lookup b.name = b.shown v := by
  simp only [read, same, Bits.shown, kind]

section Whole

variable {readings : List (String × Field.Reading)} {name : String} {f : Field} {h : Bytes}
  (inside : f.offset + f.width ≤ h.length)
include inside

theorem shows_number (shown : readings.lookup name = some (.number (f.value h))) :
    Shows readings (f.value h) [⟨name, 8 * f.width, .number⟩] :=
  shows_whole (value_lt inside) shown

theorem shows_octets (shown : readings.lookup name = some (.octets (f.octets h))) :
    Shows readings (f.value h) [⟨name, 8 * f.width, .octets⟩] := by
  refine shows_whole (value_lt inside) ?_
  rw [shown, Bits.shown, Nat.mul_div_cancel_left _ (by decide), toBig_value inside]

theorem shows_dotted (shown : readings.lookup name = some (.dotted (f.octets h))) :
    Shows readings (f.value h) [⟨name, 8 * f.width, .dotted⟩] := by
  refine shows_whole (value_lt inside) ?_
  rw [shown, Bits.shown, Nat.mul_div_cancel_left _ (by decide), toBig_value inside]

end Whole

end Wire

namespace Layer

theorem tiles (l : Layer) : Tiles l.format.headerLength 0 l.words := by
  cases l <;> decide

theorem named (l : Layer) (h : Bytes) :
    ∀ name ∈ (l.format.readings h).map Prod.fst, ∃ w ∈ l.words, name ∈ w.names := by
  -- The names of the getters are the same for all headers.
  have names : (l.format.readings h).map Prod.fst = (l.format.readings []).map Prod.fst := by
    cases l <;> rfl
  rw [names]
  cases l <;> decide

theorem settable (l : Layer) : ∀ s ∈ l.format.settable, ∃ w ∈ l.words,
    w.field = s.2 ∧ w.bits.map Bits.name = [s.1] ∧
      ∀ b ∈ w.bits, b.kind ≠ .flag ∧ b.kind ≠ .reserved := by
  cases l <;> decide

theorem computed (l : Layer) : ∀ w ∈ l.words, ∀ name ∈ w.computed,
    ∃ compute : Nat → Field.Reading,
      ∀ h, (l.format.readings h).lookup name = some (compute (w.field.value h)) := by
  cases l with
  | ethernet => simp [words, Word.number, Word.octets]
  | arp =>
    have request : ∃ compute : Nat → Field.Reading, ∀ h,
        (Arp.format.readings h).lookup "is_request" = some (compute (Arp.operation.value h)) :=
      ⟨fun operation => .flag (operation == 1), fun _ => rfl⟩
    have reply : ∃ compute : Nat → Field.Reading, ∀ h,
        (Arp.format.readings h).lookup "is_reply" = some (compute (Arp.operation.value h)) :=
      ⟨fun operation => .flag (operation == 2), fun _ => rfl⟩
    simpa [words, Word.number, Word.octets, Word.dotted] using ⟨request, reply⟩
  | ipv4 =>
    have length : ∃ compute : Nat → Field.Reading, ∀ h,
        (Ipv4.format.readings h).lookup "header_length" =
          some (compute (Ipv4.versionAndLength.value h)) :=
      ⟨fun first => .number (4 * (first % 16)), fun _ => rfl⟩
    have fragment : ∃ compute : Nat → Field.Reading, ∀ h,
        (Ipv4.format.readings h).lookup "is_fragment" = some (compute (Ipv4.fragment.value h)) :=
      ⟨fun fragment => .flag (fragment / 0x2000 % 2 == 1 || fragment % 0x2000 != 0), fun _ => rfl⟩
    simpa [words, Word.number, Word.octets, Word.dotted] using ⟨length, fragment⟩
  | ipv6 => simp [words, Word.number, Word.octets]
  | icmp =>
    have request : ∃ compute : Nat → Field.Reading, ∀ h,
        (Icmp.format.readings h).lookup "is_echo_request" = some (compute (Icmp.type.value h)) :=
      ⟨fun type => .flag (type == 8), fun _ => rfl⟩
    have reply : ∃ compute : Nat → Field.Reading, ∀ h,
        (Icmp.format.readings h).lookup "is_echo_reply" = some (compute (Icmp.type.value h)) :=
      ⟨fun type => .flag (type == 0), fun _ => rfl⟩
    simpa [words, Word.number] using ⟨request, reply⟩
  | udp => simp [words, Word.number]

end Layer

/-! ### What getters show -/

namespace Ipv4

variable {h : Bytes} (length : h.length = 20)
include length

theorem shows_versionAndLength :
    Shows (format.readings h) (versionAndLength.value h)
      [⟨"version", 4, .number⟩, ⟨"ihl", 4, .number⟩] := by
  have small : versionAndLength.value h < 2 ^ 8 := value_lt (length ▸ by decide)
  refine ⟨shown_number rfl (n := version h) rfl ?_, shown_number rfl (n := headerWords h) rfl ?_,
    trivial⟩
  · simp only [version, width]
    omega
  · simp only [headerWords, width]
    omega

theorem shows_service :
    Shows (format.readings h) (service.value h) [⟨"dscp", 6, .number⟩, ⟨"ecn", 2, .number⟩] := by
  have small : service.value h < 2 ^ 8 := value_lt (length ▸ by decide)
  refine ⟨shown_number rfl (n := differentiatedServices h) rfl ?_,
    shown_number rfl (n := congestion h) rfl ?_, trivial⟩
  · simp only [differentiatedServices, width]
    omega
  · simp only [congestion, width]
    omega

omit length in
theorem shows_fragment : Shows (format.readings h) (fragment.value h) fragmentBits := by
  refine ⟨rfl, rfl, rfl, shown_number rfl (n := fragmentOffset h) rfl ?_, trivial⟩
  simp only [fragmentOffset, width]
  omega

end Ipv4

theorem Ipv6.shows_firstWord {h : Bytes} (length : h.length = 40) :
    Shows (format.readings h) (firstWord.value h)
      [⟨"version", 4, .number⟩, ⟨"traffic_class", 8, .number⟩, ⟨"flow_label", 20, .number⟩] := by
  have small : firstWord.value h < 2 ^ 32 := value_lt (length ▸ by decide)
  refine ⟨shown_number rfl (n := version h) rfl ?_, shown_number rfl (n := trafficClass h) rfl ?_,
    shown_number rfl (n := flowLabel h) rfl ?_, trivial⟩
  · simp only [version, width]
    omega
  · simp only [trafficClass, width]
    omega
  · simp only [flowLabel, width]
    omega

theorem Layer.shows (l : Layer) {h : Bytes} (length : h.length = l.format.headerLength) :
    ∀ w ∈ l.words, Shows (l.format.readings h) (w.field.value h) w.bits := by
  have number {name : String} {f : Field} (inside : f.offset + f.width ≤ l.format.headerLength)
      (read : (l.format.readings h).lookup name = some (.number (f.value h))) :
      Shows (l.format.readings h) (f.value h) [⟨name, 8 * f.width, .number⟩] :=
    shows_number (length ▸ inside) read
  have octets {name : String} {f : Field} (inside : f.offset + f.width ≤ l.format.headerLength)
      (read : (l.format.readings h).lookup name = some (.octets (f.octets h))) :
      Shows (l.format.readings h) (f.value h) [⟨name, 8 * f.width, .octets⟩] :=
    shows_octets (length ▸ inside) read
  have dotted {name : String} {f : Field} (inside : f.offset + f.width ≤ l.format.headerLength)
      (read : (l.format.readings h).lookup name = some (.dotted (f.octets h))) :
      Shows (l.format.readings h) (f.value h) [⟨name, 8 * f.width, .dotted⟩] :=
    shows_dotted (length ▸ inside) read
  cases l with
  | ethernet =>
    simp only [words, List.forall_mem_cons]
    exact ⟨octets (by decide) rfl, octets (by decide) rfl, number (by decide) rfl, nofun⟩
  | arp =>
    simp only [words, List.forall_mem_cons]
    exact ⟨number (by decide) rfl, number (by decide) rfl, number (by decide) rfl,
      number (by decide) rfl, number (by decide) rfl, octets (by decide) rfl,
      dotted (by decide) rfl, octets (by decide) rfl, dotted (by decide) rfl, nofun⟩
  | ipv4 =>
    simp only [words, List.forall_mem_cons]
    exact ⟨Ipv4.shows_versionAndLength length, Ipv4.shows_service length, number (by decide) rfl,
      number (by decide) rfl, Ipv4.shows_fragment, number (by decide) rfl, number (by decide) rfl,
      number (by decide) rfl, dotted (by decide) rfl, dotted (by decide) rfl, nofun⟩
  | ipv6 =>
    simp only [words, List.forall_mem_cons]
    exact ⟨Ipv6.shows_firstWord length, number (by decide) rfl, number (by decide) rfl,
      number (by decide) rfl, octets (by decide) rfl, octets (by decide) rfl, nofun⟩
  | icmp =>
    simp only [words, List.forall_mem_cons]
    exact ⟨number (by decide) rfl, number (by decide) rfl, number (by decide) rfl, nofun⟩
  | udp =>
    simp only [words, List.forall_mem_cons]
    exact ⟨number (by decide) rfl, number (by decide) rfl, number (by decide) rfl,
      number (by decide) rfl, nofun⟩

theorem Layer.describes (l : Layer) : Describes l.words l.format where
  tiles := l.tiles
  width := by cases l <;> decide
  sized := by cases l <;> decide
  shows _ length := l.shows length
  computed := l.computed
  named := l.named
  settable := l.settable

/-! ### Headers that read the same -/

namespace Ipv4

def withoutReserved (h : Bytes) : Bytes := h.set 6 (UInt8.ofNat (h.octet 6 % 128))

/-- Whether headers have the same octets, up to the reserved bit. -/
structure Alike (h k : Bytes) : Prop where
  other : ∀ i, i ≠ 6 → h[i]? = k[i]?
  flags : h.octet 6 % 128 = k.octet 6 % 128

theorem Alike.symm {h k : Bytes} (alike : Alike h k) : Alike k h where
  other i other := (alike.other i other).symm
  flags := alike.flags.symm

theorem Alike.trans {h k m : Bytes} (first : Alike h k) (second : Alike k m) : Alike h m where
  other i other := (first.other i other).trans (second.other i other)
  flags := first.flags.trans second.flags

theorem Alike.octets_eq {h k : Bytes} (alike : Alike h k) {f : Field}
    (apart : f.offset + f.width ≤ 6 ∨ 6 < f.offset) : f.octets h = f.octets k := by
  refine List.ext_getElem? fun i => ?_
  rw [Field.octets, Field.octets, Bytes.getElem?_slice, Bytes.getElem?_slice]
  split
  · exact alike.other _ (by omega)
  · rfl

theorem Alike.fragment_mod {k : Bytes} (alike : Alike h k) (length : h.length = 20)
    (length' : k.length = 20) : fragment.value h % 0x8000 = fragment.value k % 0x8000 := by
  have low : h.octet (6 + 1) = k.octet (6 + 1) := by
    simp only [Bytes.octet, List.getD_eq_getElem?_getD, alike.other (6 + 1) (by decide)]
  have flags := alike.flags
  rw [fragment, Field.value_two (by omega), Field.value_two (by omega), Bytes.word, Bytes.word, low]
  omega

theorem readings_of_alike {k : Bytes} (alike : Alike h k) (length : h.length = 20)
    (length' : k.length = 20) : format.readings h = format.readings k := by
  have shared := alike.fragment_mod length length'
  have unfragmented : dontFragment h = dontFragment k := by
    have bit : fragment.value h / 0x4000 % 2 = fragment.value k / 0x4000 % 2 := by omega
    rw [dontFragment, dontFragment, bit]
  have more : moreFragments h = moreFragments k := by
    have bit : fragment.value h / 0x2000 % 2 = fragment.value k / 0x2000 % 2 := by omega
    rw [moreFragments, moreFragments, bit]
  have offset : fragmentOffset h = fragmentOffset k := by
    simp only [fragmentOffset]
    omega
  have first := alike.octets_eq (f := versionAndLength) (by decide)
  have service := alike.octets_eq (f := service) (by decide)
  have total := alike.octets_eq (f := totalLength) (by decide)
  have identification := alike.octets_eq (f := identification) (by decide)
  have ttl := alike.octets_eq (f := ttl) (by decide)
  have protocol := alike.octets_eq (f := protocol) (by decide)
  have checksum := alike.octets_eq (f := headerChecksum) (by decide)
  have source := alike.octets_eq (f := source) (by decide)
  have destination := alike.octets_eq (f := destination) (by decide)
  simp only [format, version, headerWords, headerLength, differentiatedServices, congestion,
    isFragment, Field.value, unfragmented, more, offset, first, service, total, identification,
    ttl, protocol, checksum, source, destination]

theorem kept_fragmentBits (n : Nat) : kept n fragmentBits = n % 0x8000 := by
  rw [fragmentBits, kept, if_pos rfl, Nat.zero_mul, Nat.zero_add, kept_eq_mod (by decide)]
  rfl

section Cleared

variable {h : Bytes} (length : h.length = 20)
include length

theorem octet_withoutReserved : (withoutReserved h).octet 6 = h.octet 6 % 128 := by
  have small : h.octet 6 % 128 < 256 := by omega
  have here : (withoutReserved h)[6]? = some (UInt8.ofNat (h.octet 6 % 128)) :=
    List.getElem?_set_self (length ▸ by decide)
  rw [Bytes.octet, List.getD_eq_getElem?_getD, here]
  simp [Nat.mod_eq_of_lt small]

theorem alike_withoutReserved : Alike (withoutReserved h) h where
  other _ other := List.getElem?_set_ne other.symm
  flags := by rw [octet_withoutReserved length, Nat.mod_mod]

theorem cleared_words : cleared (Layer.words .ipv4) h = withoutReserved h := by
  have length' : (withoutReserved h).length = 20 := by rw [withoutReserved, List.length_set, length]
  have alike := alike_withoutReserved length
  have tiles : Tiles h.length 0 (Layer.words .ipv4) := length ▸ Layer.tiles .ipv4
  have tiles' : Tiles (withoutReserved h).length 0 (Layer.words .ipv4) :=
    length' ▸ Layer.tiles .ipv4
  have cases : ∀ w ∈ Layer.words .ipv4,
      w = ⟨fragment, fragmentBits, ["is_fragment"]⟩ ∨
        (w.field.offset + w.field.width ≤ 6 ∨ 6 < w.field.offset) ∧
          width w.bits = 8 * w.field.width ∧ ∀ b ∈ w.bits, b.kind ≠ .reserved := by decide
  have whole : ∀ w ∈ Layer.words .ipv4,
      Bytes.toBig w.field.width (kept (w.field.value h) w.bits) =
        w.field.octets (withoutReserved h) := by
    intro w mem
    have inside := (tiles.inside mem).2
    rcases cases w mem with rfl | ⟨apart, bits, seen⟩
    · have shared := alike.fragment_mod length' length
      have small : fragment.value (withoutReserved h) < 0x8000 := by
        have low := Bytes.octet_lt (withoutReserved h) (6 + 1)
        have high := octet_withoutReserved length
        rw [fragment, Field.value_two (by omega), Bytes.word]
        omega
      rw [kept_fragmentBits, ← shared, Nat.mod_eq_of_lt small, toBig_value (by omega)]
    · rw [kept_eq_mod seen, bits, Nat.mod_eq_of_lt (value_lt inside), toBig_value inside,
        alike.octets_eq apart]
  rw [cleared, List.flatMap_congr whole, tiles'.flatMap_octets]
  rfl

end Cleared

end Ipv4

/-- Every header but that of IPv4 is rebuilt from its readings, so no other header reads the same.
For IPv4 that is the header without its reserved bit, and headers read the same exactly if they are
alike up to that bit. -/
theorem header_of_readings :
    (∀ l : Layer, l ≠ .ipv4 → ∀ h : Bytes, h.length = l.format.headerLength →
      rebuild l.words (l.format.readings h) = h ∧
        ∀ k : Bytes, k.length = l.format.headerLength →
          l.format.readings k = l.format.readings h → k = h) ∧
      ∀ h : Bytes, h.length = 20 →
        rebuild (Layer.words .ipv4) (Ipv4.format.readings h) = Ipv4.withoutReserved h ∧
          ∀ k : Bytes, k.length = 20 →
            (Ipv4.format.readings k = Ipv4.format.readings h ↔ Ipv4.Alike k h) := by
  have rebuilt (l : Layer) (other : l ≠ .ipv4) {h : Bytes}
      (length : h.length = l.format.headerLength) :
      rebuild l.words (l.format.readings h) = h := by
    have seen : ∀ w ∈ l.words, ∀ b ∈ w.bits, b.kind ≠ .reserved := by
      cases l
      case ipv4 => exact absurd rfl other
      all_goals decide
    rw [l.describes.rebuild_readings length,
      cleared_eq_self (length ▸ l.tiles) l.describes.width seen]
  have shown {h : Bytes} (length : h.length = 20) :
      rebuild (Layer.words .ipv4) (Ipv4.format.readings h) = Ipv4.withoutReserved h :=
    ((Layer.describes .ipv4).rebuild_readings length).trans (Ipv4.cleared_words length)
  constructor
  · intro l other h length
    refine ⟨rebuilt l other length, fun k length' same => ?_⟩
    rw [← rebuilt l other length', same, rebuilt l other length]
  · intro h length
    refine ⟨shown length, fun k length' => ⟨fun same => ?_, fun alike => ?_⟩⟩
    · have cleared : Ipv4.withoutReserved k = Ipv4.withoutReserved h := by
        rw [← shown length', same, shown length]
      exact (cleared ▸ (Ipv4.alike_withoutReserved length').symm).trans
        (Ipv4.alike_withoutReserved length)
    · exact Ipv4.readings_of_alike alike length' length

def reservedHeader : Bytes := [
  0x4F, 0xB9, 0x05, 0xDC, 0x12, 0x34, 0xFF, 0xFE, 64, 17, 0xAB, 0xCD, 10, 0, 0, 1, 192, 168, 255, 2]

/-- The header reads as it does without its reserved bit, and is rebuilt without it; a first word of
IPv6, cut in the middle of octets, is rebuilt as it was. -/
theorem header_of_readings_reserved :
    Ipv4.format.readings reservedHeader =
        Ipv4.format.readings (Ipv4.withoutReserved reservedHeader) ∧
      rebuild (Layer.words .ipv4) (Ipv4.format.readings reservedHeader) =
        reservedHeader.take 6 ++ [0x7F, 0xFE] ++ reservedHeader.drop 8 ∧
      rebuild (Layer.words .ipv6)
          (Ipv6.format.readings ([0x6A, 0xBC, 0xDE, 0xF1] ++ List.replicate 36 0xA5)) =
        [0x6A, 0xBC, 0xDE, 0xF1] ++ List.replicate 36 0xA5 := by
  obtain ⟨others, ipv4⟩ := header_of_readings
  obtain ⟨-, same⟩ := ipv4 (Ipv4.withoutReserved reservedHeader) rfl
  exact ⟨(same reservedHeader rfl).mpr (Ipv4.alike_withoutReserved rfl).symm,
    (ipv4 reservedHeader rfl).1, (others .ipv6 (by decide) _ rfl).1⟩

end PacketLayers
