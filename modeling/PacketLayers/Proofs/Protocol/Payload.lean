import PacketLayers.Dissect.Counters
import PacketLayers.Proofs.Protocol.Acceptance

namespace PacketLayers

/-- A place behind the header, which ends at `low`, and inside the frame, which ends at `high`. -/
structure Bounds.Within (b : Bounds) (low high : Nat) : Prop where
  behind : low ≤ b.start
  ordered : b.start ≤ b.stop
  inside : b.stop ≤ high

namespace Frame

theorem parse_eq_tooSmall_iff (format : Format) (bs : Bytes) (needed actual : Nat) :
    parse format bs = .error (.tooSmall needed actual) ↔
      bs.length < format.headerLength ∧ needed = format.headerLength ∧ actual = bs.length := by
  by_cases fits : format.headerLength ≤ bs.length
  · have long : ¬ bs.length < format.headerLength := Nat.not_lt.mpr fits
    by_cases accepted : Accepts format bs
    · simp [parse_eq_ok accepted, long]
    · simp [parse_eq_invalid fits accepted, long]
  · simp only [parse, cast?, dif_neg fits, Except.error.injEq, ParseError.tooSmall.injEq]
    omega

end Frame

namespace Layer

def format : Layer → Format
  | ethernet => Ethernet.format
  | arp => Arp.format
  | ipv4 => Ipv4.format
  | ipv6 => Ipv6.format
  | icmp => Icmp.format
  | udp => Udp.format

/-- Where the octets of a frame put its payload. -/
def place (bs : Bytes) : Layer → Bounds
  | ethernet => ⟨14, bs.length⟩
  | arp => ⟨28, bs.length⟩
  | ipv4 => ⟨Ipv4.headerEnd bs, bs.word 2⟩
  | ipv6 => ⟨40, 40 + bs.word 4⟩
  | icmp => ⟨4, bs.length⟩
  | udp => ⟨8, bs.word 4⟩

theorem claim_of_accepts (l : Layer) {bs : Bytes} (accepted : Frame.Accepts l.format bs) :
    l.format.bounds (bs.take l.format.headerLength) bs.length = l.place bs ∧
      (l.place bs).Within l.format.headerLength bs.length := by
  cases l with
  | ethernet => exact ⟨rfl, Nat.le_refl 14, accepted.1, Nat.le_refl _⟩
  | arp => exact ⟨rfl, Nat.le_refl 28, accepted.1, Nat.le_refl _⟩
  | icmp => exact ⟨rfl, Nat.le_refl 4, accepted.1, Nat.le_refl _⟩
  | ipv4 =>
    obtain ⟨fits, -, low, behind, inside, -⟩ := (Ipv4.accepts_iff bs).mp accepted
    obtain ⟨-, header, total, -, -⟩ := Ipv4.header_reads fits
    refine ⟨?_, low, behind, inside⟩
    simp only [format, Ipv4.format, place, header, total]
  | ipv6 =>
    obtain ⟨fits, -, inside⟩ := (Ipv6.accepts_iff bs).mp accepted
    obtain ⟨-, payload, -⟩ := Ipv6.header_reads fits
    refine ⟨?_, Nat.le_refl 40, Nat.le_add_right 40 _, inside⟩
    simp only [format, Ipv6.format, place, payload]
  | udp =>
    obtain ⟨fits, header, inside⟩ := (Udp.accepts_iff bs).mp accepted
    refine ⟨?_, Nat.le_refl 8, header, inside⟩
    simp only [format, Udp.format, place, Udp.length]
    rw [Field.value_take (by decide), Field.value_two (by omega)]

theorem split_of_accepts (l : Layer) {bs : Bytes} (accepted : Frame.Accepts l.format bs) :
    (Frame.split l.format bs accepted.1).payloadRange = l.place bs ∧
      (Frame.split l.format bs accepted.1).payload =
        (bs.take (l.place bs).stop).drop (l.place bs).start := by
  obtain ⟨claim, behind, ordered, inside⟩ := l.claim_of_accepts accepted
  exact ⟨Frame.payloadRange_split accepted.1 claim behind ordered inside,
    Frame.payload_split accepted.1 claim behind ordered inside⟩

end Layer

theorem Ipv4.Holds.of_header {p q : Bytes} (packet : Holds p) (length : q.length = p.length)
    (same : q.take (headerEnd p) = p.take (headerEnd p)) : Holds q := by
  obtain ⟨fits, version, low, behind, inside, sum⟩ := packet
  have octet (i : Nat) (early : i < 20) : q.octet i = p.octet i := by
    have before : i < headerEnd p := Nat.lt_of_lt_of_le early low
    have here : q[i]? = p[i]? := by
      rw [← List.getElem?_take_of_lt before, same, List.getElem?_take_of_lt before]
    simp only [Bytes.octet, List.getD_eq_getElem?_getD, here]
  have ends : headerEnd q = headerEnd p := by
    rw [headerEnd, octet 0 (by decide), headerEnd]
  have total : q.word 2 = p.word 2 := by
    rw [Bytes.word, octet 2 (by decide), octet 3 (by decide), Bytes.word]
  refine ⟨length ▸ fits, octet 0 (by decide) ▸ version, ends ▸ low, ?_, ?_, ?_⟩
  · rw [ends, total]
    exact behind
  · rw [total, length]
    exact inside
  · rw [ends, same]
    exact sum

/-- For each protocol, octets are too short exactly if the header does not fit, and the error tells
how many there are and how many are needed. What is accepted claims its payload behind the header
and inside the frame, and has the octets there as its payload. The checksum of an accepted IPv4
header is that of the octets up to the header's end, and whatever shares these octets and the
length is accepted too. -/
theorem payload_of_parse (bs : Bytes) :
    (∀ l : Layer,
      (∀ needed actual, Frame.parse l.format bs = .error (.tooSmall needed actual) ↔
        bs.length < l.format.headerLength ∧ needed = l.format.headerLength ∧
          actual = bs.length) ∧
      ∀ f, Frame.parse l.format bs = .ok f →
        f.size = bs.length ∧ l.format.bounds f.header f.size = l.place bs ∧
          (l.place bs).Within l.format.headerLength bs.length ∧ f.payloadRange = l.place bs ∧
          f.payload = (bs.take (l.place bs).stop).drop (l.place bs).start) ∧
    ∀ f, Frame.parse Ipv4.format bs = .ok f →
      Ipv4.checksumOver f.header f.body = checksum (bs.take (4 * Ipv4.headerWords f.header)) ∧
        ∀ other : Bytes, other.length = bs.length →
          other.take (4 * Ipv4.headerWords f.header) = bs.take (4 * Ipv4.headerWords f.header) →
          ∃ g, Frame.parse Ipv4.format other = .ok g := by
  refine ⟨fun l => ⟨Frame.parse_eq_tooSmall_iff l.format bs, fun f parsed => ?_⟩,
    fun f parsed => ?_⟩
  · have accepted := Frame.accepts_of_parse parsed
    obtain ⟨claim, within⟩ := l.claim_of_accepts accepted
    obtain ⟨range, payload⟩ := l.split_of_accepts accepted
    rw [Frame.parse_eq_ok accepted] at parsed
    cases parsed
    have size := Frame.size_split accepted.1
    rw [← size] at claim
    exact ⟨size, claim, within, range, payload⟩
  · have accepted := Frame.accepts_of_parse parsed
    have packet := (Ipv4.accepts_iff bs).mp accepted
    have ⟨fits, _, low, behind, inside, _⟩ := packet
    have ends : 4 * Ipv4.headerWords f.header = Ipv4.headerEnd bs := by
      rw [Frame.header_of_parse parsed]
      exact (Ipv4.header_reads fits).2.1
    rw [ends]
    rw [Frame.parse_eq_ok accepted] at parsed
    cases parsed
    refine ⟨?_, fun other length same => ?_⟩
    · rw [checksum_eq]
      exact Ipv4.checksumOver_eq fits low (Nat.le_trans behind inside)
    · exact ⟨_, Frame.parse_eq_ok ((Ipv4.accepts_iff other).mpr (packet.of_header length same))⟩

def paddedPacket : Bytes := [
  0x46, 0, 0, 26, 0, 7, 0x40, 0, 64, 17, 0x23, 0xC9, 10, 0, 0, 1, 10, 0, 0, 2, 1, 1, 1, 0,
  0xAA, 0xBB, 0xEE, 0xEE, 0xEE]

/-- The packet, the same with other payload and padding, and no more than most of its header. -/
theorem payload_of_parse_padded :
    (∃ f, Frame.parse Ipv4.format paddedPacket = .ok f ∧ f.payloadRange = ⟨24, 26⟩ ∧
        f.payload = [0xAA, 0xBB] ∧
        Ipv4.checksumOver f.header f.body = checksum (paddedPacket.take 24)) ∧
      (∃ g, Frame.parse Ipv4.format (paddedPacket.take 24 ++ [1, 2, 3, 4, 5]) = .ok g) ∧
      Frame.parse Ipv4.format (paddedPacket.take 19) = .error (.tooSmall 20 19) := by
  have packet : Ipv4.Holds paddedPacket := by decide
  have parsed := Frame.parse_eq_ok ((Ipv4.accepts_iff _).mpr packet)
  obtain ⟨layers, header⟩ := payload_of_parse paddedPacket
  obtain ⟨-, -, -, range, payload⟩ := (layers .ipv4).2 _ parsed
  obtain ⟨sum, others⟩ := header _ parsed
  have six : Ipv4.headerWords (paddedPacket.take 20) = 6 := by decide
  have words : Ipv4.headerWords
      (Frame.split Ipv4.format paddedPacket ((Ipv4.accepts_iff _).mpr packet).1).header = 6 := six
  rw [words] at sum others
  exact ⟨⟨_, parsed, range, payload, sum⟩, others _ (by decide) (by decide),
    (((payload_of_parse (paddedPacket.take 19)).1 .ipv4).1 20 19).mpr (by decide)⟩

end PacketLayers
