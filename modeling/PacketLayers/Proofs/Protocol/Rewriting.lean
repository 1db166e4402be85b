import PacketLayers.Proofs.Frame.Edits
import PacketLayers.Proofs.Protocol.Acceptance

/-!
IPv4 headers rewritten in place. The checksum that is stored last makes the header sum to zero,
whatever was written before it; so only the lengths that the header states decide if it is a packet.
-/
namespace PacketLayers

namespace Ipv4

/-- The sum over a header, however long it claims to be, without its checksum. -/
def otherWords (b : Bytes) : Nat :=
  Bytes.wordTotal (b.take 10) +
    Bytes.wordTotal ((b.take 20).drop 12 ++ options (b.take 20) (b.drop 20))

theorem length_encode (n : Nat) : (headerChecksum.encode n).length = 2 := Bytes.length_toBig 2 n

section Stored

variable {b w : Bytes} (fits : 20 ≤ b.length) (two : w.length = 2)
include fits two

theorem octets_overwrite {f : Field} (inside : f.offset + f.width ≤ 20)
    (apart : f.offset + f.width ≤ 10 ∨ 12 ≤ f.offset) :
    f.octets ((b.overwrite 10 w).take 20) = f.octets (b.take 20) := by
  have room : 10 + w.length ≤ b.length := by omega
  have other : f.offset + f.width ≤ 10 ∨ 10 + w.length ≤ f.offset := by omega
  rw [Field.octets, Field.octets, Bytes.slice_take inside, Bytes.slice_take inside,
    Bytes.slice_overwrite room other]

theorem getElem?_stored {i : Nat} (high : i ≠ 10) (low : i ≠ 11) :
    (b.overwrite 10 w)[i]? = b[i]? := by
  have room : 10 + w.length ≤ b.length := by omega
  by_cases before : i < 10
  · exact Bytes.getElem?_overwrite_of_lt room before
  · exact Bytes.getElem?_overwrite_of_le room (by omega)

theorem drop_overwrite : (b.overwrite 10 w).drop 20 = b.drop 20 :=
  Bytes.drop_overwrite (by omega) (by omega)

theorem take_overwrite :
    (b.overwrite 10 w).take 20 = b.take 10 ++ (w ++ (b.take 20).drop 12) := by
  have front : (b.take 10).length = 10 := List.length_take_of_le (by omega)
  rw [Bytes.overwrite, List.take_append, front, List.take_append, two, List.take_take,
    List.take_of_length_le (by omega : w.length ≤ 20 - 10), List.drop_take]
  rfl

theorem options_overwrite :
    options ((b.overwrite 10 w).take 20) (b.drop 20) = options (b.take 20) (b.drop 20) := by
  have length : headerLength ((b.overwrite 10 w).take 20) = headerLength (b.take 20) := by
    simp only [headerLength, headerWords, Field.value]
    rw [octets_overwrite fits two (by decide) (.inl (by decide))]
  rw [options, length, options]

theorem otherWords_overwrite : otherWords (b.overwrite 10 w) = otherWords b := by
  have front : (b.take 10).length = 10 := List.length_take_of_le (by omega)
  have before : (b.overwrite 10 w).take 10 = b.take 10 := List.take_left' front
  have behind : ((b.overwrite 10 w).take 20).drop 12 = (b.take 20).drop 12 := by
    rw [take_overwrite fits two, ← List.append_assoc]
    exact List.drop_left' (by rw [List.length_append, front, two])
  rw [otherWords, before, behind, drop_overwrite fits two, options_overwrite fits two, otherWords]

theorem checksumOver_overwrite :
    checksumOver ((b.overwrite 10 w).take 20) ((b.overwrite 10 w).drop 20) =
      0xFFFF - onesSum (otherWords b + w.wordTotal) := by
  have front : (b.take 10).length % 2 = 0 := by
    rw [List.length_take_of_le (by omega)]
  have even : w.length % 2 = 0 := by omega
  rw [drop_overwrite fits two, checksumOver, options_overwrite fits two, finish_add_add,
    checksum_eq, internetChecksum, take_overwrite fits two, List.append_assoc, List.append_assoc,
    Bytes.wordTotal_append front, Bytes.wordTotal_append even, Nat.add_comm w.wordTotal,
    ← Nat.add_assoc, otherWords]

theorem readings_overwrite :
    (format.readings ((b.overwrite 10 w).take 20)).filter (·.1 ≠ "checksum") =
      (format.readings (b.take 20)).filter (·.1 ≠ "checksum") := by
  have same (f : Field) (inside : f.offset + f.width ≤ 20)
      (apart : f.offset + f.width ≤ 10 ∨ 12 ≤ f.offset) :
      f.octets ((b.overwrite 10 w).take 20) = f.octets (b.take 20) :=
    octets_overwrite fits two inside apart
  have first := same versionAndLength (by decide) (by decide)
  have service := same service (by decide) (by decide)
  have total := same totalLength (by decide) (by decide)
  have identification := same identification (by decide) (by decide)
  have fragment := same fragment (by decide) (by decide)
  have ttl := same ttl (by decide) (by decide)
  have protocol := same protocol (by decide) (by decide)
  have source := same source (by decide) (by decide)
  have destination := same destination (by decide) (by decide)
  simp [format, version, headerWords, headerLength, differentiatedServices, congestion,
    dontFragment, moreFragments, fragmentOffset, isFragment, Field.value, first, service, total,
    identification, fragment, ttl, protocol, source, destination]

end Stored

theorem parts_of_format {d : Draft} (ipv4 : d.format = format) :
    d.header = d.buffer.take 20 ∧ d.body = d.buffer.drop 20 ∧ 20 ≤ d.buffer.length := by
  have fits := d.fits
  rw [Draft.header, Draft.body]
  rw [ipv4] at fits ⊢
  exact ⟨rfl, rfl, fits⟩

theorem payload_of_format {d : Draft} (ipv4 : d.format = format)
    (fits : format.headerLength ≤ d.buffer.length) :
    d.payload = (Frame.split format d.buffer fits).payload := by
  obtain ⟨other, buffer, long⟩ := d
  subst ipv4
  exact (Draft.payload_frame _).symm

theorem set_checksum {d : Draft} (ipv4 : d.format = format) (n : Nat) :
    (d.set headerChecksum (headerChecksum.encode n)).format = format ∧
      (d.set headerChecksum (headerChecksum.encode n)).buffer =
        d.buffer.overwrite 10 (headerChecksum.encode n) := by
  obtain ⟨-, -, fits⟩ := parts_of_format ipv4
  have room : 10 + (headerChecksum.encode n).length ≤ d.buffer.length := by
    rw [length_encode]
    omega
  exact ⟨(d.format_write _ _).trans ipv4, d.buffer_write room⟩

def freshChecksum (b : Bytes) : Nat := 0xFFFF - onesSum (otherWords b)

theorem freshChecksum_le (b : Bytes) : freshChecksum b ≤ 0xFFFF := Nat.sub_le _ _

theorem buffer_refreshChecksum {d : Draft} (ipv4 : d.format = format) :
    (refreshChecksum d).format = format ∧
      (refreshChecksum d).buffer =
        d.buffer.overwrite 10 (headerChecksum.encode (freshChecksum d.buffer)) := by
  let cleared := d.set headerChecksum (headerChecksum.encode 0)
  let sum := checksumOver cleared.header cleared.body
  obtain ⟨-, -, fits⟩ := parts_of_format ipv4
  obtain ⟨cleared_format, cleared_buffer⟩ := set_checksum ipv4 0
  obtain ⟨final_format, final_buffer⟩ := set_checksum cleared_format sum
  have sum_eq : sum = freshChecksum d.buffer := by
    obtain ⟨header, body, -⟩ := parts_of_format cleared_format
    simp only [sum, cleared]
    rw [header, body, cleared_buffer, checksumOver_overwrite fits (length_encode 0)]
    rfl
  have room : 10 + (headerChecksum.encode 0).length ≤ d.buffer.length := by
    rw [length_encode]
    omega
  have same : (headerChecksum.encode 0).length = (headerChecksum.encode sum).length := by
    rw [length_encode, length_encode]
  rw [← sum_eq]
  refine ⟨final_format, final_buffer.trans ?_⟩
  rw [cleared_buffer, Bytes.overwrite_overwrite room same]

theorem refreshChecksum_spec {d : Draft} (ipv4 : d.format = format) :
    (refreshChecksum d).format = format ∧
      ∃ w, w.length = 2 ∧ (refreshChecksum d).buffer = d.buffer.overwrite 10 w ∧
        checksumOver ((refreshChecksum d).buffer.take 20)
          ((refreshChecksum d).buffer.drop 20) = 0 := by
  obtain ⟨-, -, fits⟩ := parts_of_format ipv4
  obtain ⟨final_format, buffer⟩ := buffer_refreshChecksum ipv4
  have stored : Bytes.wordTotal (headerChecksum.encode (freshChecksum d.buffer)) =
      freshChecksum d.buffer := Bytes.wordTotal_toBig (freshChecksum_le d.buffer)
  refine ⟨final_format, _, length_encode _, buffer, ?_⟩
  rw [buffer, checksumOver_overwrite fits (length_encode _), stored, freshChecksum,
    onesSum_add_complement]

/-- Whether a header's version and lengths agree with each other and with what there is. -/
def Consistent (p : Bytes) : Prop :=
  p.octet 0 / 16 = 4 ∧ 5 ≤ p.octet 0 % 16 ∧ headerEnd p ≤ p.length ∧ headerEnd p ≤ p.word 2 ∧
    p.word 2 ≤ p.length

instance (p : Bytes) : Decidable (Consistent p) := inferInstanceAs (Decidable (_ ∧ _))

theorem Holds.consistent {p : Bytes} (packet : Holds p) : Consistent p := by
  obtain ⟨-, four, low, behind, inside, -⟩ := packet
  have words : 5 ≤ p.octet 0 % 16 := by
    rw [headerEnd] at low
    omega
  exact ⟨four, words, Nat.le_trans behind inside, behind, inside⟩

theorem accepts_iff_of_sum {p : Bytes} (fits : 20 ≤ p.length)
    (sum : checksumOver (p.take 20) (p.drop 20) = 0) :
    Frame.Accepts format p ↔ Consistent p := by
  rw [accepts_iff]
  refine ⟨Holds.consistent, fun ⟨four, words, high, behind, inside⟩ => ?_⟩
  have low : 20 ≤ headerEnd p := by
    rw [headerEnd]
    omega
  exact ⟨fits, four, low, behind, inside, (checksumOver_eq fits low high).symm.trans sum⟩

theorem Consistent.congr {p q : Bytes} (consistent : Consistent p)
    (length : q.length = p.length) (same : ∀ i ∈ [0, 2, 3], q[i]? = p[i]?) : Consistent q := by
  have octet (i : Nat) (known : i ∈ [0, 2, 3]) : q.octet i = p.octet i := by
    simp only [Bytes.octet, List.getD_eq_getElem?_getD, same i known]
  have total : q.word 2 = p.word 2 := by
    rw [Bytes.word, octet 2 (by decide), octet 3 (by decide), Bytes.word]
  have ends : headerEnd q = headerEnd p := by
    rw [headerEnd, octet 0 (by decide), headerEnd]
  rw [Consistent, octet 0 (by decide), ends, total, length]
  exact consistent

theorem payload_overwrite {b w : Bytes} (two : w.length = 2)
    (fits : format.headerLength ≤ b.length)
    (longer : format.headerLength ≤ (b.overwrite 10 w).length) :
    (Frame.split format (b.overwrite 10 w) longer).payload =
      (Frame.split format b fits).payload := by
  have long : 20 ≤ b.length := fits
  have first := octets_overwrite long two (f := versionAndLength) (by decide) (by decide)
  have total := octets_overwrite long two (f := totalLength) (by decide) (by decide)
  have claim : format.bounds ((b.overwrite 10 w).take 20) b.length =
      format.bounds (b.take 20) b.length := by
    simp only [format, headerLength, headerWords, Field.value, first, total]
  have range : (Frame.split format (b.overwrite 10 w) longer).payloadRange =
      (Frame.split format b fits).payloadRange := by
    rw [Frame.payloadRange, Frame.payloadRange, Frame.size_split, Frame.size_split,
      Bytes.length_overwrite (by omega)]
    exact congrArg (Bounds.clamp · 20 b.length) claim
  have body : (Frame.split format (b.overwrite 10 w) longer).body =
      (Frame.split format b fits).body := drop_overwrite long two
  rw [Frame.payload, range, body, Frame.payload]
  rfl

/-- Whether a frame shows what a draft shows, all fields but the checksum included. -/
structure Matches (f : Frame) (d : Draft) : Prop where
  payload : f.payload = d.payload
  body : f.body = d.body
  header : ∀ i, i ≠ 10 → i ≠ 11 → f.header[i]? = d.header[i]?
  readings : (format.readings f.header).filter (·.1 ≠ "checksum") =
    (format.readings d.header).filter (·.1 ≠ "checksum")

theorem matches_overwrite {d : Draft} (ipv4 : d.format = format) {w : Bytes} (two : w.length = 2)
    (long : format.headerLength ≤ (d.buffer.overwrite 10 w).length) :
    Matches (Frame.split format (d.buffer.overwrite 10 w) long) d := by
  obtain ⟨header, body, fits⟩ := parts_of_format ipv4
  exact {
    payload := by
      rw [payload_of_format ipv4 fits]
      exact payload_overwrite two fits long
    body := by
      rw [body]
      exact drop_overwrite fits two
    header := by
      intro i high low
      change ((d.buffer.overwrite 10 w).take 20)[i]? = _
      rw [header, List.getElem?_take, List.getElem?_take, getElem?_stored fits two high low]
    readings := by
      rw [header]
      exact readings_overwrite fits two }

theorem parse_refreshed {d : Draft} (ipv4 : d.format = format) :
    (Consistent (refreshChecksum d).buffer →
      ∃ f, Frame.parse format (refreshChecksum d).buffer = .ok f ∧ Matches f d) ∧
    (¬ Consistent (refreshChecksum d).buffer →
      Frame.parse format (refreshChecksum d).buffer = .error (.invalid "ipv4")) := by
  obtain ⟨-, -, fits⟩ := parts_of_format ipv4
  obtain ⟨-, w, two, buffer, sum⟩ := refreshChecksum_spec ipv4
  have long : format.headerLength ≤ (refreshChecksum d).buffer.length := by
    rw [buffer, Bytes.length_overwrite (by omega)]
    exact fits
  have rule := accepts_iff_of_sum long sum
  constructor
  · intro consistent
    refine ⟨_, Frame.parse_eq_ok (rule.mpr consistent), ?_⟩
    simp only [buffer]
    exact matches_overwrite ipv4 two (buffer ▸ long)
  · intro other
    exact Frame.parse_eq_invalid long (mt rule.mp other)

theorem consistent_refreshed {d : Draft} (ipv4 : d.format = format) {bs : Bytes}
    (before : Consistent bs) (length : d.buffer.length = bs.length)
    (kept : ∀ i ∈ [0, 2, 3], d.buffer[i]? = bs[i]?) : Consistent (refreshChecksum d).buffer := by
  obtain ⟨-, -, fits⟩ := parts_of_format ipv4
  obtain ⟨-, w, two, buffer, -⟩ := refreshChecksum_spec ipv4
  rw [buffer]
  refine before.congr ?_ fun i known => ?_
  · rw [Bytes.length_overwrite (by omega), length]
  · have other : i ≠ 10 ∧ i ≠ 11 := by
      simp only [List.mem_cons, List.not_mem_nil, or_false] at known
      omega
    rw [getElem?_stored fits two other.1 other.2, kept i known]

/-- After any edits of a packet, its refreshed octets are parsed as a packet exactly if version and
lengths agree as they stand then, and are refused as invalid if not. What is parsed shows what the
edits left; edits that leave version and lengths alone always leave a packet. -/
theorem parse_of_refreshed {bs : Bytes} {d : Draft} (parsed : Draft.parse format bs = .ok d)
    (edits : List Draft.Edit) :
    let edited := d.edited edits
    let final := (refreshChecksum edited).buffer
    ((∃ f, Frame.parse format final = .ok f) ↔ Consistent final) ∧
      (¬ Consistent final → Frame.parse format final = .error (.invalid "ipv4")) ∧
      (∀ f, Frame.parse format final = .ok f → Matches f edited) ∧
      ((∀ i ∈ [0, 2, 3], edited.buffer[i]? = bs[i]?) →
        ∃ f, Frame.parse format final = .ok f ∧ Matches f edited) := by
  intro edited final
  obtain ⟨ipv4, rfl⟩ := Draft.buffer_of_parse parsed
  have edited_format : edited.format = format := (d.format_edited edits).trans ipv4
  obtain ⟨accepted, refused⟩ := parse_refreshed edited_format
  have consistent (f : Frame) (found : Frame.parse format final = .ok f) : Consistent final := by
    refine Classical.byContradiction fun other => ?_
    rw [refused other] at found
    cases found
  refine ⟨⟨fun ⟨f, found⟩ => consistent f found, fun agree => ?_⟩, refused, ?_, fun kept => ?_⟩
  · obtain ⟨f, found, -⟩ := accepted agree
    exact ⟨f, found⟩
  · intro f found
    obtain ⟨g, again, shown⟩ := accepted (consistent f found)
    cases found.symm.trans again
    exact shown
  · have before : Holds d.buffer := (accepts_iff _).mp (Draft.accepts_of_parse parsed)
    exact accepted
      (consistent_refreshed edited_format before.consistent (d.length_edited edits) kept)

def shortPacket : Bytes := [
  0x45, 0, 0, 22, 0, 0, 0x40, 0, 64, 17, 0x26, 0xD5, 10, 0, 0, 1, 10, 0, 0, 2, 0xAA, 0xBB]

/-- A packet sent on with fewer hops, to another host and with another payload; and the same with a
header length that points behind the packet. -/
theorem parse_of_refreshed_shortPacket :
    let d : Draft := ⟨format, shortPacket, by decide⟩
    let sent : List Draft.Edit :=
      [.set ttl [1], .set destination [192, 168, 1, 1], .poke .payload 1 [0xCC]]
    let broken := sent ++ [.poke .header 0 [0x4F]]
    Draft.parse format shortPacket = .ok d ∧
      (∀ i ∈ [0, 2, 3], (d.edited sent).buffer[i]? = shortPacket[i]?) ∧
      (∃ f, Frame.parse format (refreshChecksum (d.edited sent)).buffer = .ok f ∧
        f.payload = [0xAA, 0xCC]) ∧
      ¬ Consistent (refreshChecksum (d.edited broken)).buffer ∧
      Frame.parse format (refreshChecksum (d.edited broken)).buffer =
        .error (.invalid "ipv4") := by
  intro d sent broken
  have packet : Holds shortPacket := by decide
  have parsed : Draft.parse format shortPacket = .ok d :=
    Draft.parse_of_accepts ((accepts_iff _).mpr packet)
  have kept : ∀ i ∈ [0, 2, 3], (d.edited sent).buffer[i]? = shortPacket[i]? := by decide
  have other : ¬ Consistent (refreshChecksum (d.edited broken)).buffer := by decide
  obtain ⟨f, found, shown⟩ := (parse_of_refreshed parsed sent).2.2.2 kept
  have payload : (d.edited sent).payload = [0xAA, 0xCC] := by decide
  exact ⟨parsed, kept, ⟨f, found, shown.payload.trans payload⟩, other,
    (parse_of_refreshed parsed broken).2.1 other⟩

end Ipv4

end PacketLayers
