import PacketLayers.Proofs.Protocol.Rewriting

namespace PacketLayers

theorem Draft.eq_of {d e : Draft} (format : d.format = e.format) (buffer : d.buffer = e.buffer) :
    d = e := by
  cases d
  cases e
  cases format
  cases buffer
  rfl

theorem Bytes.overwrite_slice {bs : Bytes} {place size : Nat} (fits : place + size ≤ bs.length) :
    bs.overwrite place (bs.slice place size) = bs := by
  have length := Bytes.length_slice fits
  rw [overwrite, length, slice, ← List.drop_drop, List.take_append_drop, List.take_append_drop]

namespace Ipv4

section Stored

variable {b : Bytes} (fits : 20 ≤ b.length)
include fits

theorem encode_stored : headerChecksum.encode (headerChecksum.value b) = b.slice 10 2 := by
  have length : (b.slice 10 2).length = 2 := Bytes.length_slice (by omega)
  have written := Bytes.toBig_ofBig (b.slice 10 2)
  rw [length] at written
  exact written

theorem stored_le : headerChecksum.value b ≤ 0xFFFF := by
  have length : (b.slice 10 2).reverse.length = 2 := by
    rw [List.length_reverse]
    exact Bytes.length_slice (by omega)
  have bound := Bytes.ofLittle_lt (b.slice 10 2).reverse
  rw [length] at bound
  exact Nat.le_of_lt_succ bound

theorem checksumOver_stored :
    checksumOver (b.take 20) (b.drop 20) =
      0xFFFF - onesSum (otherWords b + headerChecksum.value b) := by
  have inside : 10 + 2 ≤ b.length := by omega
  have words : (b.slice 10 2).wordTotal = headerChecksum.value b := by
    rw [← encode_stored fits]
    exact Bytes.wordTotal_toBig (stored_le fits)
  have summed := checksumOver_overwrite fits (Bytes.length_slice inside)
  rw [Bytes.overwrite_slice inside, words] at summed
  exact summed

end Stored

theorem otherWords_pos {p : Bytes} (packet : Holds p) : 0 < otherWords p := by
  obtain ⟨fits, four, -⟩ := packet
  match p, fits with
  | first :: second :: rest, _ =>
    have version : first.toNat / 16 = 4 := four
    simp only [otherWords, List.take_succ_cons, Bytes.wordTotal]
    omega

theorem freshChecksum_of_holds {p : Bytes} (packet : Holds p) :
    freshChecksum p =
      if headerChecksum.value p = 0xFFFF then 0 else headerChecksum.value p := by
  have positive := otherWords_pos packet
  have fits := packet.1
  have bound := stored_le fits
  have valid : checksumOver (p.take 20) (p.drop 20) = 0 := by
    obtain ⟨-, -, low, behind, inside, sum⟩ := packet
    rw [checksumOver_eq fits low (Nat.le_trans behind inside)]
    exact sum
  rw [checksumOver_stored fits] at valid
  have limit := onesSum_le (otherWords p + headerChecksum.value p)
  have ones : onesSum (otherWords p + headerChecksum.value p) = 0xFFFF := by omega
  obtain ⟨-, divides⟩ := (onesSum_eq_ones_iff _).mp ones
  rw [freshChecksum, onesSum, if_neg (Nat.ne_of_gt positive)]
  split <;> omega

/-- Only a checksum that is stored as 0xFFFF changes when that of a packet is refreshed. -/
theorem refreshChecksum_of_accepted {d : Draft} (ipv4 : d.format = format)
    (accepted : Frame.Accepts format d.buffer) :
    refreshChecksum d =
      if headerChecksum.value d.header = 0xFFFF then d.set headerChecksum (headerChecksum.encode 0)
      else d := by
  have packet := (accepts_iff _).mp accepted
  have fits := packet.1
  obtain ⟨fresh_format, fresh_buffer⟩ := buffer_refreshChecksum ipv4
  have read : headerChecksum.value d.header = headerChecksum.value d.buffer := by
    rw [(parts_of_format ipv4).1]
    exact Field.value_take (by decide) d.buffer
  rw [freshChecksum_of_holds packet] at fresh_buffer
  rw [read]
  split at fresh_buffer
  · rename_i ones
    rw [if_pos ones]
    obtain ⟨cleared_format, cleared_buffer⟩ := set_checksum ipv4 0
    exact Draft.eq_of (fresh_format.trans cleared_format.symm)
      (fresh_buffer.trans cleared_buffer.symm)
  · rename_i other
    rw [if_neg other]
    rw [encode_stored fits, Bytes.overwrite_slice (by omega)] at fresh_buffer
    exact Draft.eq_of (fresh_format.trans ipv4.symm) fresh_buffer

theorem refreshChecksum_refreshed {d : Draft} (ipv4 : d.format = format) :
    refreshChecksum (refreshChecksum d) = refreshChecksum d := by
  obtain ⟨-, -, fits⟩ := parts_of_format ipv4
  obtain ⟨once_format, once_buffer⟩ := buffer_refreshChecksum ipv4
  obtain ⟨twice_format, twice_buffer⟩ := buffer_refreshChecksum once_format
  have room : 10 + (headerChecksum.encode (freshChecksum d.buffer)).length ≤ d.buffer.length := by
    rw [length_encode]
    omega
  have same : freshChecksum (refreshChecksum d).buffer = freshChecksum d.buffer := by
    rw [once_buffer, freshChecksum, otherWords_overwrite fits (length_encode _), freshChecksum]
  apply Draft.eq_of
  · rw [twice_format, once_format]
  · rw [twice_buffer, same, once_buffer, Bytes.overwrite_overwrite room rfl]

/-- After any edits of a packet, refreshing its checksum makes the header sum to zero and touches
the two octets of the checksum only, and refreshing again changes nothing. If what the edits left is
a packet as it stands, refreshing changes nothing either, unless the checksum is stored as 0xFFFF;
that becomes zero. -/
theorem refreshed_of_edits {bs : Bytes} {d : Draft} (parsed : Draft.parse format bs = .ok d)
    (edits : List Draft.Edit) :
    let edited := d.edited edits
    let fresh := refreshChecksum edited
    checksumOver fresh.header fresh.body = 0 ∧
      fresh.buffer.length = edited.buffer.length ∧
      (∀ i, i ≠ 10 → i ≠ 11 → fresh.buffer[i]? = edited.buffer[i]?) ∧
      refreshChecksum fresh = fresh ∧
      ∀ f, Frame.parse format edited.buffer = .ok f →
        fresh = if headerChecksum.value f.header = 0xFFFF then
          edited.set headerChecksum (headerChecksum.encode 0) else edited := by
  intro edited fresh
  obtain ⟨ipv4, -⟩ := Draft.buffer_of_parse parsed
  have edited_format : edited.format = format := (d.format_edited edits).trans ipv4
  obtain ⟨header, -, fits⟩ := parts_of_format edited_format
  obtain ⟨fresh_format, w, two, buffer, sum⟩ := refreshChecksum_spec edited_format
  obtain ⟨fresh_header, fresh_body, -⟩ := parts_of_format fresh_format
  refine ⟨?_, ?_, ?_, refreshChecksum_refreshed edited_format, ?_⟩
  · rw [fresh_header, fresh_body]
    exact sum
  · rw [buffer]
    exact Bytes.length_overwrite (by omega)
  · intro i high low
    rw [buffer]
    exact getElem?_stored fits two high low
  · intro f accepted
    have read : f.header = edited.header := by
      rw [Frame.header_of_parse accepted, header]
      rfl
    rw [read]
    exact refreshChecksum_of_accepted edited_format (Frame.accepts_of_parse accepted)

def allOnes : Bytes := [
  0x45, 0, 0, 20, 0x66, 0xD7, 0, 0, 0x40, 0x11, 0xFF, 0xFF, 10, 0, 0, 1, 10, 0, 0, 2]

/-- The packet refreshed as it is, and after its header length was made to point behind it. -/
theorem refreshed_of_edits_allOnes :
    let d : Draft := ⟨format, allOnes, by decide⟩
    let longer : List Draft.Edit := [.poke .header 0 [0x4F]]
    Draft.parse format allOnes = .ok d ∧
      (∃ f, Frame.parse format allOnes = .ok f ∧ headerChecksum.value f.header = 0xFFFF) ∧
      refreshChecksum d = d.set headerChecksum [0, 0] ∧
      (let fresh := refreshChecksum (d.edited longer)
      checksumOver fresh.header fresh.body = 0 ∧ refreshChecksum fresh = fresh) := by
  intro d longer
  have accepted : Frame.Accepts format allOnes := (accepts_iff _).mpr (by decide)
  have parsed : Draft.parse format allOnes = .ok d := Draft.parse_of_accepts accepted
  have read := Frame.parse_eq_ok accepted
  have ones : headerChecksum.value (allOnes.take 20) = 0xFFFF := by decide
  obtain ⟨-, -, -, -, stored⟩ := refreshed_of_edits parsed []
  obtain ⟨sum, -, -, again, -⟩ := refreshed_of_edits parsed longer
  exact ⟨parsed, ⟨_, read, ones⟩, (stored _ read).trans (if_pos ones), sum, again⟩

end Ipv4

end PacketLayers
