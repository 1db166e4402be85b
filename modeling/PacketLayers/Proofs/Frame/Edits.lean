import PacketLayers.Proofs.Frame.Octets
import PacketLayers.Protocol.Ipv4
import PacketLayers.Protocol.Sample

/-!
Frames under edit. A draft shows what the frame that its buffer holds shows: when it is parsed, and
after any run of edits, whatever the edits made of the header and of the payload's place. An edit
writes what it addresses and nothing else.
-/
namespace PacketLayers

namespace Bytes

variable {bs data : Bytes} {start i : Nat}

theorem getElem?_overwrite_of_lt (fits : start + data.length ≤ bs.length) (before : i < start) :
    (bs.overwrite start data)[i]? = bs[i]? := by
  have length : (bs.take start).length = start := List.length_take_of_le (by omega)
  rw [overwrite, List.getElem?_append_left (by omega), List.getElem?_take_of_lt before]

theorem getElem?_overwrite_of_le (fits : start + data.length ≤ bs.length)
    (behind : start + data.length ≤ i) : (bs.overwrite start data)[i]? = bs[i]? := by
  have length : (bs.take start).length = start := List.length_take_of_le (by omega)
  rw [overwrite, List.getElem?_append_right (by omega), List.getElem?_append_right (by omega),
    List.getElem?_drop]
  congr 1
  omega

theorem getElem?_overwrite_inside (fits : start + data.length ≤ bs.length)
    (inside : i < data.length) :
    (bs.overwrite start data)[start + i]? = data[i]? := by
  have length : (bs.take start).length = start := List.length_take_of_le (by omega)
  rw [overwrite, List.getElem?_append_right (by omega), length, Nat.add_sub_cancel_left,
    List.getElem?_append_left inside]

theorem getElem?_slice (bs : Bytes) (start size i : Nat) :
    (bs.slice start size)[i]? = if i < size then bs[start + i]? else none := by
  simp only [slice, List.getElem?_take, List.getElem?_drop]

theorem slice_overwrite {place size : Nat}
    (fits : place + data.length ≤ bs.length)
    (apart : start + size ≤ place ∨ place + data.length ≤ start) :
    (bs.overwrite place data).slice start size = bs.slice start size := by
  refine List.ext_getElem? fun i => ?_
  rw [getElem?_slice, getElem?_slice]
  split
  · rcases apart with before | behind
    · exact getElem?_overwrite_of_lt fits (by omega)
    · exact getElem?_overwrite_of_le fits (by omega)
  · rfl

theorem slice_overwrite_here (fits : start + data.length ≤ bs.length) :
    (bs.overwrite start data).slice start data.length = data := by
  refine List.ext_getElem? fun i => ?_
  rw [getElem?_slice]
  split
  · rename_i inside
    exact getElem?_overwrite_inside fits inside
  · rename_i beyond
    exact (List.getElem?_eq_none (Nat.le_of_not_lt beyond)).symm

theorem drop_overwrite {n : Nat} (fits : start + data.length ≤ bs.length)
    (behind : start + data.length ≤ n) : (bs.overwrite start data).drop n = bs.drop n := by
  refine List.ext_getElem? fun i => ?_
  rw [List.getElem?_drop, List.getElem?_drop]
  exact getElem?_overwrite_of_le fits (by omega)

theorem overwrite_overwrite {first second : Bytes} {place : Nat}
    (fits : place + first.length ≤ bs.length) (same : first.length = second.length) :
    (bs.overwrite place first).overwrite place second = bs.overwrite place second := by
  have length : (bs.take place).length = place := List.length_take_of_le (by omega)
  have front : (bs.take place ++ (first ++ bs.drop (place + first.length))).take place =
      bs.take place := List.take_left' length
  have back : (bs.take place ++ (first ++ bs.drop (place + first.length))).drop
      (place + second.length) = bs.drop (place + first.length) := by
    rw [← List.append_assoc]
    exact List.drop_left' (by rw [List.length_append, length, same])
  rw [overwrite, overwrite, front, back, same, overwrite]

end Bytes

/-- All that can be read of a frame, the checksum that IPv4 takes over its header included. -/
structure View where
  readings : List (String × Field.Reading)
  header : Bytes
  body : Bytes
  size : Nat
  payloadRange : Bounds
  payload : Bytes
  headerChecksum : Nat

def Frame.view (f : Frame) : View where
  readings := f.format.readings f.header
  header := f.header
  body := f.body
  size := f.size
  payloadRange := f.payloadRange
  payload := f.payload
  headerChecksum := Ipv4.checksumOver f.header f.body

namespace Draft

def view (d : Draft) : View where
  readings := d.format.readings d.header
  header := d.header
  body := d.body
  size := d.buffer.length
  payloadRange := d.payloadRange
  payload := d.payload
  headerChecksum := Ipv4.checksumOver d.header d.body

def octets (d : Draft) : Region → Bytes
  | .header => d.header
  | .body => d.body
  | .payload => d.payload

/-- A change: a field of the header is set, or octets are written some positions into a region. -/
inductive Edit where
  | set (field : Field) (value : Bytes)
  | poke (region : Region) (start : Nat) (data : Bytes)

namespace Edit

def data : Edit → Bytes
  | set _ value => value
  | poke _ _ data => data

/-- Where an edit begins in the buffer as it stands. -/
def place (d : Draft) : Edit → Nat
  | set field _ => field.offset
  | poke region start _ => (d.extent region).start + start

/-- Where the octets end that an edit may write. -/
def limit (d : Draft) : Edit → Nat
  | set _ _ => d.buffer.length
  | poke region _ _ => (d.extent region).stop

end Edit

def edit (d : Draft) : Edit → Draft
  | .set field value => d.set field value
  | .poke region start data => (d.poke? region start data).getD d

def edited (d : Draft) (edits : List Edit) : Draft := edits.foldl edit d

variable (d : Draft)

theorem header_append_body : d.header ++ d.body = d.buffer := List.take_append_drop _ _

theorem size_frame : d.frame.size = d.buffer.length := by
  have fits := d.fits
  change d.format.headerLength + (d.buffer.drop d.format.headerLength).length = _
  rw [List.length_drop]
  omega

theorem payloadRange_frame : d.frame.payloadRange = d.payloadRange := by
  rw [Frame.payloadRange, size_frame]
  rfl

theorem payload_frame : d.frame.payload = d.payload := by
  have behind : d.format.headerLength ≤ d.payloadRange.start := Bounds.low_le_clamp_start d.fits
  rw [Frame.payload, payloadRange_frame, payload]
  change Bytes.slice (d.buffer.drop d.format.headerLength) _ _ = _
  rw [Bytes.slice, Bytes.slice, List.drop_drop]
  congr 2
  exact Nat.add_sub_cancel' behind

theorem view_frame : d.frame.view = d.view := by
  rw [Frame.view, size_frame, payloadRange_frame, payload_frame]
  rfl

theorem cast_buffer : Frame.cast? d.format d.buffer = some d.frame := dif_pos d.fits

theorem view_parse (format : Format) (bs : Bytes) :
    (Draft.parse format bs).map view = (Frame.parse format bs).map Frame.view := by
  unfold Draft.parse Frame.parse
  by_cases fits : format.headerLength ≤ bs.length
  · have cast := cast_buffer ⟨format, bs, fits⟩
    have shown := view_frame ⟨format, bs, fits⟩
    simp only at cast
    simp only [dif_pos fits, cast, frame]
    split
    · exact congrArg Except.ok shown.symm
    · rfl
  · rw [dif_neg fits, Frame.cast?, dif_neg fits]
    rfl

theorem buffer_of_parse {format : Format} {bs : Bytes} {d : Draft}
    (parsed : Draft.parse format bs = .ok d) : d.format = format ∧ d.buffer = bs := by
  unfold Draft.parse at parsed
  split at parsed
  · simp only at parsed
    split at parsed <;> cases parsed
    exact ⟨rfl, rfl⟩
  · cases parsed

theorem parse_of_accepts {format : Format} {bs : Bytes} (accepted : Frame.Accepts format bs) :
    Draft.parse format bs = .ok ⟨format, bs, accepted.1⟩ := by
  rw [Draft.parse, dif_pos accepted.1]
  exact if_pos accepted.2

theorem accepts_of_parse {format : Format} {bs : Bytes} {d : Draft}
    (parsed : Draft.parse format bs = .ok d) : Frame.Accepts format bs := by
  unfold Draft.parse at parsed
  split at parsed
  · rename_i fits
    simp only at parsed
    split at parsed
    · rename_i valid
      exact ⟨fits, valid⟩
    · cases parsed
  · cases parsed

theorem extent_stop_le (region : Region) : (d.extent region).stop ≤ d.buffer.length := by
  cases region with
  | header => exact d.fits
  | body => exact Nat.le_refl _
  | payload => exact Bounds.clamp_stop_le _ _ _

theorem extent_stop (region : Region) :
    (d.extent region).stop = (d.extent region).start + (d.octets region).length := by
  have fits := d.fits
  cases region with
  | header =>
    simp only [extent, octets, header, List.length_take]
    omega
  | body =>
    simp only [extent, octets, body, List.length_drop]
    omega
  | payload =>
    have ordered : d.payloadRange.start ≤ d.payloadRange.stop := Bounds.clamp_start_le_stop _ _ _
    have inside : d.payloadRange.stop ≤ d.buffer.length := Bounds.clamp_stop_le _ _ _
    have whole : d.payloadRange.start + d.payloadRange.size = d.payloadRange.stop :=
      Nat.add_sub_cancel' ordered
    simp only [extent, octets, payload]
    rw [Bytes.length_slice (by omega), whole]

theorem slice_extent (region : Region) :
    d.buffer.slice (d.extent region).start (d.octets region).length = d.octets region := by
  have stop := d.extent_stop region
  cases region with
  | header =>
    have length : d.header.length = d.format.headerLength := List.length_take_of_le d.fits
    simp only [extent, octets, length, Bytes.slice, List.drop_zero]
    rfl
  | body => exact List.take_length
  | payload =>
    simp only [extent, octets] at stop ⊢
    rw [← Nat.sub_eq_of_eq_add' stop]
    rfl

theorem limit_le (e : Edit) : e.limit d ≤ d.buffer.length := by
  cases e with
  | set field value => exact Nat.le_refl _
  | poke region start data => exact d.extent_stop_le region

theorem buffer_write {start : Nat} {data : Bytes} (inside : start + data.length ≤ d.buffer.length) :
    (d.write start data).buffer = d.buffer.overwrite start data := by
  rw [write, dif_pos inside]

theorem format_write (start : Nat) (data : Bytes) : (d.write start data).format = d.format := by
  unfold write
  split <;> rfl

/-- An edit that fits overwrites the octets at its place; any other changes nothing. -/
theorem buffer_edit (e : Edit) :
    (d.edit e).buffer =
      if e.place d + e.data.length ≤ e.limit d then d.buffer.overwrite (e.place d) e.data
      else d.buffer := by
  -- The limit lies inside the buffer, so an edit that keeps to it is a write that keeps to that.
  have inside := d.limit_le e
  split
  · rename_i fits
    have written := d.buffer_write (Nat.le_trans fits inside)
    cases e with
    | set field value => exact written
    | poke region start data =>
      have done : d.poke? region start data =
          some (d.write ((d.extent region).start + start) data) := if_pos fits
      rw [edit, done]
      exact written
  · rename_i beyond
    cases e with
    | set field value =>
      have none : d.write field.offset value = d := dif_neg beyond
      rw [edit, set, none]
    | poke region start data =>
      have none : d.poke? region start data = none := if_neg beyond
      rw [edit, none]
      rfl

theorem format_edit (e : Edit) : (d.edit e).format = d.format := by
  cases e with
  | set field value => exact d.format_write _ _
  | poke region start data =>
    unfold edit poke?
    simp only
    split
    · exact d.format_write _ _
    · rfl

theorem length_edit (e : Edit) : (d.edit e).buffer.length = d.buffer.length := by
  rw [buffer_edit]
  split
  · rename_i fits
    exact Bytes.length_overwrite (Nat.le_trans fits (d.limit_le e))
  · rfl

/-- How an edit leaves a buffer: as long as it was and the header still before the body, with what
the edit writes at its place and all else as before; and whatever is read of the draft is read of
its frame, which is the one that a cast finds in the buffer. The regions that it may write to are
those whose octets were read before. -/
structure Edit.Leaves (e : Edit) (before after : Draft) : Prop where
  regions : ∀ region : Region,
    (before.extent region).stop =
        (before.extent region).start + (before.octets region).length ∧
      before.buffer.slice (before.extent region).start (before.octets region).length =
        before.octets region
  length_eq : after.buffer.length = before.buffer.length
  parts : after.header ++ after.body = after.buffer
  outside : ∀ i, i < e.place before ∨ e.place before + e.data.length ≤ i →
    after.buffer[i]? = before.buffer[i]?
  inside : e.place before + e.data.length ≤ e.limit before →
    ∀ i, i < e.data.length → after.buffer[e.place before + i]? = e.data[i]?
  shown : after.frame.view = after.view
  cast : Frame.cast? before.format after.buffer = some after.frame

theorem leaves_edit (e : Edit) : e.Leaves d (d.edit e) where
  regions region := ⟨d.extent_stop region, d.slice_extent region⟩
  length_eq := d.length_edit e
  parts := (d.edit e).header_append_body
  outside i apart := by
    rw [buffer_edit]
    split
    · rename_i fits
      have within := Nat.le_trans fits (d.limit_le e)
      rcases apart with before | behind
      · exact Bytes.getElem?_overwrite_of_lt within before
      · exact Bytes.getElem?_overwrite_of_le within behind
    · rfl
  inside fits i written := by
    rw [buffer_edit, if_pos fits]
    exact Bytes.getElem?_overwrite_inside (Nat.le_trans fits (d.limit_le e)) written
  shown := (d.edit e).view_frame
  cast := by
    rw [← d.format_edit e]
    exact (d.edit e).cast_buffer

theorem edited_append (edits : List Edit) (e : Edit) :
    d.edited (edits ++ [e]) = (d.edited edits).edit e :=
  List.foldl_append

theorem format_edited (edits : List Edit) : (d.edited edits).format = d.format := by
  induction edits generalizing d with
  | nil => rfl
  | cons e edits ih => exact (ih (d.edit e)).trans (d.format_edit e)

theorem length_edited (edits : List Edit) : (d.edited edits).buffer.length = d.buffer.length := by
  induction edits generalizing d with
  | nil => rfl
  | cons e edits ih => exact (ih (d.edit e)).trans (d.length_edit e)

/-- Octets are parsed for editing exactly if they are parsed as a frame, with the same error if
not, and show the same. After any edits, one more edit leaves a draft of the same format and
length that shows what its frame shows. -/
theorem view_of_edits (format : Format) (bs : Bytes) :
    (Draft.parse format bs).map view = (Frame.parse format bs).map Frame.view ∧
      ∀ d, Draft.parse format bs = .ok d → d.buffer = bs ∧
        ∀ (earlier : List Edit) (e : Edit),
          (d.edited earlier).format = format ∧ (d.edited earlier).buffer.length = bs.length ∧
            e.Leaves (d.edited earlier) (d.edited (earlier ++ [e])) := by
  refine ⟨view_parse format bs, fun d parsed => ?_⟩
  obtain ⟨rfl, rfl⟩ := buffer_of_parse parsed
  refine ⟨rfl, fun earlier e => ⟨d.format_edited earlier, d.length_edited earlier, ?_⟩⟩
  rw [edited_append]
  exact (d.edited earlier).leaves_edit e

def envelope : Draft :=
  ⟨Sample.Outer.format, [0xA5, 0x01, 0x00, 0x01, 0x10, 0x20], by decide⟩

/-- A write into the payload, a length that points far behind the buffer, and a write to the last
octet of what is the payload then. -/
theorem view_of_edits_envelope :
    let first : List Edit := [.poke .payload 0 [0x11], .set Sample.Outer.bodyLength [0xFF, 0xFF]]
    let last : Edit := .poke .payload 1 [0x21]
    Draft.parse Sample.Outer.format envelope.buffer = .ok envelope ∧
      last.Leaves (envelope.edited first) (envelope.edited (first ++ [last])) ∧
      (envelope.edited (first ++ [last])).payload = [0x11, 0x21] :=
  ⟨rfl, (((view_of_edits Sample.Outer.format envelope.buffer).2 envelope rfl).2 _ _).2.2,
    by decide⟩

end Draft

end PacketLayers
