import PacketLayers.Capture.Legacy
import PacketLayers.Proofs.Capture.Words

namespace PacketLayers

theorem Bytes.slice_append_of_le {bs more : Bytes} {start size : Nat}
    (inside : start + size ≤ bs.length) :
    Bytes.slice (bs ++ more) start size = bs.slice start size := by
  rw [slice, slice, List.drop_append_of_le_length (by omega),
    List.take_append_of_le_length (by rw [List.length_drop]; omega)]

namespace Window

variable {α : Type} {parse : Window → Except Stop (Extent α)} {w : Window} {reach : Nat}

/-- What is loaded are the octets up to a reach, which may lie behind the end of the file. -/
structure Reaches (w : Window) (reach : Nat) : Prop where
  live : w.exhausted = false
  loaded_eq : w.loaded = min reach w.ahead.length

theorem reaches_ofFile (file : Bytes) : (ofFile file).Reaches capacity :=
  ⟨rfl, Nat.min_comm _ _⟩

theorem Reaches.consume (reaches : w.Reaches reach) (n : Nat) :
    (w.consume n).Reaches (reach - n) where
  live := reaches.live
  loaded_eq := by
    change w.loaded - n = min (reach - n) (w.ahead.drop n).length
    rw [List.length_drop, reaches.loaded_eq]
    omega

theorem Reaches.refill (reaches : w.Reaches reach) (more : reach < w.ahead.length)
    (room : reach < capacity) : w.refill.Reaches capacity where
  live := by
    have loaded := reaches.loaded_eq
    change (max w.loaded (min w.ahead.length capacity) == w.loaded) = false
    simp only [beq_eq_false_iff_ne]
    omega
  loaded_eq := by
    have loaded := reaches.loaded_eq
    change max w.loaded (min w.ahead.length capacity) = min capacity w.ahead.length
    omega

theorem Reaches.honest (reaches : w.Reaches reach) : w.Honest := by
  intro stuck
  rw [reaches.live] at stuck
  cases stuck

section Fetch

theorem fetch_of_idle (idle : w.loaded = 0) (live : w.exhausted = false) :
    w.fetch parse = w.refill.fetch parse := by
  rw [fetch, if_pos idle, dif_pos live]

theorem fetch_of_over (idle : w.loaded = 0) (stuck : ¬ w.exhausted = false) :
    w.fetch parse = (.ended, w) := by
  rw [fetch, if_pos idle, dif_neg stuck]

theorem fetch_of_parsed {extent : Extent α} (busy : w.loaded ≠ 0) (parsed : parse w = .ok extent) :
    w.fetch parse = (.record extent.value, w.consume extent.size) := by
  rw [fetch, if_neg busy, parsed]

theorem fetch_of_refused {e : ReadError} (busy : w.loaded ≠ 0)
    (refuses : parse w = .error (.refused e)) : w.fetch parse = (.failed e, w) := by
  rw [fetch, if_neg busy, refuses]

variable {missing : Nat} (busy : w.loaded ≠ 0) (asks : parse w = .error (.needs missing))
include busy asks

theorem fetch_of_stuck (stuck : ¬ w.exhausted = false) :
    w.fetch parse = (.failed .unexpectedEnd, w) := by
  rw [fetch, if_neg busy, asks]
  simp only
  rw [dif_neg stuck]

variable (live : w.exhausted = false)
include live

theorem fetch_of_room (room : w.loaded + missing < capacity) :
    w.fetch parse = w.refill.fetch parse := by
  rw [fetch, if_neg busy, asks]
  simp only
  rw [dif_pos live, if_neg (Nat.not_le.mpr room)]

theorem fetch_of_full (full : capacity ≤ w.loaded + missing) :
    w.fetch parse = (.failed .tooLarge, w) := by
  rw [fetch, if_neg busy, asks]
  simp only
  rw [dif_pos live, if_pos full]

end Fetch

theorem parsed_of_fetch {value : α} {behind : Window}
    (fetched : w.fetch parse = (.record value, behind)) :
    ∃ (full : Window) (extent : Extent α), full.ahead = w.ahead ∧ parse full = .ok extent ∧
      extent.value = value ∧ behind = full.consume extent.size := by
  fun_induction fetch parse w with
  | case1 w idle live ih => exact ih fetched
  | case2 => simp at fetched
  | case3 w busy extent parsed =>
    obtain ⟨same, rest⟩ := Prod.mk.inj fetched
    exact ⟨w, extent, rfl, parsed, Fetched.record.inj same, rest.symm⟩
  | case4 => simp at fetched
  | case5 => simp at fetched
  | case6 w busy missing asks live room ih => exact ih fetched
  | case7 => simp at fetched

theorem nil_of_fetch {behind : Window} (honest : w.Honest)
    (fetched : w.fetch parse = (.ended, behind)) : w.ahead = [] := by
  fun_induction fetch parse w with
  | case1 w idle live ih =>
    have room : w.loaded < capacity := by
      rw [idle]
      decide
    exact ih (honest_refill room) fetched
  | case2 w idle stuck =>
    have loaded := honest (by simpa using stuck)
    exact List.eq_nil_of_length_eq_zero (loaded.symm.trans idle)
  | case3 => simp at fetched
  | case4 => simp at fetched
  | case5 => simp at fetched
  | case6 w busy missing asks live room ih => exact ih (honest_refill (by omega)) fetched
  | case7 => simp at fetched

end Window

namespace Legacy

def Dialect.sizeOf (d : Dialect) (octets : Bytes) : Nat :=
  d.recordHeader + d.order.value (octets.slice 8 4)

def Dialect.recordOf (d : Dialect) (octets : Bytes) : Record :=
  ⟨d.order.value (octets.slice 0 4), d.order.value (octets.slice 4 4),
    octets.slice d.recordHeader (d.order.value (octets.slice 8 4))⟩

/-- The header of a record holds its four words, and does not fill the window. -/
structure Dialect.Usable (d : Dialect) : Prop where
  words : 16 ≤ d.recordHeader
  fits : d.recordHeader < Window.capacity

theorem usable_of_dialect {magic : Nat} {d : Dialect} (known : dialect? magic = some d) :
    d.Usable := by
  unfold dialect? at known
  repeat' split at known
  all_goals cases known
  all_goals exact ⟨by decide, by decide⟩

/-- Whether a record of a size gets into a window that reaches so many of its octets. -/
def Dialect.Admits (d : Dialect) (reach size : Nat) : Prop :=
  size < Window.capacity ∨ size = Window.capacity ∧ reach < d.recordHeader

instance (d : Dialect) (reach size : Nat) : Decidable (d.Admits reach size) :=
  inferInstanceAs (Decidable (_ ∨ _))

/-- How far the window reaches behind a record of a size. -/
def reachBehind (reach size : Nat) : Nat :=
  (if size ≤ reach then reach else Window.capacity) - size

namespace Dialect

variable {d : Dialect} {w : Window} {reach : Nat}

section Append

variable {octets : Bytes} (more : Bytes)

theorem sizeOf_append (usable : d.Usable) (head : d.recordHeader ≤ octets.length) :
    d.sizeOf (octets ++ more) = d.sizeOf octets := by
  have words := usable.words
  rw [sizeOf, sizeOf, Bytes.slice_append_of_le (by omega)]

theorem recordOf_append (usable : d.Usable) (whole : d.sizeOf octets ≤ octets.length) :
    d.recordOf (octets ++ more) = d.recordOf octets := by
  have words := usable.words
  unfold sizeOf at whole
  have captured : Bytes.slice (octets ++ more) 8 4 = octets.slice 8 4 :=
    Bytes.slice_append_of_le (by omega)
  rw [recordOf, recordOf, captured, Bytes.slice_append_of_le (by omega),
    Bytes.slice_append_of_le (by omega), Bytes.slice_append_of_le whole]

omit more in
theorem length_recordOf (whole : d.sizeOf octets ≤ octets.length) :
    d.recordHeader + (d.recordOf octets).data.length = d.sizeOf octets := by
  unfold sizeOf at whole ⊢
  rw [recordOf, Bytes.length_slice whole]

end Append

theorem record_of_head (few : w.loaded < d.recordHeader) :
    d.record w = .error (.needs (d.recordHeader - w.loaded)) :=
  if_pos few

theorem record_of_part (head : d.recordHeader ≤ w.loaded) (part : w.loaded < d.sizeOf w.ahead) :
    d.record w = .error (.needs (d.sizeOf w.ahead - w.loaded)) := by
  unfold record
  rw [if_neg (Nat.not_lt.mpr head)]
  exact if_pos part

theorem record_of_whole (usable : d.Usable) (whole : d.sizeOf w.ahead ≤ w.loaded) :
    ∃ found, d.record w = .ok found ∧ found.value = d.recordOf w.ahead ∧
      found.size = d.sizeOf w.ahead := by
  have words := usable.words
  have head : d.recordHeader ≤ d.sizeOf w.ahead := Nat.le_add_right _ _
  have nonempty : 0 < d.sizeOf w.ahead := by omega
  refine ⟨⟨d.recordOf w.ahead, d.sizeOf w.ahead, nonempty⟩, ?_, rfl, rfl⟩
  unfold record
  rw [if_neg (by omega)]
  exact (if_neg (Nat.not_lt.mpr whole)).trans (dif_pos nonempty)

theorem whole_of_record (usable : d.Usable) {found : Extent Record}
    (parsed : d.record w = .ok found) :
    d.sizeOf w.ahead ≤ w.loaded ∧ found.value = d.recordOf w.ahead ∧
      found.size = d.sizeOf w.ahead := by
  rcases Nat.lt_or_ge w.loaded d.recordHeader with few | head
  · rw [record_of_head few] at parsed
    cases parsed
  · rcases Nat.lt_or_ge w.loaded (d.sizeOf w.ahead) with part | whole
    · rw [record_of_part head part] at parsed
      cases parsed
    · obtain ⟨again, same, value, size⟩ := record_of_whole usable whole
      rw [parsed] at same
      cases same
      exact ⟨whole, value, size⟩

section Fetch

variable (usable : d.Usable) (reaches : w.Reaches reach)
  (present : d.sizeOf w.ahead ≤ w.ahead.length)
include usable reaches present

theorem fetch_of_loaded (inside : d.sizeOf w.ahead ≤ reach) :
    ∃ behind : Window, w.fetch d.record = (.record (d.recordOf w.ahead), behind) ∧
      behind.ahead = w.ahead.drop (d.sizeOf w.ahead) ∧
      behind.Reaches (reach - d.sizeOf w.ahead) := by
  have loaded := reaches.loaded_eq
  have words := usable.words
  have head : d.recordHeader ≤ d.sizeOf w.ahead := Nat.le_add_right _ _
  obtain ⟨found, parsed, value, size⟩ := record_of_whole usable (w := w) (by omega)
  -- The reach may lie behind the end of the file, but the whole record is there.
  refine ⟨w.consume found.size, ?_, ?_, ?_⟩
  · rw [Window.fetch_of_parsed (by omega) parsed, value]
  · rw [size]
    rfl
  · rw [← size]
    exact reaches.consume _

theorem fetch_of_head (few : reach < d.recordHeader) :
    w.fetch d.record = w.refill.fetch d.record ∧ w.refill.Reaches Window.capacity := by
  have head : d.recordHeader ≤ d.sizeOf w.ahead := Nat.le_add_right _ _
  have loaded := reaches.loaded_eq
  have fits := usable.fits
  refine ⟨?_, reaches.refill (by omega) (by omega)⟩
  by_cases idle : w.loaded = 0
  · exact Window.fetch_of_idle idle reaches.live
  · exact Window.fetch_of_room idle (record_of_head (by omega)) reaches.live (by omega)

theorem fetch_of_tooLarge (head : d.recordHeader ≤ reach) (part : reach < d.sizeOf w.ahead)
    (large : Window.capacity ≤ d.sizeOf w.ahead) :
    w.fetch d.record = (.failed .tooLarge, w) := by
  have words := usable.words
  have loaded := reaches.loaded_eq
  have asks := record_of_part (d := d) (w := w) (by omega) (by omega)
  exact Window.fetch_of_full (by omega) asks reaches.live (by omega)

variable (room : reach < Window.capacity)
include room

theorem fetch_of_admits (admits : d.Admits reach (d.sizeOf w.ahead)) :
    ∃ behind : Window, w.fetch d.record = (.record (d.recordOf w.ahead), behind) ∧
      behind.ahead = w.ahead.drop (d.sizeOf w.ahead) ∧
      behind.Reaches (reachBehind reach (d.sizeOf w.ahead)) := by
  by_cases inside : d.sizeOf w.ahead ≤ reach
  · rw [reachBehind, if_pos inside]
    exact fetch_of_loaded usable reaches present inside
  -- One load is enough, since the record is not longer than the window.
  · rw [reachBehind, if_neg inside]
    have again : w.fetch d.record = w.refill.fetch d.record ∧
        w.refill.Reaches Window.capacity := by
      by_cases few : reach < d.recordHeader
      · exact fetch_of_head usable reaches present few
      · have loaded := reaches.loaded_eq
        have words := usable.words
        have asks := record_of_part (d := d) (w := w) (by omega) (by omega)
        refine ⟨?_, reaches.refill (by omega) room⟩
        rcases admits with short | ⟨-, head⟩
        · exact Window.fetch_of_room (by omega) asks reaches.live (by omega)
        · exact absurd head few
    rw [again.1]
    have fits : d.sizeOf w.ahead ≤ Window.capacity := by
      rcases admits with short | ⟨same, -⟩ <;> omega
    exact fetch_of_loaded usable again.2 present fits

theorem fetch_of_not_admits (refused : ¬ d.Admits reach (d.sizeOf w.ahead)) :
    ∃ behind : Window, w.fetch d.record = (.failed .tooLarge, behind) := by
  have fits := usable.fits
  simp only [Admits, not_or, not_and, Nat.not_lt] at refused
  by_cases few : reach < d.recordHeader
  · obtain ⟨again, reaches⟩ := fetch_of_head usable reaches present few
    rw [again]
    have longer : Window.capacity < w.refill.ahead.length := by
      change Window.capacity < w.ahead.length
      omega
    refine ⟨w.refill, fetch_of_tooLarge usable reaches present (by omega) ?_ ?_⟩
    · change Window.capacity < d.sizeOf w.ahead
      omega
    · exact refused.1
  · exact ⟨w, fetch_of_tooLarge usable reaches present (by omega) (by omega) refused.1⟩

end Fetch

end Dialect

/-- A well-formed record: the words of its header, what else the header holds, and the data. -/
structure RecordForm (d : Dialect) where
  seconds : UInt32
  fraction : UInt32
  onWire : UInt32
  extra : Bytes
  data : Bytes
  header_length : 16 + extra.length = d.recordHeader
  short : data.length < UInt32.size

namespace RecordForm

variable {d : Dialect} (f : RecordForm d)

def size : Nat := d.recordHeader + f.data.length

def octets : Bytes :=
  d.order.octets 4 f.seconds.toNat ++ (d.order.octets 4 f.fraction.toNat ++
    (d.order.octets 4 f.data.length ++ (d.order.octets 4 f.onWire.toNat ++ (f.extra ++ f.data))))

def packet (linkType : Int) : Packet :=
  ⟨some (d.time f.seconds.toNat f.fraction.toNat), linkType, f.data⟩

theorem length_octets : f.octets.length = f.size := by
  have header := f.header_length
  simp only [octets, size, List.length_append, ByteOrder.length_octets]
  omega

theorem captured_eq : d.order.value (f.octets.slice 8 4) = f.data.length := by
  have captured : d.order.value (d.order.octets 4 f.data.length) = f.data.length :=
    d.order.value_octets_of_lt f.short
  rw [octets, ByteOrder.slice_octets_append _ (by omega),
    ByteOrder.slice_octets_append _ (by omega), ByteOrder.slice_octets, captured]

theorem sizeOf_octets : d.sizeOf f.octets = f.size := by
  rw [Dialect.sizeOf, captured_eq, size]

theorem recordOf_octets :
    d.recordOf f.octets = ⟨f.seconds.toNat, f.fraction.toNat, f.data⟩ := by
  have header := f.header_length
  have stored : f.octets.slice d.recordHeader f.data.length = f.data := by
    rw [octets, ByteOrder.slice_octets_append _ (by omega),
      ByteOrder.slice_octets_append _ (by omega), ByteOrder.slice_octets_append _ (by omega),
      ByteOrder.slice_octets_append _ (by omega), Bytes.slice, List.drop_left' (by omega)]
    exact List.take_length
  rw [Dialect.recordOf, captured_eq, stored, octets, ByteOrder.slice_octets,
    ByteOrder.slice_octets_append _ (by omega), ByteOrder.slice_octets, ByteOrder.value_word32,
    ByteOrder.value_word32]

end RecordForm

end Legacy

end PacketLayers
