import PacketLayers.Proofs.Capture.Refill

namespace PacketLayers

namespace ByteOrder

variable (order : ByteOrder)

@[simp] theorem length_octets (width n : Nat) : (order.octets width n).length = width := by
  cases order with
  | little => exact Bytes.length_toLittle width n
  | big => exact Bytes.length_toBig width n

theorem value_octets (width n : Nat) :
    order.value (order.octets width n) = n % Bytes.span width := by
  cases order with
  | little => exact Bytes.ofLittle_toLittle width n
  | big => exact Bytes.ofBig_toBig width n

theorem value_octets_of_lt {width n : Nat} (h : n < Bytes.span width) :
    order.value (order.octets width n) = n := by
  rw [value_octets, Nat.mod_eq_of_lt h]

@[simp] theorem value_word16 (n : UInt16) : order.value (order.octets 2 n.toNat) = n.toNat :=
  order.value_octets_of_lt n.toNat_lt

@[simp] theorem value_word32 (n : UInt32) : order.value (order.octets 4 n.toNat) = n.toNat :=
  order.value_octets_of_lt n.toNat_lt

theorem exists_octets_two (n : UInt16) :
    ∃ a b, order.octets 2 n.toNat = [a, b] ∧ order.value [a, b] = n.toNat := by
  have value := order.value_word16 n
  cases order with
  | little => exact ⟨_, _, rfl, value⟩
  | big => exact ⟨_, _, rfl, value⟩

variable {order : ByteOrder} {width n start size : Nat} (rest : Bytes)

theorem slice_octets :
    Bytes.slice (order.octets width n ++ rest) 0 width = order.octets width n := by
  rw [Bytes.slice, List.drop_zero, List.take_append_of_le_length (by simp)]
  exact List.take_of_length_le (by simp)

theorem slice_octets_append (h : width ≤ start) :
    Bytes.slice (order.octets width n ++ rest) start size =
      Bytes.slice rest (start - width) size := by
  rw [Bytes.slice, Bytes.slice, List.drop_append, List.drop_eq_nil_of_le (by simpa using h),
    List.nil_append, length_octets]

theorem drop_octets_append (h : width ≤ start) :
    List.drop start (order.octets width n ++ rest) = List.drop (start - width) rest := by
  rw [List.drop_append, List.drop_eq_nil_of_le (by simpa using h), List.nil_append, length_octets]

end ByteOrder

namespace Window

variable {w : Window} {octets : Bytes} {start size : Nat}

theorem peek_of_prefix (begins : octets <+: w.ahead) (inside : start + size ≤ octets.length) :
    w.peek start size = octets.slice start size := by
  obtain ⟨rest, eq⟩ := begins
  rw [peek, ← eq, Bytes.slice, Bytes.slice, List.drop_append_of_le_length (by omega),
    List.take_append_of_le_length (by rw [List.length_drop]; omega)]

end Window

end PacketLayers
