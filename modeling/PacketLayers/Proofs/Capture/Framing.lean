import PacketLayers.Capture.Block
import PacketLayers.Proofs.Capture.Words

namespace PacketLayers.Block

variable {order : ByteOrder} {kind : Nat} {content : Bytes} {block : Block} {w : Window}

def frame (order : ByteOrder) (kind : Nat) (content : Bytes) : Bytes :=
  order.octets 4 kind ++ (order.octets 4 (content.length + 12) ++
    (content ++ order.octets 4 (content.length + 12)))

theorem length_frame : (frame order kind content).length = content.length + 12 := by
  simp only [frame, List.length_append, ByteOrder.length_octets]
  omega

theorem frame_ne_nil : frame order kind content ≠ [] := by
  intro none
  have length : (frame order kind content).length = content.length + 12 := length_frame
  rw [none] at length
  cases length

section Peek

variable (begins : frame order kind content <+: w.ahead)
include begins

theorem peek_kind : w.peek 0 4 = order.octets 4 kind := by
  rw [Window.peek_of_prefix begins (by rw [length_frame]; omega), frame, ByteOrder.slice_octets]

theorem peek_length : w.peek 4 4 = order.octets 4 (content.length + 12) := by
  rw [Window.peek_of_prefix begins (by rw [length_frame]; omega), frame,
    ByteOrder.slice_octets_append _ (by omega), ByteOrder.slice_octets]

theorem peek_content : w.peek 8 content.length = content := by
  rw [Window.peek_of_prefix begins (by rw [length_frame]; omega), frame,
    ByteOrder.slice_octets_append _ (by omega), ByteOrder.slice_octets_append _ (by omega)]
  exact List.take_left

theorem peek_inside (start : Nat) {size : Nat} (inside : start + size ≤ content.length) :
    w.peek (8 + start) size = content.slice start size := by
  rw [Window.peek_of_prefix begins (by rw [length_frame]; omega), frame,
    ByteOrder.slice_octets_append _ (by omega), ByteOrder.slice_octets_append _ (by omega)]
  simp only [Bytes.slice]
  rw [show 8 + start - 4 - 4 = start by omega, List.drop_append_of_le_length (by omega),
    List.take_append_of_le_length (by rw [List.length_drop]; omega)]

theorem peek_again : w.peek (8 + content.length) 4 = order.octets 4 (content.length + 12) := by
  rw [Window.peek_of_prefix begins (by rw [length_frame]; omega), frame,
    ByteOrder.slice_octets_append _ (by omega), ByteOrder.slice_octets_append _ (by omega)]
  rw [show 8 + content.length - 4 - 4 = content.length by omega, Bytes.slice, List.drop_left]
  exact List.take_of_length_le (by simp)

end Peek

def parsed (order : ByteOrder) (kind : Nat) (content : Bytes) : Except Stop Block :=
  if kind = Kind.sectionHeader then .ok (.section order) else ofContent order kind content true

/-- A block is framed by a length that its kind and the window allow, and has a meaning. -/
structure Framed (order : ByteOrder) (kind : Nat) (content : Bytes) (block : Block) : Prop where
  kind_lt : kind < UInt32.size
  least : minimum kind ≤ content.length + 12
  fits : content.length + 12 < Window.capacity
  parsed : parsed order kind content = .ok block

theorem Framed.length_eq (framed : Framed order kind content block)
    (begins : frame order kind content <+: w.ahead) :
    order.value (w.peek 4 4) = content.length + 12 := by
  have fits := framed.fits
  rw [peek_length begins]
  exact order.value_octets_of_lt (Nat.lt_trans fits (by decide))

theorem Framed.again_eq (framed : Framed order kind content block)
    (begins : frame order kind content <+: w.ahead) :
    order.value (w.peek (8 + content.length) 4) = content.length + 12 := by
  have fits := framed.fits
  rw [peek_again begins]
  exact order.value_octets_of_lt (Nat.lt_trans fits (by decide))

theorem recognizes_framed (framed : Framed order kind content block) :
    Recognizes (Block.framed order kind) (frame order kind content) block where
  short w begins less := by
    have least := framed.least
    have length := framed.length_eq begins
    rw [length_frame] at less ⊢
    simp only [Block.framed, length, if_neg (Nat.not_lt.mpr least), Nat.add_sub_cancel]
    by_cases few : w.loaded < minimum kind
    · exact ⟨_, if_pos few, by omega⟩
    · rw [if_neg few]
      by_cases head : w.loaded < 8
      · exact ⟨_, if_pos head, by omega⟩
      · rw [if_neg head]
        by_cases inside : w.loaded < 8 + content.length
        · exact ⟨_, if_pos inside, by omega⟩
        · rw [if_neg inside]
          exact ⟨_, if_pos (by omega), by omega⟩
  whole w begins loaded := by
    have least := framed.least
    have means := framed.parsed
    have length := framed.length_eq begins
    have again := framed.again_eq begins
    rw [length_frame] at loaded ⊢
    unfold parsed at means
    simp only [Block.framed, length, Nat.add_sub_cancel, again, peek_content begins,
      beq_self_eq_true, means]
    rw [if_neg (by omega), if_neg (by omega), if_neg (by omega), if_neg (by omega),
      if_neg (by omega)]
    exact ⟨_, rfl, rfl, Nat.add_comm 12 content.length⟩

theorem recognizes_next (framed : Framed order kind content block)
    (plain : kind ≠ Kind.sectionHeader) :
    Recognizes (next order) (frame order kind content) block := by
  refine (recognizes_framed framed).after_head 4 ?_ ?_ ?_
  · rw [length_frame]
    omega
  · intro w few
    exact if_pos few
  · intro w begins some
    unfold next
    rw [if_neg some, peek_kind begins, order.value_octets_of_lt framed.kind_lt]
    exact if_neg plain

def orderMagic : Nat := 0x1A2B3C4D

def header (order : ByteOrder) (tail : Bytes) : Bytes :=
  frame order Kind.sectionHeader (order.octets 4 orderMagic ++ tail)

section Header

variable {tail : Bytes}
  (framed : Framed order Kind.sectionHeader (order.octets 4 orderMagic ++ tail) block)
include framed

theorem recognizes_sectionHeader : Recognizes sectionHeader (header order tail) block := by
  have least : 28 ≤ (order.octets 4 orderMagic ++ tail).length + 12 := framed.least
  refine (recognizes_framed framed).after_head 12 ?_ ?_ ?_
  · rw [length_frame]
    omega
  · intro w few
    exact if_pos few
  · intro w begins some
    have magic : w.peek 8 4 = order.octets 4 orderMagic := by
      rw [peek_inside begins 0 (by omega), ByteOrder.slice_octets]
    have found : sectionOrder? w = Option.some order := by
      unfold sectionOrder?
      rw [magic]
      cases order <;> rfl
    unfold sectionHeader
    rw [if_neg some, found]

/-- It is the next block in every byte order, since its kind reads the same in both. -/
theorem recognizes_next_section (current : ByteOrder) :
    Recognizes (next current) (header order tail) block := by
  refine (recognizes_sectionHeader framed).after_head 4 ?_ ?_ ?_
  · rw [header, length_frame]
    omega
  · intro w few
    exact if_pos few
  · intro w begins some
    have kind : current.value (order.octets 4 Kind.sectionHeader) = Kind.sectionHeader := by
      cases current <;> cases order <;> rfl
    unfold next
    rw [if_neg some, peek_kind begins, kind]
    exact if_pos rfl

end Header

end PacketLayers.Block
