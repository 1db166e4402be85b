import PacketLayers.Frame.Basic

namespace PacketLayers

namespace Bytes

def word (bs : Bytes) (i : Nat) : Nat := 256 * bs.octet i + bs.octet (i + 1)

theorem octet_lt (bs : Bytes) (i : Nat) : bs.octet i < 256 := (bs.getD i 0).toNat_lt

theorem octet_append_of_lt {xs : Bytes} {i : Nat} (inside : i < xs.length) (ys : Bytes) :
    (xs ++ ys).octet i = xs.octet i := by
  simp [octet, List.getElem?_append_left inside]

theorem octet_append_length (xs ys : Bytes) (i : Nat) :
    (xs ++ ys).octet (xs.length + i) = ys.octet i := by
  simp [octet, List.getElem?_append_right]

theorem word_append_of_lt {xs : Bytes} {i : Nat} (inside : i + 1 < xs.length) (ys : Bytes) :
    (xs ++ ys).word i = xs.word i := by
  rw [word, word, octet_append_of_lt (Nat.lt_of_succ_lt inside), octet_append_of_lt inside]

theorem slice_take {bs : Bytes} {start size n : Nat} (inside : start + size ≤ n) :
    slice (bs.take n) start size = bs.slice start size := by
  simp only [slice, List.drop_take, List.take_take]
  congr 1
  omega

theorem slice_succ {bs : Bytes} {start size : Nat} (inside : start + (size + 1) ≤ bs.length) :
    bs.slice start (size + 1) = bs.getD start 0 :: bs.slice (start + 1) size := by
  have here : start < bs.length := by omega
  simp only [slice]
  rw [List.drop_eq_getElem_cons here, List.take_succ_cons]
  simp [here]

theorem ofLittle_append (xs ys : Bytes) :
    ofLittle (xs ++ ys) = ofLittle xs + span xs.length * ofLittle ys := by
  induction xs with
  | nil => simp [ofLittle, span]
  | cons x xs ih =>
    simp only [List.cons_append, ofLittle, ih, List.length_cons, span]
    rw [Nat.mul_add, Nat.mul_assoc, Nat.add_assoc]

theorem ofLittle_lt (bs : Bytes) : ofLittle bs < span bs.length := by
  induction bs with
  | nil => exact Nat.one_pos
  | cons b bs ih =>
    have low := b.toNat_lt
    simp only [ofLittle, List.length_cons, span]
    omega

theorem toLittle_ofLittle (bs : Bytes) : toLittle bs.length (ofLittle bs) = bs := by
  induction bs with
  | nil => rfl
  | cons b bs ih =>
    have low := b.toNat_lt
    have first : (b.toNat + 256 * ofLittle bs) % 256 = b.toNat := by omega
    have later : (b.toNat + 256 * ofLittle bs) / 256 = ofLittle bs := by omega
    simp only [List.length_cons, ofLittle, toLittle, first, later, ih, UInt8.ofNat_toNat]

theorem toBig_ofBig (bs : Bytes) : toBig bs.length (ofBig bs) = bs := by
  have reversed := toLittle_ofLittle bs.reverse
  rw [List.length_reverse] at reversed
  rw [toBig, ofBig, reversed, List.reverse_reverse]

theorem ofBig_cons (b : UInt8) (bs : Bytes) :
    ofBig (b :: bs) = b.toNat * span bs.length + ofBig bs := by
  simp only [ofBig, List.reverse_cons, ofLittle_append, ofLittle, List.length_reverse]
  rw [Nat.mul_zero, Nat.add_zero, Nat.add_comm, Nat.mul_comm]

theorem ofBig_slice_succ {bs : Bytes} {start size : Nat}
    (inside : start + (size + 1) ≤ bs.length) :
    ofBig (bs.slice start (size + 1)) =
      bs.octet start * span size + ofBig (bs.slice (start + 1) size) := by
  rw [slice_succ inside, ofBig_cons, length_slice (by omega)]
  rfl

end Bytes

namespace Field

theorem value_take {f : Field} {n : Nat} (inside : f.offset + f.width ≤ n) (bs : Bytes) :
    f.value (bs.take n) = f.value bs := by
  simp only [value, octets, Bytes.slice_take inside]

theorem value_one {bs : Bytes} {i : Nat} (inside : i + 1 ≤ bs.length) :
    value ⟨i, 1⟩ bs = bs.octet i := by
  simp only [value, octets]
  rw [Bytes.ofBig_slice_succ inside]
  simp [Bytes.slice, Bytes.ofBig, Bytes.ofLittle, Bytes.span]

theorem value_two {bs : Bytes} {i : Nat} (inside : i + 2 ≤ bs.length) :
    value ⟨i, 2⟩ bs = bs.word i := by
  have next : i + 1 + 1 ≤ bs.length := by omega
  have low := value_one next
  simp only [value, octets] at low ⊢
  rw [Bytes.ofBig_slice_succ inside, low, Bytes.word]
  simp only [Bytes.span]
  omega

end Field

namespace Frame

def Accepts (format : Format) (bs : Bytes) : Prop :=
  format.headerLength ≤ bs.length ∧
    format.valid (bs.take format.headerLength) (bs.drop format.headerLength) = true

theorem parse_eq_ok {format : Format} {bs : Bytes} (accepted : Accepts format bs) :
    parse format bs = .ok (split format bs accepted.1) := by
  obtain ⟨fits, accepted⟩ := accepted
  have valid : format.valid (split format bs fits).header (split format bs fits).body = true :=
    accepted
  simp only [parse, cast?, dif_pos fits, if_pos valid]

theorem parse_eq_invalid {format : Format} {bs : Bytes} (fits : format.headerLength ≤ bs.length)
    (refused : ¬ Accepts format bs) : parse format bs = .error (.invalid format.name) := by
  have invalid : ¬ format.valid (split format bs fits).header
      (split format bs fits).body = true := fun valid => refused ⟨fits, valid⟩
  simp only [parse, cast?, dif_pos fits, if_neg invalid]

theorem parse_of_accepts {format : Format} {bs : Bytes} (accepted : Accepts format bs) :
    (parse format bs).toOption = some (split format bs accepted.1) := by
  rw [parse_eq_ok accepted]
  rfl

theorem parse_of_not_accepts {format : Format} {bs : Bytes} (refused : ¬ Accepts format bs) :
    (parse format bs).toOption = none := by
  by_cases fits : format.headerLength ≤ bs.length
  · rw [parse_eq_invalid fits refused]
    rfl
  · simp only [parse, cast?, dif_neg fits]
    rfl

theorem accepts_of_parse {format : Format} {bs : Bytes} {f : Frame}
    (parsed : parse format bs = .ok f) : Accepts format bs := by
  refine Classical.byContradiction fun refused => ?_
  have none := parse_of_not_accepts refused
  rw [parsed] at none
  cases none

theorem header_of_parse {format : Format} {bs : Bytes} {f : Frame}
    (parsed : parse format bs = .ok f) : f.header = bs.take format.headerLength := by
  have accepted := accepts_of_parse parsed
  rw [parse_eq_ok accepted] at parsed
  cases parsed
  rfl

theorem size_split {format : Format} {bs : Bytes} (fits : format.headerLength ≤ bs.length) :
    (split format bs fits).size = bs.length := by
  simp only [size, split, List.length_drop]
  omega

section Claim

variable {format : Format} {bs : Bytes} (fits : format.headerLength ≤ bs.length) {start stop : Nat}
  (claim : format.bounds (bs.take format.headerLength) bs.length = ⟨start, stop⟩)
  (behind : format.headerLength ≤ start) (ordered : start ≤ stop) (inside : stop ≤ bs.length)
include claim behind ordered inside

theorem payloadRange_split : (split format bs fits).payloadRange = ⟨start, stop⟩ := by
  simp only [payloadRange, size_split fits]
  simp only [split, claim, Bounds.clamp, Bounds.mk.injEq]
  omega

theorem payload_split : (split format bs fits).payload = (bs.take stop).drop start := by
  have range := payloadRange_split fits claim behind ordered inside
  simp only [payload, range, Bounds.size, Bytes.slice]
  simp only [split, List.drop_drop, List.drop_take]
  congr 2
  omega

end Claim

end Frame

end PacketLayers
