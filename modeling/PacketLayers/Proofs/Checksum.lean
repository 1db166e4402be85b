import PacketLayers.Checksum

namespace PacketLayers

/-- The sum of the words of 16 bits; a last octet is paired with zero. -/
def Bytes.wordTotal : Bytes → Nat
  | [] => 0
  | [high] => 256 * high.toNat
  | high :: low :: rest => 256 * high.toNat + low.toNat + wordTotal rest

theorem Bytes.wordTotal_append {xs : Bytes} (even : xs.length % 2 = 0) (ys : Bytes) :
    (xs ++ ys).wordTotal = xs.wordTotal + ys.wordTotal := by
  fun_induction Bytes.wordTotal xs with
  | case1 => exact (Nat.zero_add _).symm
  | case2 high => cases even
  | case3 high low rest ih =>
    have shorter : rest.length % 2 = 0 := by
      simp only [List.length_cons] at even
      omega
    simp only [List.cons_append, wordTotal, ih shorter, Nat.add_assoc]

theorem Bytes.wordTotal_toBig {n : Nat} (small : n ≤ 0xFFFF) : (toBig 2 n).wordTotal = n := by
  simp only [toBig, toLittle, List.reverse_cons, List.reverse_nil, List.nil_append,
    List.cons_append, wordTotal, UInt8.toNat_ofNat', Nat.add_zero]
  omega

def octetWeight (i : Nat) : Nat := if i % 2 = 0 then 256 else 1

/-- Another octet at one place changes the sum by the difference, as much as the place counts. -/
theorem Bytes.wordTotal_set {bs : Bytes} {i : Nat} (inside : i < bs.length) (v : UInt8) :
    wordTotal (bs.set i v) + octetWeight i * bs[i].toNat =
      bs.wordTotal + octetWeight i * v.toNat := by
  fun_induction Bytes.wordTotal bs generalizing i with
  | case1 => cases inside
  | case2 high =>
    obtain rfl : i = 0 := by simpa using inside
    simp [wordTotal, octetWeight, Nat.add_comm]
  | case3 high low rest ih =>
    match i, inside with
    | 0, _ =>
      have counts : octetWeight 0 = 256 := rfl
      simp only [List.set_cons_zero, List.getElem_cons_zero, wordTotal, counts]
      omega
    | 1, _ =>
      have counts : octetWeight 1 = 1 := rfl
      simp only [List.set_cons_succ, List.set_cons_zero, List.getElem_cons_succ,
        List.getElem_cons_zero, wordTotal, counts]
      omega
    | i + 2, inside =>
      have later : i < rest.length := by simpa using inside
      have same : octetWeight (i + 2) = octetWeight i := by simp [octetWeight]
      have onward := ih later
      simp only [List.set_cons_succ, List.getElem_cons_succ, wordTotal, same]
      omega

/-- A sum in one's complement of 16 bits, where zero is written as 0xFFFF unless all words are
zero. -/
def onesSum (n : Nat) : Nat := if n = 0 then 0 else (n - 1) % 0xFFFF + 1

theorem onesSum_le (n : Nat) : onesSum n ≤ 0xFFFF := by
  unfold onesSum
  split <;> omega

/-- All ones are what every sum gives that 0xFFFF divides, other than zero. -/
theorem onesSum_eq_ones_iff (n : Nat) : onesSum n = 0xFFFF ↔ n ≠ 0 ∧ n % 0xFFFF = 0 := by
  unfold onesSum
  split <;> omega

theorem onesSum_add_complement (n : Nat) : onesSum (n + (0xFFFF - onesSum n)) = 0xFFFF := by
  by_cases zero : n = 0
  · subst zero
    rfl
  · have positive : n + (0xFFFF - onesSum n) ≠ 0 := by omega
    rw [onesSum, if_neg positive, onesSum, if_neg zero]
    omega

theorem foldCarries_eq (n : Nat) : foldCarries n = onesSum n := by
  fun_induction foldCarries n with
  | case1 n small =>
    unfold onesSum
    split <;> omega
  | case2 n large ih =>
    have positive : n ≠ 0 := by omega
    have folded : n % 0x10000 + n / 0x10000 ≠ 0 := by omega
    simp only [onesSum, if_neg positive, if_neg folded] at ih ⊢
    omega

namespace WordSum

theorem padded_add (s : WordSum) (even : s.pending = none) (bs : Bytes) :
    (s.add bs).padded = s.total + bs.wordTotal := by
  fun_induction Bytes.wordTotal bs generalizing s with
  | case1 => simp [add, padded, even]
  | case2 high => simp [add, push, padded, even]
  | case3 high low rest ih =>
    have paired : (s.add (high :: low :: rest)) =
        add ⟨s.total + (256 * high.toNat + low.toNat), none⟩ rest := by
      simp [add, push, even]
    rw [paired, ih _ rfl]
    simp only [Nat.add_assoc]

end WordSum

/-- The checksum as a rule on octets: the complement of the sum of their words. -/
def internetChecksum (bs : Bytes) : Nat := 0xFFFF - onesSum bs.wordTotal

theorem checksum_eq (bs : Bytes) : checksum bs = internetChecksum bs := by
  rw [checksum, WordSum.finish, foldCarries_eq, WordSum.padded_add _ rfl]
  simp [internetChecksum]

theorem internetChecksum_eq_zero_iff (bs : Bytes) :
    internetChecksum bs = 0 ↔ bs.wordTotal ≠ 0 ∧ bs.wordTotal % 0xFFFF = 0 := by
  have bound := onesSum_le bs.wordTotal
  rw [← onesSum_eq_ones_iff, internetChecksum]
  omega

theorem internetChecksum_set_ne_zero {bs : Bytes} (valid : internetChecksum bs = 0) {i : Nat}
    (inside : i < bs.length) {v : UInt8} (other : v ≠ bs[i]) :
    internetChecksum (bs.set i v) ≠ 0 := by
  intro again
  obtain ⟨-, before⟩ := (internetChecksum_eq_zero_iff bs).mp valid
  obtain ⟨-, after⟩ := (internetChecksum_eq_zero_iff _).mp again
  have change := Bytes.wordTotal_set inside v
  have apart : v.toNat ≠ bs[i].toNat := mt UInt8.toNat_inj.mp other
  have first := v.toNat_lt
  have second := bs[i].toNat_lt
  unfold octetWeight at change
  split at change <;> omega

theorem finish_add_add (xs ys : Bytes) :
    ((WordSum.add {} xs).add ys).finish = checksum (xs ++ ys) := by
  rw [checksum, WordSum.add_append]

end PacketLayers
