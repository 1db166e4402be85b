import Mathlib.Algebra.Group.Nat.Defs
import PacketLayers.Proofs.Checksum

/-!
The Internet checksum as a register of 64 bits keeps it. A piece is taken in word by word, and its
first octet completes the word of one that waits. Main statement: for less than 2 ^ 48 octets, in
whatever pieces, the register never overflows, four rounds fold its carries, and after each piece
the checksum is that of all octets so far.
-/
namespace PacketLayers

/-- A sum of words in 64 bits, and the octet still without a partner. -/
structure Register where
  total : UInt64 := 0
  pending : Option UInt8 := none
deriving DecidableEq, Repr

namespace Register

/-- A sum of 64 bits, unless it overflows. -/
def plus? (a b : UInt64) : Option UInt64 :=
  if a.toNat + b.toNat < 2 ^ 64 then some (a + b) else none

def word (high low : UInt8) : UInt64 := 256 * high.toUInt64 + low.toUInt64

def addWord? (r : Register) (high low : UInt8) : Option Register :=
  (plus? r.total (word high low)).map fun total => ⟨total, none⟩

/-- Adds the words of octets one after the other; a last octet without a partner waits. -/
def addWords? (r : Register) : Bytes → Option Register
  | [] => some r
  | [last] => some { r with pending := some last }
  | high :: low :: rest => (r.addWord? high low).bind fun r => r.addWords? rest

def add? (r : Register) (piece : Bytes) : Option Register :=
  match r.pending, piece with
  | none, piece => r.addWords? piece
  | some _, [] => some r
  | some high, low :: rest => (r.addWord? high low).bind fun r => r.addWords? rest

def padded? (r : Register) : Option UInt64 :=
  match r.pending with
  | none => some r.total
  | some high => plus? r.total (word high 0)

def round (n : UInt64) : UInt64 := (n &&& (0xFFFF : UInt64)) + (n >>> (16 : UInt64))

/-- Rounds of folding until the sum fits 16 bits, if a number of rounds is enough. -/
def settle? : Nat → UInt64 → Option UInt64
  | 0, n => if n ≤ 0xFFFF then some n else none
  | rounds + 1, n => if n ≤ 0xFFFF then some n else settle? rounds (round n)

def finish? (r : Register) (rounds : Nat) : Option UInt16 :=
  (r.padded?.bind (settle? rounds)).map fun folded => ~~~folded.toUInt16

end Register

namespace WordSum

theorem padded_push (s : WordSum) (b : UInt8) :
    s.padded ≤ (s.push b).padded ∧ (s.push b).padded ≤ s.padded + 0xFFFF := by
  have octet := b.toNat_lt
  cases waiting : s.pending with
  | none => simp only [push, padded, waiting]; omega
  | some high => simp only [push, padded, waiting]; omega

theorem padded_bounds (s : WordSum) (bs : Bytes) :
    s.padded ≤ (s.add bs).padded ∧ (s.add bs).padded ≤ s.padded + 0xFFFF * bs.length := by
  induction bs generalizing s with
  | nil => exact ⟨Nat.le_refl _, Nat.le_refl _⟩
  | cons b bs ih =>
    have first := s.padded_push b
    have later := ih (s.push b)
    have step : s.add (b :: bs) = (s.push b).add bs := rfl
    rw [step, List.length_cons]
    omega

theorem foldl_add (s : WordSum) (pieces : List Bytes) :
    pieces.foldl add s = s.add pieces.flatten := by
  induction pieces generalizing s with
  | nil => rfl
  | cons piece pieces ih => rw [List.foldl_cons, ih, List.flatten_cons, add_append]

end WordSum

namespace Register

variable {r : Register} {s : WordSum} {high low : UInt8}

/-- A register that keeps a sum as it is, nothing of it lost. -/
structure Holds (r : Register) (s : WordSum) : Prop where
  total : r.total.toNat = s.total
  pending : r.pending = s.pending

theorem toNat_word (high low : UInt8) :
    (word high low).toNat = 256 * high.toNat + low.toNat := by
  have first := high.toNat_lt
  have second := low.toNat_lt
  simp only [word, UInt64.toNat_add, UInt64.toNat_mul, UInt8.toNat_toUInt64]
  rw [show (256 : UInt64).toNat = 256 from rfl]
  omega

theorem plus?_of_lt {a b : UInt64} (room : a.toNat + b.toNat < 2 ^ 64) :
    ∃ c, plus? a b = some c ∧ c.toNat = a.toNat + b.toNat := by
  refine ⟨a + b, if_pos room, ?_⟩
  rw [UInt64.toNat_add]
  exact Nat.mod_eq_of_lt room

theorem holds_addWord {n : Nat} (total : r.total.toNat = n)
    (room : n + (256 * high.toNat + low.toNat) < 2 ^ 64) :
    ∃ next, r.addWord? high low = some next ∧
      next.Holds ⟨n + (256 * high.toNat + low.toNat), none⟩ := by
  rw [← total, ← toNat_word] at room ⊢
  obtain ⟨sum, added, value⟩ := plus?_of_lt room
  refine ⟨⟨sum, none⟩, ?_, value, rfl⟩
  rw [addWord?, added]
  rfl

theorem holds_addWords {bs : Bytes} (holds : r.Holds s) (even : s.pending = none)
    (room : (s.add bs).padded < 2 ^ 64) :
    ∃ next, r.addWords? bs = some next ∧ next.Holds (s.add bs) := by
  fun_induction addWords? r bs generalizing s with
  | case1 r => exact ⟨r, rfl, holds⟩
  | case2 r last =>
    have taken : s.add [last] = ⟨s.total, some last⟩ := by
      simp [WordSum.add, WordSum.push, even]
    rw [taken]
    exact ⟨_, rfl, holds.total, rfl⟩
  | case3 r high low rest ih =>
    have paired : s.add (high :: low :: rest) =
        WordSum.add ⟨s.total + (256 * high.toNat + low.toNat), none⟩ rest := by
      simp [WordSum.add, WordSum.push, even]
    rw [paired] at room ⊢
    -- The sum only grows, so the word fits if all that is still to come does.
    have fits := Nat.lt_of_le_of_lt (WordSum.padded_bounds _ rest).1 room
    obtain ⟨next, added, kept⟩ := holds_addWord holds.total fits
    rw [added]
    exact ih next kept rfl room

theorem holds_add {piece : Bytes} (holds : r.Holds s) (room : (s.add piece).padded < 2 ^ 64) :
    ∃ next, r.add? piece = some next ∧ next.Holds (s.add piece) := by
  cases waiting : s.pending with
  | none =>
    have rest := holds_addWords holds waiting room
    simp only [add?, holds.pending, waiting]
    exact rest
  | some high =>
    cases piece with
    | nil =>
      refine ⟨r, ?_, holds⟩
      simp only [add?, holds.pending, waiting]
    | cons low rest =>
      have paired : s.add (low :: rest) =
          WordSum.add ⟨s.total + (256 * high.toNat + low.toNat), none⟩ rest := by
        simp [WordSum.add, WordSum.push, waiting]
      rw [paired] at room ⊢
      have fits := Nat.lt_of_le_of_lt (WordSum.padded_bounds _ rest).1 room
      obtain ⟨next, added, kept⟩ := holds_addWord holds.total fits
      obtain ⟨last, taken, held⟩ := holds_addWords kept rfl room
      refine ⟨last, ?_, held⟩
      simp only [add?, holds.pending, waiting, added]
      exact taken

theorem holds_pieces {pieces : List Bytes} (holds : r.Holds s)
    (room : (pieces.foldl WordSum.add s).padded < 2 ^ 64) :
    ∃ last, pieces.foldlM add? r = some last ∧ last.Holds (pieces.foldl WordSum.add s) := by
  induction pieces generalizing r s with
  | nil => exact ⟨r, rfl, holds⟩
  | cons piece pieces ih =>
    rw [List.foldl_cons] at room ⊢
    have grows := (WordSum.padded_bounds (s.add piece) pieces.flatten).1
    rw [← WordSum.foldl_add] at grows
    obtain ⟨next, taken, kept⟩ := holds_add holds (Nat.lt_of_le_of_lt grows room)
    obtain ⟨last, others, held⟩ := ih kept room
    refine ⟨last, ?_, held⟩
    rw [List.foldlM_cons, taken]
    exact others

/-! ### Folding -/

theorem toNat_round (n : UInt64) :
    (round n).toNat = n.toNat % 0x10000 + n.toNat / 0x10000 := by
  have low : (n &&& 0xFFFF).toNat = n.toNat % 0x10000 := by
    rw [UInt64.toNat_and]
    exact Nat.and_two_pow_sub_one_eq_mod n.toNat 16
  have high : (n >>> 16).toNat = n.toNat / 0x10000 := by
    rw [UInt64.toNat_shiftRight]
    exact Nat.shiftRight_eq_div_pow n.toNat 16
  have bound := n.toNat_lt
  rw [round, UInt64.toNat_add, low, high]
  omega

theorem settle?_of_le {rounds : Nat} {n : UInt64} (small : n.toNat ≤ 0x10000 ^ rounds + 0xFFFE) :
    ∃ m, settle? rounds n = some m ∧ m.toNat = foldCarries n.toNat := by
  have fits (n : UInt64) : n ≤ 0xFFFF ↔ n.toNat ≤ 0xFFFF := UInt64.le_iff_toNat_le
  induction rounds generalizing n with
  | zero =>
    have done : n.toNat ≤ 0xFFFF := small
    refine ⟨n, if_pos ((fits n).mpr done), ?_⟩
    rw [foldCarries, if_pos done]
  | succ rounds ih =>
    rw [settle?, foldCarries]
    by_cases done : n.toNat ≤ 0xFFFF
    · exact ⟨n, if_pos ((fits n).mpr done), (if_pos done).symm⟩
    · rw [if_neg (mt (fits n).mp done), if_neg done, ← toNat_round]
      apply ih
      rw [toNat_round]
      rw [Nat.pow_succ] at small
      omega

theorem finish?_eq (holds : r.Holds s) (room : s.padded < 2 ^ 64) :
    r.finish? 4 = some (UInt16.ofNat s.finish) := by
  have kept : ∃ sum, r.padded? = some sum ∧ sum.toNat = s.padded := by
    simp only [padded?, WordSum.padded, holds.pending] at room ⊢
    cases waiting : s.pending with
    | none => exact ⟨r.total, rfl, holds.total⟩
    | some high =>
      simp only [waiting] at room ⊢
      have word : (word high 0).toNat = 256 * high.toNat := toNat_word high 0
      rw [← holds.total, ← word] at room ⊢
      exact plus?_of_lt room
  obtain ⟨sum, padded, value⟩ := kept
  have enough : sum.toNat ≤ 0x10000 ^ 4 + 0xFFFE := by
    rw [value]
    omega
  obtain ⟨folded, settled, carries⟩ := settle?_of_le enough
  rw [value] at carries
  have small := foldCarries_le s.padded
  rw [finish?, padded, Option.bind_some, settled, Option.map_some, WordSum.finish, ← carries]
  rw [← carries] at small
  congr 1
  apply UInt16.toNat_inj.mp
  rw [UInt16.toNat_not, UInt64.toNat_toUInt16, UInt16.toNat_ofNat', UInt16.size]
  omega

end Register

theorem padded_lt_of_length {bs : Bytes} (short : bs.length < 2 ^ 48) :
    (WordSum.add {} bs).padded < 2 ^ 64 := by
  have bound := (WordSum.padded_bounds {} bs).2
  have start : WordSum.padded {} = 0 := rfl
  omega

/-- Octets that arrive in pieces have, before the first piece and after each, the checksum of all
that arrived: the complement of the sum of their words, which is zero only if all words are. A
register of 64 bits keeps that sum without an overflow, and folds it in four rounds. -/
theorem finish_of_pieces (pieces : List Bytes) (short : pieces.flatten.length < 2 ^ 48) (k : Nat) :
    let fed := pieces.take k
    let sum := fed.foldl WordSum.add {}
    let words := Bytes.wordTotal fed.flatten
    sum.finish = checksum fed.flatten ∧
      checksum fed.flatten = 0xFFFF - (if words = 0 then 0 else (words - 1) % 0xFFFF + 1) ∧
      ∃ r, fed.foldlM Register.add? {} = some r ∧ r.Holds sum ∧
        r.finish? 4 = some (UInt16.ofNat (checksum fed.flatten)) := by
  intro fed sum words
  have whole : sum = WordSum.add {} fed.flatten := WordSum.foldl_add {} fed
  have shorter : fed.flatten.length ≤ pieces.flatten.length := by
    rw [← List.take_append_drop k pieces, List.flatten_append, List.length_append]
    exact Nat.le_add_right _ _
  have room : sum.padded < 2 ^ 64 := by
    rw [whole]
    exact padded_lt_of_length (Nat.lt_of_le_of_lt shorter short)
  have finished : sum.finish = checksum fed.flatten := congrArg WordSum.finish whole
  obtain ⟨r, taken, holds⟩ := Register.holds_pieces (r := {}) (s := {}) ⟨rfl, rfl⟩ room
  refine ⟨finished, checksum_eq fed.flatten, r, taken, holds, ?_⟩
  rw [← finished]
  exact Register.finish?_eq holds room

def oddPieces : List Bytes := [[0x00, 0x01, 0xF2], [], [0x03], [0xF4, 0xF5, 0xF6, 0xF7, 0x80]]

theorem finish_of_pieces_odd :
    oddPieces.flatten.length < 2 ^ 48 ∧
      (∃ r, (oddPieces.take 2).foldlM Register.add? {} = some r ∧ r.pending = some 0xF2) ∧
      (oddPieces.foldl WordSum.add {}).finish = checksum oddPieces.flatten ∧
      checksum oddPieces.flatten = 0xA20C := by
  have short : oddPieces.flatten.length < 2 ^ 48 := by decide
  obtain ⟨-, -, r, taken, holds, -⟩ := finish_of_pieces oddPieces short 2
  obtain ⟨finished, value, -⟩ := finish_of_pieces oddPieces short 4
  exact ⟨short, ⟨r, taken, holds.pending⟩, finished, value⟩

end PacketLayers
