import Mathlib.Algebra.Group.Nat.Defs
import Mathlib.Data.List.Basic
import PacketLayers.Proofs.Frame.Edits

/-!
Headers as they stand on the wire: a row of fields in network order, each cut into runs of bits that
getters show. A table of words describes a format if its getters show just these bits. Main
statement: the octets of a header are what its getters show, put back at their places; only bits
that are reserved cannot be seen.
-/
namespace PacketLayers

def Field.Reading.toNat : Field.Reading → Nat
  | .number n => n
  | .flag b => b.toNat
  | .octets bs => Bytes.ofBig bs
  | .dotted bs => Bytes.ofBig bs

namespace Wire

/-- How a getter shows bits. Reserved ones have no getter. -/
inductive Kind where
  | number
  | flag
  | octets
  | dotted
  | reserved
deriving DecidableEq, Repr

/-- A run of bits in a field, by the name of its getter. -/
structure Bits where
  name : String
  width : Nat
  kind : Kind := .number
deriving DecidableEq, Repr

/-- A field with its bits, from the most significant on, and the getters that compute from it. -/
structure Word where
  field : Field
  bits : List Bits
  computed : List String := []
deriving DecidableEq, Repr

namespace Word

def names (w : Word) : List String := w.bits.map Bits.name ++ w.computed

def number (name : String) (field : Field) (computed : List String := []) : Word :=
  ⟨field, [⟨name, 8 * field.width, .number⟩], computed⟩

def octets (name : String) (field : Field) : Word := ⟨field, [⟨name, 8 * field.width, .octets⟩], []⟩

def dotted (name : String) (field : Field) : Word := ⟨field, [⟨name, 8 * field.width, .dotted⟩], []⟩

end Word

/-- What the getter of bits gives if they are the number `n`. -/
def Bits.shown (b : Bits) (n : Nat) : Option Field.Reading :=
  match b.kind with
  | .number => some (.number n)
  | .flag => some (.flag (n == 1))
  | .octets => some (.octets (Bytes.toBig (b.width / 8) n))
  | .dotted => some (.dotted (Bytes.toBig (b.width / 8) n))
  | .reserved => none

def Bits.Sized (b : Bits) : Prop :=
  (b.kind = .flag → b.width = 1) ∧ (b.kind = .octets ∨ b.kind = .dotted → b.width % 8 = 0)

instance (b : Bits) : Decidable b.Sized := inferInstanceAs (Decidable (_ ∧ _))

def width : List Bits → Nat
  | [] => 0
  | b :: rest => b.width + width rest

/-- Whether readings show the bits of a number, each run at its place above those behind it. -/
def Shows (readings : List (String × Field.Reading)) (n : Nat) : List Bits → Prop
  | [] => True
  | b :: rest =>
    readings.lookup b.name = b.shown (n / 2 ^ width rest % 2 ^ b.width) ∧ Shows readings n rest

def assemble (readings : List (String × Field.Reading)) : List Bits → Nat
  | [] => 0
  | b :: rest =>
    ((readings.lookup b.name).map Field.Reading.toNat).getD 0 * 2 ^ width rest +
      assemble readings rest

def kept (n : Nat) : List Bits → Nat
  | [] => 0
  | b :: rest =>
    (if b.kind = .reserved then 0 else n / 2 ^ width rest % 2 ^ b.width) * 2 ^ width rest +
      kept n rest

/-- Whether the fields of words stand side by side between two positions. -/
def Tiles (stop : Nat) : Nat → List Word → Prop
  | start, [] => start = stop
  | start, w :: rest => w.field.offset = start ∧ Tiles stop (start + w.field.width) rest

instance decidableTiles (stop : Nat) : (start : Nat) → (words : List Word) →
    Decidable (Tiles stop start words)
  | start, [] => inferInstanceAs (Decidable (start = stop))
  | start, w :: rest =>
    have := decidableTiles stop (start + w.field.width) rest
    inferInstanceAs (Decidable (w.field.offset = start ∧ _))

/-- The header that is put together from its readings, word by word in network order. -/
def rebuild (words : List Word) (readings : List (String × Field.Reading)) : Bytes :=
  words.flatMap fun w => Bytes.toBig w.field.width (assemble readings w.bits)

def cleared (words : List Word) (header : Bytes) : Bytes :=
  words.flatMap fun w => Bytes.toBig w.field.width (kept (w.field.value header) w.bits)

/-- Whether the getters of a format show the words of a table: their bits, and what is computed of
them, and nothing else. Setters write whole words. -/
structure Describes (words : List Word) (format : Format) : Prop where
  tiles : Tiles format.headerLength 0 words
  width : ∀ w ∈ words, width w.bits = 8 * w.field.width
  sized : ∀ w ∈ words, ∀ b ∈ w.bits, b.Sized
  shows : ∀ h : Bytes, h.length = format.headerLength →
    ∀ w ∈ words, Shows (format.readings h) (w.field.value h) w.bits
  computed : ∀ w ∈ words, ∀ name ∈ w.computed, ∃ compute : Nat → Field.Reading,
    ∀ h, (format.readings h).lookup name = some (compute (w.field.value h))
  named : ∀ h, ∀ name ∈ (format.readings h).map Prod.fst, ∃ w ∈ words, name ∈ w.names
  settable : ∀ s ∈ format.settable, ∃ w ∈ words, w.field = s.2 ∧ w.bits.map Bits.name = [s.1] ∧
    ∀ b ∈ w.bits, b.kind ≠ .flag ∧ b.kind ≠ .reserved

/-! ### Bits -/

theorem span_eq (width : Nat) : Bytes.span width = 2 ^ (8 * width) := by
  induction width with
  | zero => rfl
  | succ width ih => rw [Bytes.span, ih, Nat.mul_succ, Nat.pow_add, Nat.mul_comm]

theorem toNat_shown {b : Bits} (sized : b.Sized) {n : Nat} (small : n < 2 ^ b.width) :
    ((b.shown n).map Field.Reading.toNat).getD 0 = if b.kind = .reserved then 0 else n := by
  obtain ⟨name, width, kind⟩ := b
  have written (whole : width % 8 = 0) : Bytes.ofBig (Bytes.toBig (width / 8) n) = n := by
    have bits : 8 * (width / 8) = width := by omega
    rw [Bytes.ofBig_toBig, span_eq, bits, Nat.mod_eq_of_lt small]
  cases kind with
  | number => rfl
  | reserved => rfl
  | flag =>
    have one : width = 1 := sized.1 rfl
    subst one
    have two : n = 0 ∨ n = 1 := by
      simp only [Nat.pow_one] at small
      omega
    rcases two with rfl | rfl <;> rfl
  | octets => exact written (sized.2 (.inl rfl))
  | dotted => exact written (sized.2 (.inr rfl))

theorem assemble_of_shows {readings : List (String × Field.Reading)} {n : Nat} {bits : List Bits}
    (sized : ∀ b ∈ bits, b.Sized) (shows : Shows readings n bits) :
    assemble readings bits = kept n bits := by
  induction bits with
  | nil => rfl
  | cons b rest ih =>
    obtain ⟨here, later⟩ := shows
    have small : n / 2 ^ width rest % 2 ^ b.width < 2 ^ b.width :=
      Nat.mod_lt _ (Nat.two_pow_pos _)
    rw [assemble, kept, here, toNat_shown (sized b List.mem_cons_self) small,
      ih (fun c mem => sized c (List.mem_cons_of_mem b mem)) later]

theorem kept_eq_mod {bits : List Bits} (seen : ∀ b ∈ bits, b.kind ≠ .reserved) (n : Nat) :
    kept n bits = n % 2 ^ width bits := by
  induction bits with
  | nil => exact (Nat.mod_one n).symm
  | cons b rest ih =>
    rw [kept, if_neg (seen b List.mem_cons_self),
      ih fun c mem => seen c (List.mem_cons_of_mem b mem), width, Nat.pow_add,
      Nat.mul_comm (2 ^ b.width), Nat.mod_mul, Nat.mul_comm, Nat.add_comm]

theorem Shows.lookup_eq {readings others : List (String × Field.Reading)} {n : Nat}
    {bits : List Bits} (shows : Shows readings n bits) (shows' : Shows others n bits) {b : Bits}
    (mem : b ∈ bits) : readings.lookup b.name = others.lookup b.name := by
  induction bits with
  | nil => cases mem
  | cons c rest ih =>
    cases mem with
    | head => exact shows.1.trans shows'.1.symm
    | tail _ later => exact ih shows.2 shows'.2 later

theorem shows_whole {readings : List (String × Field.Reading)} {name : String} {width n : Nat}
    {kind : Kind} (small : n < 2 ^ width)
    (shown : readings.lookup name = Bits.shown ⟨name, width, kind⟩ n) :
    Shows readings n [⟨name, width, kind⟩] := by
  refine ⟨?_, trivial⟩
  have all : n / 2 ^ Wire.width [] % 2 ^ width = n := by
    rw [Wire.width, Nat.pow_zero, Nat.div_one, Nat.mod_eq_of_lt small]
  rw [all]
  exact shown

theorem Shows.whole {readings : List (String × Field.Reading)} {b : Bits} {n : Nat}
    (shows : Shows readings n [b]) (small : n < 2 ^ b.width) :
    readings.lookup b.name = b.shown n := by
  have here := shows.1
  rw [width, Nat.pow_zero, Nat.div_one, Nat.mod_eq_of_lt small] at here
  exact here

/-! ### Words -/

theorem length_octets {f : Field} {h : Bytes} (inside : f.offset + f.width ≤ h.length) :
    (f.octets h).length = f.width := Bytes.length_slice inside

theorem toBig_value {f : Field} {h : Bytes} (inside : f.offset + f.width ≤ h.length) :
    Bytes.toBig f.width (f.value h) = f.octets h := by
  have written := Bytes.toBig_ofBig (f.octets h)
  rw [length_octets inside] at written
  exact written

theorem value_lt {f : Field} {h : Bytes} (inside : f.offset + f.width ≤ h.length) :
    f.value h < 2 ^ (8 * f.width) := by
  have bound := Bytes.ofLittle_lt (f.octets h).reverse
  rw [List.length_reverse, length_octets inside, span_eq] at bound
  exact bound

theorem Tiles.start_le {stop start : Nat} {words : List Word} (tiles : Tiles stop start words) :
    start ≤ stop := by
  induction words generalizing start with
  | nil => exact Nat.le_of_eq tiles
  | cons w rest ih => exact Nat.le_trans (Nat.le_add_right _ _) (ih tiles.2)

theorem Tiles.inside {stop start : Nat} {words : List Word} (tiles : Tiles stop start words)
    {w : Word} (mem : w ∈ words) :
    start ≤ w.field.offset ∧ w.field.offset + w.field.width ≤ stop := by
  induction words generalizing start with
  | nil => cases mem
  | cons v rest ih =>
    obtain ⟨here, later⟩ := tiles
    cases mem with
    | head => exact ⟨Nat.le_of_eq here.symm, here ▸ later.start_le⟩
    | tail _ behind =>
      obtain ⟨after, within⟩ := ih later behind
      exact ⟨Nat.le_trans (Nat.le_add_right _ _) after, within⟩

theorem Tiles.apart {stop start : Nat} {words : List Word} (tiles : Tiles stop start words)
    {v w : Word} (hv : v ∈ words) (hw : w ∈ words) :
    v = w ∨ v.field.offset + v.field.width ≤ w.field.offset ∨
      w.field.offset + w.field.width ≤ v.field.offset := by
  induction words generalizing start with
  | nil => cases hv
  | cons u rest ih =>
    obtain ⟨here, later⟩ := tiles
    cases hv with
    | head =>
      cases hw with
      | head => exact .inl rfl
      | tail _ behind => exact .inr (.inl (here ▸ (later.inside behind).1))
    | tail _ behind =>
      cases hw with
      | head => exact .inr (.inr (here ▸ (later.inside behind).1))
      | tail _ behind' => exact ih later behind behind'

theorem Tiles.flatMap_octets {start : Nat} {words : List Word} {h : Bytes}
    (tiles : Tiles h.length start words) :
    (words.flatMap fun w => w.field.octets h) = h.drop start := by
  induction words generalizing start with
  | nil => exact (List.drop_eq_nil_of_le (Nat.le_of_eq tiles.symm)).symm
  | cons w rest ih =>
    obtain ⟨here, later⟩ := tiles
    rw [List.flatMap_cons, ih later, Field.octets, here, Bytes.slice, ← List.drop_drop,
      List.take_append_drop]

theorem cleared_eq_self {words : List Word} {h : Bytes} (tiles : Tiles h.length 0 words)
    (widths : ∀ w ∈ words, width w.bits = 8 * w.field.width)
    (seen : ∀ w ∈ words, ∀ b ∈ w.bits, b.kind ≠ .reserved) : cleared words h = h := by
  have whole : ∀ w ∈ words,
      Bytes.toBig w.field.width (kept (w.field.value h) w.bits) = w.field.octets h := by
    intro w mem
    have inside := (tiles.inside mem).2
    rw [kept_eq_mod (seen w mem), widths w mem, Nat.mod_eq_of_lt (value_lt inside),
      toBig_value inside]
  rw [cleared, List.flatMap_congr whole, tiles.flatMap_octets]
  rfl

namespace Describes

variable {words : List Word} {format : Format} (describes : Describes words format)
include describes

theorem rebuild_readings {h : Bytes} (length : h.length = format.headerLength) :
    rebuild words (format.readings h) = cleared words h := by
  refine List.flatMap_congr fun w mem => ?_
  rw [assemble_of_shows (describes.sized w mem) (describes.shows h length w mem)]

theorem lookup_eq {h k : Bytes} (hl : h.length = format.headerLength)
    (kl : k.length = format.headerLength) {w : Word} (mem : w ∈ words)
    (same : w.field.octets h = w.field.octets k) {name : String} (read : name ∈ w.names) :
    (format.readings h).lookup name = (format.readings k).lookup name := by
  have value : w.field.value h = w.field.value k := by rw [Field.value, same, Field.value]
  rcases List.mem_append.mp read with bits | computed
  · obtain ⟨b, listed, rfl⟩ := List.mem_map.mp bits
    exact (value ▸ describes.shows h hl w mem).lookup_eq (describes.shows k kl w mem) listed
  · obtain ⟨compute, reads⟩ := describes.computed w mem name computed
    rw [reads, reads, value]

theorem lookup_eq_none {name : String} (unread : ∀ w ∈ words, name ∉ w.names) (h : Bytes) :
    (format.readings h).lookup name = none := by
  refine List.lookup_eq_none_iff.mpr fun r mem => ?_
  obtain ⟨w, listed, read⟩ := describes.named h r.1 (List.mem_map_of_mem mem)
  rw [bne_iff_ne]
  rintro rfl
  exact unread w listed read

end Describes

end Wire

end PacketLayers
