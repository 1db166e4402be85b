import PacketLayers.Proofs.Dissect.Balance

namespace PacketLayers

open Float.Model (UnpackedFloat)

/-- Where a double stands among the others. Its kind tells the infinities, the finite ones of
either sign and zero apart; below zero, greater magnitudes come first. -/
structure Rank where
  kind : Int
  exponent : Int := 0
  mantissa : Int := 0

namespace Rank

@[simp] def Before (a b : Rank) : Prop :=
  a.kind < b.kind ∨ a.kind = b.kind ∧
    (a.exponent < b.exponent ∨ a.exponent = b.exponent ∧ a.mantissa < b.mantissa)

def ofUnpacked : UnpackedFloat → Rank
  | .infinity .negative => { kind := -2 }
  | .finite .negative mantissa exponent _ => ⟨-1, -exponent, -mantissa⟩
  | .zero _ => { kind := 0 }
  | .finite .positive mantissa exponent _ => ⟨1, exponent, mantissa⟩
  | .infinity .positive => { kind := 2 }
  | .notANumber => { kind := 3 }

def ofFloat (x : Float) : Rank := ofUnpacked x.toModel.unpack

theorem Before.asymm {a b : Rank} (h : a.Before b) : ¬ b.Before a := by
  simp only [Before] at h ⊢
  omega

theorem not_before_trans {a b c : Rank} (second : ¬ b.Before a) (third : ¬ c.Before b) :
    ¬ c.Before a := by
  simp only [Before] at second third ⊢
  omega

theorem kinds_iff {a b : Rank} {o : Ordering} (kinds : compare a.kind b.kind = o)
    (apart : o ≠ .eq) : some o = some .lt ↔ a.Before b := by
  have differ : a.kind ≠ b.kind := by
    intro same
    exact apart (kinds.symm.trans (Int.compare_eq_eq.mpr same))
  rw [← kinds, Option.some.injEq, Int.compare_eq_lt]
  simp only [Before, differ, false_and, or_false]

theorem level_iff {a b : Rank} (same : a = b) : some Ordering.eq = some .lt ↔ a.Before b := by
  subst same
  exact iff_of_false (by decide) fun h => h.asymm h

theorem positive_iff (e f : Int) (m n : Nat) :
    some ((compare e f).then (compare m n)) = some .lt ↔ Before ⟨1, e, m⟩ ⟨1, f, n⟩ := by
  simp [Ordering.then_eq_lt, Int.compare_eq_lt, Nat.compare_eq_lt]

theorem negative_iff (e f : Int) (m n : Nat) :
    some ((compare e f).then (compare m n)).swap = some .lt ↔
      Before ⟨-1, -e, -m⟩ ⟨-1, -f, -n⟩ := by
  simp [Ordering.then_eq_gt, Int.compare_eq_gt, Nat.compare_eq_gt]

theorem compare_eq_lt_iff {x y : UnpackedFloat} (hx : x.isNaN = false) (hy : y.isNaN = false) :
    x.compare y = some .lt ↔ (ofUnpacked x).Before (ofUnpacked y) := by
  -- Numbers of two kinds compare as the kinds do; two finite ones of one sign by their magnitudes.
  cases x with
  | notANumber => cases hx
  | infinity s =>
    cases y with
    | notANumber => cases hy
    | infinity t =>
      cases s with
      | negative =>
        cases t with
        | negative => exact level_iff rfl
        | positive => exact kinds_iff rfl (by decide)
      | positive =>
        cases t with
        | negative => exact kinds_iff rfl (by decide)
        | positive => exact level_iff rfl
    | zero t => cases s <;> exact kinds_iff rfl (by decide)
    | finite t m e _ => cases s <;> cases t <;> exact kinds_iff rfl (by decide)
  | zero s =>
    cases y with
    | notANumber => cases hy
    | infinity t => cases t <;> exact kinds_iff rfl (by decide)
    | zero t => exact level_iff rfl
    | finite t m e _ => cases t <;> exact kinds_iff rfl (by decide)
  | finite s m e _ =>
    cases y with
    | notANumber => cases hy
    | infinity t => cases s <;> cases t <;> exact kinds_iff rfl (by decide)
    | zero t => cases s <;> exact kinds_iff rfl (by decide)
    | finite t n f _ =>
      cases s with
      | negative =>
        cases t with
        | negative => exact negative_iff e f m n
        | positive => exact kinds_iff rfl (by decide)
      | positive =>
        cases t with
        | negative => exact kinds_iff rfl (by decide)
        | positive => exact positive_iff e f m n

theorem lt_iff {x y : Float} (hx : x.isNaN = false) (hy : y.isNaN = false) :
    x < y ↔ (ofFloat x).Before (ofFloat y) := by
  have compared : x < y ↔ x.toModel.unpack.compare y.toModel.unpack = some .lt := by
    change decide (x.toModel < y.toModel) = true ↔ _
    rw [decide_eq_true_iff]
    exact beq_iff_eq
  rw [compared]
  exact compare_eq_lt_iff hx hy

end Rank

/-- An order of all numbers in which some may stand level with each other. -/
structure WeakOrder (before : Float → Float → Prop) : Prop where
  asymm : ∀ {x y}, x.isNaN = false → y.isNaN = false → before x y → ¬ before y x
  level : ∀ {x y z}, x.isNaN = false → y.isNaN = false → z.isNaN = false →
    ¬ before y x → ¬ before z y → ¬ before z x

namespace WeakOrder

theorem lt : WeakOrder fun x y => x < y where
  asymm hx hy h := by
    rw [Rank.lt_iff hx hy] at h
    rw [Rank.lt_iff hy hx]
    exact h.asymm
  level hx hy hz second third := by
    rw [Rank.lt_iff hy hx] at second
    rw [Rank.lt_iff hz hy] at third
    rw [Rank.lt_iff hz hx]
    exact Rank.not_before_trans second third

variable {before : Float → Float → Prop}

theorem swap (order : WeakOrder before) : WeakOrder fun x y => before y x where
  asymm hx hy h := order.asymm hy hx h
  level hx hy hz second third := order.level hz hy hx third second

theorem irrefl (order : WeakOrder before) {x : Float} (hx : x.isNaN = false) : ¬ before x x :=
  fun h => order.asymm hx hx h h

theorem best_of_more (order : WeakOrder before) [DecidableRel before] {values : List Float}
    {best x : Float} (numbers : ∀ y ∈ values ++ [x], y.isNaN = false) (listed : best ∈ values)
    (least : ∀ y ∈ values, ¬ before y best) :
    (if before x best then x else best) ∈ values ++ [x] ∧
      ∀ y ∈ values ++ [x], ¬ before y (if before x best then x else best) := by
  have old {y : Float} (h : y ∈ values) : y.isNaN = false := numbers y (List.mem_append_left _ h)
  have new : x.isNaN = false := numbers x (by simp)
  split
  · rename_i better
    refine ⟨by simp, fun y hy => ?_⟩
    rcases List.mem_append.mp hy with here | last
    · exact order.level new (old listed) (old here) (order.asymm new (old listed) better)
        (least y here)
    · rw [List.mem_singleton.mp last]
      exact order.irrefl new
  · rename_i worse
    refine ⟨List.mem_append_left _ listed, fun y hy => ?_⟩
    rcases List.mem_append.mp hy with here | last
    · exact least y here
    · rw [List.mem_singleton.mp last]
      exact worse

end WeakOrder

namespace TimeBounds

/-- Bounds of times: none of no times, and otherwise two of the times, with none before the first
and none after the last. -/
inductive Encloses : TimeBounds → List Float → Prop
  | untimed : Encloses {} []
  | timed {first last : Float} {times : List Float} (first_mem : first ∈ times)
      (last_mem : last ∈ times) (first_le : ∀ t ∈ times, ¬ t < first)
      (le_last : ∀ t ∈ times, ¬ last < t) : Encloses ⟨some first, some last⟩ times

namespace Encloses

variable {b : TimeBounds} {times : List Float}

theorem add (encloses : b.Encloses times) {t : Float}
    (numbers : ∀ u ∈ times ++ [t], u.isNaN = false) : (b.add (some t)).Encloses (times ++ [t]) := by
  cases encloses with
  | untimed =>
    have level := WeakOrder.lt.irrefl (numbers t (by simp))
    have alone {P : Float → Prop} (h : P t) : ∀ u ∈ [] ++ [t], P u := by simpa using h
    exact .timed (by simp) (by simp) (alone level) (alone level)
  | timed first_mem last_mem first_le le_last =>
    obtain ⟨firstListed, earliest⟩ := WeakOrder.lt.best_of_more numbers first_mem first_le
    obtain ⟨lastListed, latest⟩ := WeakOrder.lt.swap.best_of_more numbers last_mem le_last
    exact .timed firstListed lastListed earliest latest

theorem foldl (encloses : b.Encloses times) (more : List Float)
    (numbers : ∀ t ∈ times ++ more, t.isNaN = false) :
    (more.foldl (fun b t => b.add (some t)) b).Encloses (times ++ more) := by
  induction more generalizing b times with
  | nil =>
    rw [List.append_nil]
    exact encloses
  | cons t more ih =>
    have joined : times ++ t :: more = times ++ [t] ++ more := List.append_cons times t more
    rw [joined] at numbers ⊢
    exact ih (encloses.add fun u hu => numbers u (List.mem_append_left more hu)) numbers

theorem none_iff (encloses : b.Encloses times) : b.first = none ∧ b.last = none ↔ times = [] := by
  cases encloses with
  | untimed => simp
  | timed first_mem => simp [List.ne_nil_of_mem first_mem]

theorem exists_of_mem (encloses : b.Encloses times) {t : Float} (listed : t ∈ times) :
    ∃ first last, b = ⟨some first, some last⟩ ∧ first ∈ times ∧ last ∈ times ∧
      ∀ u ∈ times, ¬ u < first ∧ ¬ last < u := by
  cases encloses with
  | untimed => cases listed
  | timed first_mem last_mem first_le le_last =>
    exact ⟨_, _, rfl, first_mem, last_mem, fun u hu => ⟨first_le u hu, le_last u hu⟩⟩

end Encloses

theorem foldl_add_eq (b : TimeBounds) (packets : List Packet) :
    packets.foldl (fun b p => b.add p.time) b =
      (packets.filterMap Packet.time).foldl (fun b t => b.add (some t)) b := by
  induction packets generalizing b with
  | nil => rfl
  | cons p packets ih =>
    rw [List.foldl_cons, ih]
    cases timed : p.time with
    | none =>
      rw [List.filterMap_cons_none timed]
      rfl
    | some t => rw [List.filterMap_cons_some timed, List.foldl_cons]

end TimeBounds

namespace Dissection

theorem times_add (d : Dissection) (p : Packet) : (d.add p).1.times = d.times.add p.time := by
  unfold add
  split <;> rfl

theorem times_addAll (d : Dissection) (packets : List Packet) :
    (d.addAll packets).times = packets.foldl (fun b p => b.add p.time) d.times := by
  induction packets generalizing d with
  | nil => rfl
  | cons p packets ih =>
    rw [List.foldl_cons, ← times_add]
    exact ih (d.add p).1

/-- The bounds of time after packets come from their times alone, taken into account in turn, and
from nothing if no packet has a time. Otherwise both are times of packets, no packet is before the
first and none after the last. Packets without a time may be put in or left out anywhere. -/
theorem bounds_of_times (packets : List Packet)
    (numbers : ∀ p ∈ packets, ∀ t, p.time = some t → t.isNaN = false) :
    let bounds := (addAll {} packets).times
    bounds = packets.foldl (fun b p => b.add p.time) {} ∧
      (bounds.first = none ∧ bounds.last = none ↔ ∀ p ∈ packets, p.time = none) ∧
      ((∃ p ∈ packets, p.time ≠ none) → ∃ first last, bounds = ⟨some first, some last⟩ ∧
        (∃ p ∈ packets, p.time = some first) ∧ (∃ p ∈ packets, p.time = some last) ∧
        ∀ p ∈ packets, ∀ t, p.time = some t → ¬ t < first ∧ ¬ last < t) ∧
      ∀ others : List Packet, others.filterMap Packet.time = packets.filterMap Packet.time →
        (addAll {} others).times = bounds := by
  intro bounds
  have folded : bounds = _ := times_addAll {} packets
  have timed (t : Float) : t ∈ packets.filterMap Packet.time ↔ ∃ p ∈ packets, p.time = some t :=
    List.mem_filterMap
  have encloses : bounds.Encloses (packets.filterMap Packet.time) := by
    rw [folded, TimeBounds.foldl_add_eq]
    refine TimeBounds.Encloses.untimed.foldl _ fun t ht => ?_
    obtain ⟨p, listed, here⟩ := (timed t).mp ht
    exact numbers p listed t here
  refine ⟨folded, ?_, ?_, ?_⟩
  · rw [encloses.none_iff, List.filterMap_eq_nil_iff]
  · rintro ⟨p, listed, some_time⟩
    obtain ⟨t, here⟩ := Option.ne_none_iff_exists'.mp some_time
    obtain ⟨first, last, eq, first_mem, last_mem, between⟩ :=
      encloses.exists_of_mem ((timed t).mpr ⟨p, listed, here⟩)
    exact ⟨first, last, eq, (timed first).mp first_mem, (timed last).mp last_mem,
      fun q hq u time => between u ((timed u).mpr ⟨q, hq, time⟩)⟩
  · intro others same
    rw [folded, times_addAll, TimeBounds.foldl_add_eq, TimeBounds.foldl_add_eq, same]

def unordered : List Packet :=
  [⟨none, 1, []⟩, ⟨some 5.0, 1, []⟩, ⟨none, 101, []⟩, ⟨some 2.0, 1, []⟩, ⟨some 9.5, 147, []⟩,
    ⟨some 2.5, 1, []⟩]

theorem bounds_of_times_unordered :
    (∀ p ∈ unordered, ∀ t, p.time = some t → t.isNaN = false) ∧
      (∃ p ∈ unordered, p.time ≠ none) ∧
      (addAll {} unordered).times = ⟨some 2.0, some 9.5⟩ ∧
      (∀ p ∈ unordered, ∀ t, p.time = some t → ¬ t < 2.0 ∧ ¬ 9.5 < t) ∧
      (addAll {} (unordered.filter (·.time.isSome))).times = ⟨some 2.0, some 9.5⟩ := by
  have numbers : ∀ p ∈ unordered, ∀ t, p.time = some t → t.isNaN = false := by
    intro p listed t time
    simp only [unordered, List.mem_cons, List.not_mem_nil, or_false] at listed
    rcases listed with rfl | rfl | rfl | rfl | rfl | rfl <;> cases time <;> rfl
  have some_time : ∃ p ∈ unordered, p.time ≠ none := ⟨⟨some 5.0, 1, []⟩, by simp [unordered]⟩
  obtain ⟨folded, -, bounded, untimed⟩ := bounds_of_times unordered numbers
  have times : (addAll {} unordered).times = ⟨some 2.0, some 9.5⟩ := folded.trans rfl
  obtain ⟨first, last, eq, -, -, between⟩ := bounded some_time
  have first_eq : first = 2.0 := Option.some.inj (congrArg TimeBounds.first (eq.symm.trans times))
  have last_eq : last = 9.5 := Option.some.inj (congrArg TimeBounds.last (eq.symm.trans times))
  rw [first_eq, last_eq] at between
  have same : (unordered.filter (·.time.isSome)).filterMap Packet.time =
      unordered.filterMap Packet.time := rfl
  exact ⟨numbers, some_time, times, between, (untimed _ same).trans times⟩

end Dissection

end PacketLayers
