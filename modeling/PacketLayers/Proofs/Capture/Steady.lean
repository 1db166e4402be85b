import PacketLayers.Proofs.Capture.Framing
import PacketLayers.Proofs.Capture.Records

namespace PacketLayers

theorem Extent.eq_of {α : Type} {e f : Extent α} (value : e.value = f.value)
    (size : e.size = f.size) : e = f := by
  cases e
  cases f
  cases value
  cases size
  rfl

namespace Window

def ofLoaded (octets : Bytes) : Window := ⟨octets, octets.length, false, Nat.le_refl _⟩

def seen (w : Window) : Bytes := w.ahead.take w.loaded

@[simp] theorem length_seen (w : Window) : w.seen.length = w.loaded := by
  rw [seen, List.length_take, Nat.min_eq_left w.loaded_le_ahead]

@[simp] theorem loaded_ofLoaded (octets : Bytes) : (ofLoaded octets).loaded = octets.length := rfl

@[simp] theorem ahead_ofLoaded (octets : Bytes) : (ofLoaded octets).ahead = octets := rfl

theorem peek_ofLoaded_append {octets more : Bytes} {start size : Nat}
    (inside : start + size ≤ octets.length) :
    (ofLoaded (octets ++ more)).peek start size = (ofLoaded octets).peek start size :=
  Bytes.slice_append_of_le inside

theorem ahead_eq_seen_append (w : Window) : w.ahead = w.seen ++ w.ahead.drop w.loaded :=
  (List.take_append_drop _ _).symm

theorem peek_seen {w : Window} {start size : Nat} (inside : start + size ≤ w.loaded) :
    w.peek start size = (ofLoaded w.seen).peek start size := by
  change w.ahead.slice start size = w.seen.slice start size
  rw [w.ahead_eq_seen_append, Bytes.slice_append_of_le (by rwa [length_seen])]

theorem unread_seen (w : Window) (start : Nat) :
    w.unread start = (ofLoaded w.seen).unread start := by
  change w.seen.drop start = (w.seen.take w.seen.length).drop start
  rw [List.take_length]

end Window

open Window (ofLoaded)

/-- A parser looks at the loaded octets alone, and sticks to what it found in them. -/
structure Steady {α : Type} (parse : Window → Except Stop (Extent α)) : Prop where
  seen : ∀ w : Window, parse w = parse (ofLoaded w.seen)
  grows : ∀ (octets more : Bytes) (e : Extent α),
    parse (ofLoaded octets) = .ok e → parse (ofLoaded (octets ++ more)) = .ok e
  inside : ∀ (w : Window) (e : Extent α), parse w = .ok e → e.size ≤ w.loaded

namespace Legacy.Dialect

variable {d : Dialect}

theorem record_seen (usable : d.Usable) (w : Window) :
    d.record w = d.record (ofLoaded w.seen) := by
  have bound := w.loaded_le_ahead
  rcases Nat.lt_or_ge w.loaded d.recordHeader with few | head
  · rw [record_of_head few, record_of_head (by simpa using few)]
    simp
  · have size : d.sizeOf w.ahead = d.sizeOf w.seen := by
      rw [w.ahead_eq_seen_append, sizeOf_append _ usable (by simpa using head)]
    rcases Nat.lt_or_ge w.loaded (d.sizeOf w.ahead) with part | whole
    · rw [record_of_part head part,
        record_of_part (by simpa using head) (by simpa [← size] using part)]
      simp [size]
    · obtain ⟨e, parsed, value, extent⟩ := record_of_whole usable whole
      obtain ⟨f, again, valueSeen, extentSeen⟩ :=
        record_of_whole usable (w := ofLoaded w.seen) (by simpa [← size] using whole)
      have record : d.recordOf w.ahead = d.recordOf w.seen := by
        rw [w.ahead_eq_seen_append, recordOf_append _ usable (by simpa [← size] using whole)]
      have same : e = f := by
        apply Extent.eq_of
        · rw [value, valueSeen, record]
          rfl
        · rw [extent, extentSeen, size]
          rfl
      rw [parsed, again, same]

theorem steady_record (usable : d.Usable) : Steady d.record where
  seen := record_seen usable
  grows octets more e parsed := by
    obtain ⟨whole, value, size⟩ := whole_of_record usable parsed
    have head : d.recordHeader ≤ octets.length := Nat.le_trans (Nat.le_add_right _ _) whole
    have still : d.sizeOf (octets ++ more) = d.sizeOf octets := sizeOf_append more usable head
    have longer : octets.length ≤ (octets ++ more).length := by simp
    obtain ⟨f, again, valueLonger, sizeLonger⟩ :=
      record_of_whole usable (w := ofLoaded (octets ++ more))
        (by rw [Window.ahead_ofLoaded, still]; exact Nat.le_trans whole longer)
    have same : f = e := by
      apply Extent.eq_of
      · rw [valueLonger, value]
        exact recordOf_append more usable whole
      · rw [sizeLonger, size]
        exact still
    rw [again, same]
  inside w e parsed := by
    obtain ⟨whole, -, size⟩ := whole_of_record usable parsed
    rw [size]
    exact whole

end Legacy.Dialect

namespace Block

variable {order : ByteOrder} {kind : Nat} {w : Window} {e : Extent Block}

def announced (order : ByteOrder) (w : Window) : Nat := order.value (w.peek 4 4)

def held (order : ByteOrder) (kind : Nat) (w : Window) (size : Nat) : Except Stop Block :=
  if kind = Kind.sectionHeader then .ok (.section order)
  else ofContent order kind (w.peek 8 size)
    (announced order w == order.value (w.peek (8 + size) 4))

theorem total_pos (length : Nat) : 0 < 12 + (length - 12) := Nat.add_pos_left (by decide) _

/-- What becomes of a block whose head is loaded, by its announced length. -/
def conclude (kind loaded length : Nat) (unread : Bytes) (block : Except Stop Block) :
    Except Stop (Extent Block) :=
  if length < minimum kind then .error (.refused (.inconsistent unread))
  else if loaded < 8 + (length - 12) then .error (.needs (8 + (length - 12) - loaded))
  else if loaded < 12 + (length - 12) then .error (.needs (12 + (length - 12) - loaded))
  else
    match block with
    | .ok block => .ok ⟨block, 12 + (length - 12), total_pos length⟩
    | .error stop => .error stop

theorem framed_eq (order : ByteOrder) (kind : Nat) (w : Window) :
    framed order kind w =
      if w.loaded < minimum kind then .error (.needs (minimum kind - w.loaded))
      else if w.loaded < 8 then .error (.needs (8 - w.loaded))
      else conclude kind w.loaded (announced order w) (w.unread 8)
        (held order kind w (announced order w - 12)) := rfl

theorem conclude_congr {loaded length : Nat} {unread : Bytes} {block other : Except Stop Block}
    (same : 12 + (length - 12) ≤ loaded → block = other) :
    conclude kind loaded length unread block = conclude kind loaded length unread other := by
  by_cases inside : 12 + (length - 12) ≤ loaded
  · rw [same inside]
  · unfold conclude
    by_cases part : loaded < 8 + (length - 12)
    · rw [if_pos part, if_pos part]
    · have last : loaded < 12 + (length - 12) := Nat.not_le.mp inside
      rw [if_pos last, if_pos last]

theorem conclude_eq_ok {loaded length : Nat} {unread : Bytes} {block : Except Stop Block}
    (found : conclude kind loaded length unread block = .ok e) :
    minimum kind ≤ length ∧ 12 + (length - 12) ≤ loaded ∧ e.size = 12 + (length - 12) ∧
      block = .ok e.value := by
  unfold conclude at found
  split at found
  · cases found
  · rename_i least
    split at found
    · cases found
    · split at found
      · cases found
      · rename_i inside
        split at found
        · cases found
          exact ⟨Nat.not_lt.mp least, Nat.not_lt.mp inside, rfl, rfl⟩
        · cases found

theorem conclude_of {loaded length : Nat} {unread : Bytes} (least : minimum kind ≤ length)
    (inside : 12 + (length - 12) ≤ loaded) (size : e.size = 12 + (length - 12)) :
    conclude kind loaded length unread (.ok e.value) = .ok e := by
  unfold conclude
  rw [if_neg (by omega), if_neg (by omega), if_neg (by omega)]
  exact congrArg Except.ok (Extent.eq_of rfl size.symm)

/-- A block that is found: all of it is loaded, and it is no shorter than its kind allows. -/
structure Found (order : ByteOrder) (kind : Nat) (w : Window) (e : Extent Block) : Prop where
  least : minimum kind ≤ w.loaded
  head : 8 ≤ w.loaded
  long : minimum kind ≤ announced order w
  inside : 12 + (announced order w - 12) ≤ w.loaded
  size : e.size = 12 + (announced order w - 12)
  holds : held order kind w (announced order w - 12) = .ok e.value

theorem framed_eq_ok_iff : framed order kind w = .ok e ↔ Found order kind w e := by
  rw [framed_eq]
  constructor
  · intro parsed
    split at parsed
    · cases parsed
    · rename_i least
      split at parsed
      · cases parsed
      · rename_i head
        obtain ⟨long, inside, size, holds⟩ := conclude_eq_ok parsed
        exact ⟨Nat.not_lt.mp least, Nat.not_lt.mp head, long, inside, size, holds⟩
  · intro found
    rw [if_neg (Nat.not_lt.mpr found.least), if_neg (Nat.not_lt.mpr found.head), found.holds]
    exact conclude_of found.long found.inside found.size

theorem held_congr {v : Window} {size : Nat}
    (same : ∀ start count, start + count ≤ 12 + size → v.peek start count = w.peek start count) :
    held order kind v size = held order kind w size := by
  unfold held announced
  rw [same 8 size (by omega), same 4 4 (by omega), same (8 + size) 4 (by omega)]

theorem framed_seen (w : Window) : framed order kind w = framed order kind (ofLoaded w.seen) := by
  rw [framed_eq, framed_eq, Window.loaded_ofLoaded, Window.length_seen]
  by_cases few : w.loaded < minimum kind
  · rw [if_pos few, if_pos few]
  · rw [if_neg few, if_neg few]
    by_cases head : w.loaded < 8
    · rw [if_pos head, if_pos head]
    · have length : announced order w = announced order (ofLoaded w.seen) := by
        unfold announced
        rw [Window.peek_seen (by omega)]
      rw [if_neg head, if_neg head, length, w.unread_seen]
      apply conclude_congr
      intro inside
      apply held_congr
      intro start count within
      exact Window.peek_seen (by omega)

theorem Found.grows {octets more : Bytes} (found : Found order kind (ofLoaded octets) e) :
    Found order kind (ofLoaded (octets ++ more)) e := by
  have least : minimum kind ≤ octets.length := found.least
  have head : 8 ≤ octets.length := found.head
  have inside : 12 + (announced order (ofLoaded octets) - 12) ≤ octets.length := found.inside
  have longer : octets.length ≤ (octets ++ more).length := by simp
  have length : announced order (ofLoaded (octets ++ more)) =
      announced order (ofLoaded octets) := by
    unfold announced
    rw [Window.peek_ofLoaded_append (by omega)]
  constructor
  · exact Nat.le_trans least longer
  · exact Nat.le_trans head longer
  · rw [length]
    exact found.long
  · rw [length]
    exact Nat.le_trans inside longer
  · rw [length]
    exact found.size
  · rw [length, ← found.holds]
    apply held_congr
    intro start count within
    exact Window.peek_ofLoaded_append (by omega)

theorem steady_framed (order : ByteOrder) (kind : Nat) : Steady (framed order kind) where
  seen := framed_seen
  grows octets more e parsed := framed_eq_ok_iff.mpr (framed_eq_ok_iff.mp parsed).grows
  inside w e parsed := by
    have found := framed_eq_ok_iff.mp parsed
    rw [found.size]
    exact found.inside

end Block

theorem Steady.after_head {α β : Type} {parse : Window → Except Stop (Extent α)} (head : Nat)
    (choose : Window → β) (onward : β → Window → Except Stop (Extent α))
    (steady : ∀ b, Steady (onward b))
    (few : ∀ w : Window, w.loaded < head → parse w = .error (.needs (head - w.loaded)))
    (many : ∀ w : Window, head ≤ w.loaded → parse w = onward (choose w) w)
    (chosen : ∀ v w : Window,
      (∀ start count, start + count ≤ head → v.peek start count = w.peek start count) →
        choose v = choose w) :
    Steady parse where
  seen w := by
    by_cases less : w.loaded < head
    · rw [few w less, few (ofLoaded w.seen) (by simpa using less)]
      simp
    · have same : choose w = choose (ofLoaded w.seen) := by
        apply chosen
        intro start count within
        exact Window.peek_seen (by omega)
      rw [many w (by omega), many (ofLoaded w.seen) (by simpa using less), (steady _).seen, same]
  grows octets more e parsed := by
    by_cases less : octets.length < head
    · rw [few (ofLoaded octets) less] at parsed
      cases parsed
    · have same : choose (ofLoaded (octets ++ more)) = choose (ofLoaded octets) := by
        apply chosen
        intro start count within
        exact Window.peek_ofLoaded_append (by omega)
      rw [many (ofLoaded octets) (Nat.not_lt.mp less)] at parsed
      rw [many (ofLoaded (octets ++ more)) (by simp; omega), same]
      exact (steady _).grows octets more e parsed
  inside w e parsed := by
    by_cases less : w.loaded < head
    · rw [few w less] at parsed
      cases parsed
    · rw [many w (Nat.not_lt.mp less)] at parsed
      exact (steady _).inside w e parsed

namespace Block

theorem steady_refusal {α : Type} (error : ReadError) :
    Steady fun _ : Window => (.error (.refused error) : Except Stop (Extent α)) where
  seen _ := rfl
  grows _ _ _ parsed := by cases parsed
  inside _ _ parsed := by cases parsed

def sectionHeaderIn : Option ByteOrder → Window → Except Stop (Extent Block)
  | some order, w => framed order Kind.sectionHeader w
  | none, _ => .error (.refused .unrecognized)

theorem steady_sectionHeader : Steady sectionHeader := by
  refine Steady.after_head 12 sectionOrder? sectionHeaderIn ?_ ?_ ?_ ?_
  · intro found
    cases found with
    | none => exact steady_refusal _
    | some order => exact steady_framed order _
  · intro w less
    exact if_pos less
  · intro w enough
    unfold sectionHeader
    refine (if_neg (Nat.not_lt.mpr enough)).trans ?_
    cases sectionOrder? w <;> rfl
  · intro v w same
    unfold sectionOrder?
    rw [same 8 4 (by omega)]

theorem steady_next (order : ByteOrder) : Steady (next order) := by
  refine Steady.after_head 4 (fun w => order.value (w.peek 0 4)) (fun kind w =>
    if kind = Kind.sectionHeader then sectionHeader w else framed order kind w) ?_ ?_ ?_ ?_
  · intro kind
    by_cases header : kind = Kind.sectionHeader
    · simpa only [if_pos header] using steady_sectionHeader
    · simpa only [if_neg header] using steady_framed order kind
  · intro w less
    exact if_pos less
  · intro w enough
    exact if_neg (Nat.not_lt.mpr enough)
  · intro v w same
    exact congrArg order.value (same 0 4 (by omega))

end Block

end PacketLayers
