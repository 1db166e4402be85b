import PacketLayers.Capture.Window

namespace PacketLayers

/-- A parser takes given octets for a record of a value. -/
structure Recognizes {α : Type} (parse : Window → Except Stop (Extent α)) (octets : Bytes)
    (value : α) : Prop where
  short : ∀ w : Window, octets <+: w.ahead → w.loaded < octets.length →
    ∃ missing, parse w = .error (.needs missing) ∧ w.loaded + missing ≤ octets.length
  whole : ∀ w : Window, octets <+: w.ahead → octets.length ≤ w.loaded →
    ∃ found, parse w = .ok found ∧ found.value = value ∧ found.size = octets.length

theorem Recognizes.after_head {α : Type} {parse onward : Window → Except Stop (Extent α)}
    {octets : Bytes} {value : α} (recognizes : Recognizes onward octets value) (head : Nat)
    (inside : head ≤ octets.length)
    (few : ∀ w : Window, w.loaded < head → parse w = .error (.needs (head - w.loaded)))
    (same : ∀ w : Window, octets <+: w.ahead → ¬ w.loaded < head → parse w = onward w) :
    Recognizes parse octets value where
  short w begins less := by
    by_cases early : w.loaded < head
    · exact ⟨head - w.loaded, few w early, by omega⟩
    · rw [same w begins early]
      exact recognizes.short w begins less
  whole w begins loaded := by
    rw [same w begins (by omega)]
    exact recognizes.whole w begins loaded

namespace Window

variable {α : Type} {parse : Window → Except Stop (Extent α)} {w : Window}

/-- No octets are left in the file once a load has found none. -/
def Honest (w : Window) : Prop := w.exhausted = true → w.loaded = w.ahead.length

theorem honest_ofFile (file : Bytes) : (ofFile file).Honest := nofun

theorem honest_refill (room : w.loaded < capacity) : w.refill.Honest := by
  intro stuck
  have bound := w.loaded_le_ahead
  have same : max w.loaded (min w.ahead.length capacity) = w.loaded := by
    simpa [refill] using stuck
  change max w.loaded (min w.ahead.length capacity) = w.ahead.length
  omega

theorem honest_consume (honest : w.Honest) (n : Nat) : (w.consume n).Honest := by
  intro stuck
  have loaded := honest stuck
  change w.loaded - n = (w.ahead.drop n).length
  rw [List.length_drop, loaded]

theorem fetch_of_recognizes {octets rest : Bytes} {value : α}
    (recognizes : Recognizes parse octets value) (some : octets ≠ [])
    (fits : octets.length < capacity) (honest : w.Honest) (ahead : w.ahead = octets ++ rest) :
    ∃ behind : Window, w.fetch parse = (.record value, behind) ∧ behind.ahead = rest ∧
      behind.Honest := by
  have begins : octets <+: w.ahead := ⟨rest, ahead.symm⟩
  have positive := List.length_pos_iff.mpr some
  have inside : octets.length ≤ w.ahead.length := begins.length_le
  -- Until all octets are loaded the parser asks for more, and then it takes them for the record.
  fun_induction fetch parse w with
  | case1 w idle live ih =>
    exact ih (honest_refill (by omega)) ahead begins inside
  | case2 w idle stuck =>
    have loaded := honest (by simpa using stuck)
    omega
  | case3 w busy extent parsed =>
    have loaded : octets.length ≤ w.loaded := by
      refine Nat.le_of_not_lt fun less => ?_
      obtain ⟨missing, asks, -⟩ := recognizes.short w begins less
      rw [parsed] at asks
      cases asks
    obtain ⟨found, again, rfl, size⟩ := recognizes.whole w begins loaded
    obtain rfl : extent = found := Except.ok.inj (parsed.symm.trans again)
    refine ⟨w.consume extent.size, rfl, ?_, honest_consume honest _⟩
    change w.ahead.drop extent.size = rest
    rw [size, ahead, List.drop_left]
  | case4 w busy e refuses =>
    rcases Nat.lt_or_ge w.loaded octets.length with less | loaded
    · obtain ⟨missing, asks, -⟩ := recognizes.short w begins less
      rw [refuses] at asks
      cases asks
    · obtain ⟨found, parsed, -⟩ := recognizes.whole w begins loaded
      rw [refuses] at parsed
      cases parsed
  | case5 w busy missing asks live full =>
    rcases Nat.lt_or_ge w.loaded octets.length with less | loaded
    · obtain ⟨again, asked, bound⟩ := recognizes.short w begins less
      rw [asks] at asked
      cases asked
      omega
    · obtain ⟨found, parsed, -⟩ := recognizes.whole w begins loaded
      rw [asks] at parsed
      cases parsed
  | case6 w busy missing asks live room ih =>
    exact ih (honest_refill (by omega)) ahead begins inside
  | case7 w busy missing asks stuck =>
    have loaded := honest (by simpa using stuck)
    obtain ⟨found, parsed, -⟩ := recognizes.whole w begins (by omega)
    rw [asks] at parsed
    cases parsed

theorem fetch_of_nil (parse : Window → Except Stop (Extent α)) (ahead : w.ahead = []) :
    ∃ behind : Window, w.fetch parse = (.ended, behind) ∧ behind.ahead = [] := by
  have idle : w.loaded = 0 := by
    have bound := w.loaded_le_ahead
    rw [ahead] at bound
    exact Nat.le_zero.mp bound
  have again : w.refill.loaded = 0 := by
    change max w.loaded (min w.ahead.length capacity) = 0
    simp [ahead, idle]
  have stuck : w.refill.exhausted = true := by
    change (max w.loaded (min w.ahead.length capacity) == w.loaded) = true
    simp [ahead, idle]
  rw [fetch, if_pos idle]
  split
  · refine ⟨w.refill, ?_, ahead⟩
    rw [fetch, if_pos again, dif_neg (by simp [stuck])]
  · exact ⟨w, rfl, ahead⟩

end Window

end PacketLayers
