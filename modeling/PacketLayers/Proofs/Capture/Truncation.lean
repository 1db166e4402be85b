import PacketLayers.Proofs.Capture.Opening

/-!
A file that is cut off. As long as the readers of both files reach equally far, a piece that is
found in the cut file is the piece of the whole one, and both go on behind it; where the cut comes
into sight, the cut file gives no more packets. So its packets are the first of the whole file.
-/
namespace PacketLayers

namespace Window

/-- Windows on a file and on the file with more behind it, which reach equally far. -/
def Abreast (whole cut : Window) : Prop :=
  ∃ (reach : Nat) (more : Bytes), whole.Reaches reach ∧ cut.Reaches reach ∧
    whole.ahead = cut.ahead ++ more

variable {α : Type} {parse : Window → Except Stop (Extent α)} {whole cut behind : Window}

theorem Abreast.seen_append (abreast : Abreast whole cut) :
    ∃ more, whole.seen = cut.seen ++ more := by
  obtain ⟨reach, more, reaches, reachesCut, ahead⟩ := abreast
  refine ⟨more.take (whole.loaded - cut.ahead.length), ?_⟩
  have loaded := reaches.loaded_eq
  have loadedCut := reachesCut.loaded_eq
  have length : whole.ahead.length = cut.ahead.length + more.length := by
    rw [ahead, List.length_append]
  rw [seen, seen, ahead, List.take_append]
  congr 1
  rcases Nat.le_total reach cut.ahead.length with short | beyond
  · have same : whole.loaded = cut.loaded := by omega
    rw [same]
  · rw [List.take_of_length_le (by omega), List.take_of_length_le (by omega)]

theorem Abreast.consume (abreast : Abreast whole cut) {n : Nat} (inside : n ≤ cut.loaded) :
    Abreast (whole.consume n) (cut.consume n) := by
  obtain ⟨reach, more, reaches, reachesCut, ahead⟩ := abreast
  refine ⟨reach - n, more, reaches.consume n, reachesCut.consume n, ?_⟩
  have bound := cut.loaded_le_ahead
  change whole.ahead.drop n = cut.ahead.drop n ++ more
  rw [ahead, List.drop_append_of_le_length (by omega)]

/-- Either both windows show the same octets and can load more alike, or the cut is in sight. -/
theorem Abreast.cases (abreast : Abreast whole cut) :
    cut.loaded = cut.ahead.length ∨ whole.seen = cut.seen ∧ whole.loaded = cut.loaded ∧
      (cut.loaded < capacity → Abreast whole.refill cut.refill) := by
  obtain ⟨reach, more, reaches, reachesCut, ahead⟩ := abreast
  have loaded := reaches.loaded_eq
  have loadedCut := reachesCut.loaded_eq
  have length : whole.ahead.length = cut.ahead.length + more.length := by
    rw [ahead, List.length_append]
  rcases Nat.lt_or_ge reach cut.ahead.length with short | beyond
  · have same : whole.loaded = cut.loaded := by omega
    refine .inr ⟨?_, same, ?_⟩
    · rw [seen, seen, same, ahead, List.take_append_of_le_length (by omega)]
    · intro room
      exact ⟨capacity, more, reaches.refill (by omega) (by omega),
        reachesCut.refill short (by omega), ahead⟩
  · exact .inl (by omega)

theorem refill_of_all (all : cut.loaded = cut.ahead.length) :
    cut.refill.loaded = cut.loaded ∧ cut.refill.exhausted = true ∧ cut.refill.seen = cut.seen := by
  have loaded : cut.refill.loaded = cut.loaded := by
    change max cut.loaded (min cut.ahead.length capacity) = cut.loaded
    omega
  refine ⟨loaded, ?_, ?_⟩
  · change (cut.refill.loaded == cut.loaded) = true
    rw [loaded, beq_self_eq_true]
  · rw [seen, loaded]
    rfl

theorem fetch_of_abreast (steady : Steady parse) (abreast : Abreast whole cut) {value : α}
    (found : cut.fetch parse = (.record value, behind)) :
    ∃ rest, whole.fetch parse = (.record value, rest) ∧ Abreast rest behind := by
  -- On the loads of the cut file: the other one makes the same loads up to the record.
  fun_induction fetch parse cut generalizing whole with
  | case1 cut idle live ih =>
    rcases abreast.cases with all | ⟨-, same, onward⟩
    · obtain ⟨loaded, stuck, -⟩ := refill_of_all all
      rw [fetch_of_over (by omega) (by simp [stuck])] at found
      cases found
    · have room : cut.loaded < capacity := by
        rw [idle]
        decide
      obtain ⟨reach, more, reaches, -⟩ := abreast
      rw [fetch_of_idle (by omega) reaches.live]
      exact ih (onward room) found
  | case2 => cases found
  | case3 cut busy e parsed =>
    cases found
    obtain ⟨more, seen⟩ := abreast.seen_append
    have inside := steady.inside cut e parsed
    have loaded : cut.loaded ≤ whole.loaded := by
      have lengths := congrArg List.length seen
      rw [List.length_append, length_seen, length_seen] at lengths
      omega
    rw [steady.seen] at parsed
    have again := steady.grows cut.seen more e parsed
    rw [← seen, ← steady.seen] at again
    exact ⟨_, fetch_of_parsed (by omega) again, abreast.consume inside⟩
  | case4 => cases found
  | case5 => cases found
  | case6 cut busy missing asks live room ih =>
    rcases abreast.cases with all | ⟨shown, same, onward⟩
    · obtain ⟨loaded, stuck, seen⟩ := refill_of_all all
      rw [steady.seen, ← seen, ← steady.seen] at asks
      rw [fetch_of_stuck (by omega) asks (by simp [stuck])] at found
      cases found
    · rw [steady.seen, ← shown, ← steady.seen] at asks
      obtain ⟨reach, more, reaches, -⟩ := abreast
      rw [fetch_of_room (by omega) asks reaches.live (by omega)]
      exact ih (onward (by omega)) found
  | case7 => cases found

end Window

namespace Settings

variable {c behind : Settings} {whole cut rest : Window} {reading : Reading} {p : Packet}

theorem Call.of_cut (call : Call c cut reading behind rest) (packet : reading = .packet p)
    (usable : c.Usable) (abreast : Window.Abreast whole cut) :
    ∃ restWhole, Call c whole reading behind restWhole ∧ Window.Abreast restWhole rest := by
  induction call generalizing whole with
  | packet fetched =>
    obtain ⟨restWhole, fetchedWhole, later⟩ :=
      Window.fetch_of_abreast (steady_piece usable) abreast fetched
    exact ⟨restWhole, .packet fetchedWhole, later⟩
  | other fetched onward ih =>
    obtain ⟨restWhole, fetchedWhole, later⟩ :=
      Window.fetch_of_abreast (steady_piece usable) abreast fetched
    obtain ⟨final, onwardWhole, last⟩ := ih packet (usable_of_fetch usable fetched) later
    exact ⟨final, .other fetchedWhole onwardWhole, last⟩
  | ended => cases packet
  | failed => cases packet

theorem packets_of_abreast (usable : c.Usable) (abreast : Window.Abreast whole cut) :
    (c.source cut).packets <+: (c.source whole).packets := by
  generalize given : (c.source cut).packets = packets
  induction packets generalizing c whole cut with
  | nil => exact List.nil_prefix
  | cons p packets ih =>
    obtain ⟨first, others⟩ := Source.next_of_packets given
    obtain ⟨behind, rest, call, next⟩ := call_next c cut
    rw [next] at others
    obtain ⟨restWhole, callWhole, later⟩ := call.of_cut first usable abreast
    obtain ⟨firstWhole, nextWhole⟩ := callWhole.next_eq
    rw [Source.packets_of_packet (firstWhole.trans first), nextWhole]
    exact (List.prefix_cons_inj p).mpr (ih (call.usable usable) later others)

end Settings

namespace Source

variable {file cut : Bytes} {s t : Source}

theorem abreast_of_open (opened : open? file = .ok s) (openedCut : open? cut = .ok t)
    (part : cut <+: file) :
    ∃ (c : Settings) (whole short : Window), c.Usable ∧ Window.Abreast whole short ∧
      s = c.source whole ∧ t = c.source short := by
  obtain ⟨more, rfl⟩ := part
  cases t with
  | legacy r =>
    obtain ⟨usable, reaches, longer, reachesLonger, ahead, again⟩ := open?_append openedCut more
    rw [opened] at again
    cases again
    exact ⟨.legacy r.dialect r.linkType, longer, r.window, usable,
      ⟨_, more, reachesLonger, reaches, ahead⟩, rfl, rfl⟩
  | sections r =>
    obtain ⟨rfl, magic, -⟩ := sections_of_open openedCut
    have four : 4 ≤ cut.length := by
      have length := congrArg List.length magic
      rw [List.length_take] at length
      change min 4 cut.length = 4 at length
      omega
    have begins : (cut ++ more).take 4 = sectionMagic := by
      rw [List.take_append_of_le_length four, magic]
    cases s with
    | legacy q =>
      obtain ⟨-, -, -, other⟩ := legacy_of_open opened
      exact absurd begins other
    | sections q =>
      obtain ⟨rfl, -, -⟩ := sections_of_open opened
      exact ⟨.sections .little #[], Window.ofFile (cut ++ more), Window.ofFile cut, trivial,
        ⟨_, more, Window.reaches_ofFile _, Window.reaches_ofFile _, rfl⟩, rfl, rfl⟩

/-- The packets of a cut file are the first packets of the whole file: a call that gives one of
them gives it for both files. -/
theorem packets_of_cut (opened : open? file = .ok s) (openedCut : open? cut = .ok t)
    (part : cut <+: file) :
    t.packets <+: s.packets ∧ ∀ i p, t.reading i = .packet p → s.reading i = .packet p := by
  obtain ⟨c, whole, short, usable, abreast, rfl, rfl⟩ := abreast_of_open opened openedCut part
  have first := Settings.packets_of_abreast usable abreast
  refine ⟨first, ?_⟩
  intro i p given
  rw [reading_eq_packet_iff] at given ⊢
  obtain ⟨others, all⟩ := first
  obtain ⟨inside, -⟩ := List.getElem?_eq_some_iff.mp given
  rw [← all, List.getElem?_append_left inside, given]

theorem packets_of_cut_plainFile :
    let cut := Legacy.plainFile.take 50
    let reader : Legacy.Reader :=
      ⟨Legacy.plainReader.dialect, LinkType.ethernet, (Window.ofFile cut).consume 24⟩
    let first := (Legacy.plainRecord 4 (by decide)).packet LinkType.ethernet
    open? Legacy.plainFile = .ok (.legacy Legacy.plainFileReader) ∧
      open? cut = .ok (.legacy reader) ∧ cut <+: Legacy.plainFile ∧
      (Source.legacy reader).reading 0 = .packet first ∧
      (Source.legacy Legacy.plainFileReader).reading 0 = .packet first := by
  intro cut reader first
  have opened : open? cut = .ok (.legacy reader) := rfl
  have part : cut <+: Legacy.plainFile := List.take_prefix _ _
  have usable : Legacy.plainReader.dialect.Usable := ⟨by decide, by decide⟩
  have room : Window.capacity - 24 < Window.capacity := by decide
  have ahead : reader.window.ahead = (Legacy.plainRecord 4 (by decide)).octets ++
      (Legacy.plainRecord 2 (by decide)).octets.take 6 := rfl
  have given : (Source.legacy reader).reading 0 = .packet first := by
    obtain ⟨behind, -, -, readings⟩ := Legacy.readings_record usable room
      ((Window.reaches_ofFile cut).consume 24) _ ahead (.inl (by decide))
    exact reading_of_readings readings
  obtain ⟨-, both⟩ := packets_of_cut Legacy.open?_plainFile opened part
  exact ⟨Legacy.open?_plainFile, opened, part, given, both 0 first given⟩

end Source

end PacketLayers
