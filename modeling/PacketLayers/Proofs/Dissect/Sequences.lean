import PacketLayers.Proofs.Dissect.Balance

/-!
Reports on sequences of packets. A packet adds to each figure what it adds to an empty count, so
figures add up over sequences and do not depend on the order. A source that fails has no report.
-/
namespace PacketLayers

namespace Counters

theorem bump_comm (a b : Nat) (table : List (Nat × Nat)) :
    bump a (bump b table) = bump b (bump a table) := by
  induction table with
  | nil => grind [bump]
  | cons e rest ih => grind [bump]

theorem foldl_bump_of_perm {xs ys : List Nat} (same : xs.Perm ys) (table : List (Nat × Nat)) :
    xs.foldl (fun table type => bump type table) table =
      ys.foldl (fun table type => bump type table) table :=
  same.foldl_eq' (fun a _ b _ table => bump_comm b a table) table

theorem lookup_map_snd (hold : Nat → Nat) (zero : hold 0 = 0) (table : List (Nat × Nat))
    (type : Nat) : lookup type (table.map fun e => (e.1, hold e.2)) = hold (lookup type table) := by
  induction table with
  | nil => exact zero.symm
  | cons e rest ih =>
    obtain ⟨k, n⟩ := e
    simp only [lookup, List.map_cons, lookup_cons] at ih ⊢
    by_cases here : type = k
    · simp only [if_pos here, Option.getD_some]
    · simp only [if_neg here]
      exact ih

end Counters

inductive Figure where
  | frames (l : Layer)
  | ethertype (type : Nat)
  | packets
  | unsupported

namespace Dissection

open Counters

def figure (d : Dissection) : Figure → Nat
  | .frames l => d.counters.frames l
  | .ethertype type => lookup type d.counters.ethertypes
  | .packets => d.packets
  | .unsupported => d.unsupported

def share (p : Packet) : Figure → Nat
  | .frames l => (Dissect.layersOf p.linkType p.data).count l
  | .ethertype type => (Dissect.ethertypeOf? p.linkType p.data).toList.count type
  | .packets => 1
  | .unsupported => if p.linkType ∈ Dissect.supported then 0 else 1

theorem figure_start (x : Figure) : ({} : Dissection).figure x = 0 := by
  cases x with
  | frames l => cases l <;> rfl
  | ethertype type => rfl
  | packets => rfl
  | unsupported => rfl

theorem figure_add {d : Dissection} (ordered : d.counters.Ordered) (p : Packet) (x : Figure) :
    (d.add p).1.figure x = d.figure x + share p x := by
  cases x with
  | frames l => exact frames_add d p l
  | ethertype type => exact lookup_add ordered p type
  | packets => exact packets_add d p
  | unsupported => exact unsupported_add d p

theorem share_le (p : Packet) (x : Figure) : share p x ≤ 1 := by
  cases x with
  | frames l => exact (Dissect.within_layersOf p.linkType p.data).once l
  | ethertype type => exact Nat.le_trans List.count_le_length Option.length_toList_le
  | packets => exact Nat.le_refl 1
  | unsupported =>
    change (if p.linkType ∈ Dissect.supported then 0 else 1) ≤ 1
    split <;> decide

theorem figure_addAll {d : Dissection} (ordered : d.counters.Ordered) (packets : List Packet)
    (x : Figure) :
    (d.addAll packets).figure x = d.figure x + (addAll {} packets).figure x := by
  induction packets generalizing d with
  | nil => exact (congrArg (d.figure x + ·) (figure_start x)).symm
  | cons p packets ih =>
    have start : ({} : Dissection).counters.Ordered := .nil
    have here : (d.addAll (p :: packets)).figure x = _ := ih (ordered_add ordered p)
    have alone : (addAll {} (p :: packets)).figure x = _ := ih (ordered_add start p)
    rw [here, alone, figure_add ordered, figure_add start, figure_start, Nat.zero_add,
      Nat.add_assoc]

theorem figure_cons (p : Packet) (packets : List Packet) (x : Figure) :
    (addAll {} (p :: packets)).figure x = share p x + (addAll {} packets).figure x := by
  have start : ({} : Dissection).counters.Ordered := .nil
  have rest : (addAll {} (p :: packets)).figure x = _ :=
    figure_addAll (ordered_add start p) packets x
  rw [rest, figure_add start, figure_start, Nat.zero_add]

theorem figure_append (first second : List Packet) (x : Figure) :
    (addAll {} (first ++ second)).figure x =
      (addAll {} first).figure x + (addAll {} second).figure x := by
  rw [addAll, List.foldl_append]
  exact figure_addAll (balanced_packets first).ordered second x

theorem figure_le (packets : List Packet) (x : Figure) :
    (addAll {} packets).figure x ≤ packets.length := by
  induction packets with
  | nil => exact Nat.le_of_eq (figure_start x)
  | cons p packets ih =>
    have one := share_le p x
    rw [figure_cons, List.length_cons]
    omega

theorem figure_of_perm {first second : List Packet} (same : first.Perm second) (x : Figure) :
    (addAll {} first).figure x = (addAll {} second).figure x := by
  induction same with
  | nil => rfl
  | cons p _ ih => rw [figure_cons, figure_cons, ih]
  | swap p q rest => simp only [figure_cons, Nat.add_left_comm]
  | trans _ _ ih ih' => exact ih.trans ih'

theorem ethertypes_addAll (d : Dissection) (packets : List Packet) :
    (d.addAll packets).counters.ethertypes =
      (packets.filterMap fun p => Dissect.ethertypeOf? p.linkType p.data).foldl
        (fun table type => bump type table) d.counters.ethertypes := by
  induction packets generalizing d with
  | nil => rfl
  | cons p packets ih =>
    have rest : (d.addAll (p :: packets)).counters.ethertypes = _ := ih (d.add p).1
    rw [rest, ethertypes_add, List.filterMap_cons]
    cases Dissect.ethertypeOf? p.linkType p.data <;> rfl

theorem counters_of_perm {first second : List Packet} (same : first.Perm second) :
    (addAll {} first).counters.layerSummaries = (addAll {} second).counters.layerSummaries ∧
      (addAll {} first).counters.ethertypes = (addAll {} second).counters.ethertypes := by
  constructor
  · refine List.map_congr_left fun l _ => ?_
    have frames : (addAll {} first).counters.frames l = (addAll {} second).counters.frames l :=
      figure_of_perm same (.frames l)
    rw [frames]
  · rw [ethertypes_addAll, ethertypes_addAll]
    exact foldl_bump_of_perm (same.filterMap _) _

end Dissection

/-! ### The report -/

namespace Report

def figure (r : Report) : Figure → Nat
  | .frames l => r.framesOf l
  | .ethertype type => Counters.lookup type r.table
  | .packets => r.captureSummary.elim 0 (·.packetsTotal.toNat)
  | .unsupported => r.unsupportedLinkTypes.toNat

/-- Whether two reports show the same counts, zeros and the order of ethertypes included. -/
structure SameCounts (r s : Report) : Prop where
  layers : r.layers = s.layers
  ethertypes : r.ethertypes = s.ethertypes
  packets : r.captureSummary.map (·.packetsTotal) = s.captureSummary.map (·.packetsTotal)
  unsupported : r.unsupportedLinkTypes = s.unsupportedLinkTypes

end Report

/-- Whether a report is one on packets: on a source that yields them and ends, under some path. -/
def Report.On (r : Report) (packets : List Packet) : Prop :=
  ∃ path bytes pulls, Pull.Yields pulls packets .finished ∧
    (dissectPulls path (.ok bytes) pulls).1 = .ok r

namespace Dissection

theorem figure_report {d : Dissection} (words : ∀ e ∈ d.counters.ethertypes, e.1 < UInt16.size)
    (path : String) (bytes : Nat) (x : Figure) :
    (d.report path bytes).figure x = d.figure x % UInt64.size := by
  cases x with
  | frames l => exact framesOf_report d path bytes l
  | ethertype type =>
    rw [Report.figure, table_report d path bytes words]
    exact Counters.lookup_map_snd (· % UInt64.size) rfl d.counters.ethertypes type
  | packets => exact UInt64.toNat_ofNat'
  | unsupported => exact UInt64.toNat_ofNat'

theorem dissectPulls_finished {pulls : List Pull} {packets : List Packet}
    (yields : Pull.Yields pulls packets .finished) (path : String) (bytes : Nat) :
    (dissectPulls path (.ok bytes) pulls).1 = .ok (reportOn path bytes packets) := by
  obtain ⟨pull, rest, reading, ends⟩ := run_of_yields yields {}
  simp only [run, reading] at ends
  unfold dissectPulls
  generalize run {} pulls = outcome at ends
  obtain ⟨result, events⟩ := outcome
  cases ends
  rfl

theorem dissectPulls_failed {pulls : List Pull} {packets : List Packet} {e : SourceError}
    (yields : Pull.Yields pulls packets (.failed e)) (path : String)
    (size : Except FileError Nat) : (dissectPulls path size pulls).1 = .error (.source e) := by
  obtain ⟨pull, rest, reading, ends⟩ := run_of_yields yields {}
  simp only [run, reading] at ends
  unfold dissectPulls
  generalize run {} pulls = outcome at ends
  obtain ⟨result, events⟩ := outcome
  cases ends
  rfl

theorem exists_reportOn {r : Report} {packets : List Packet} (on : r.On packets) :
    ∃ path bytes, r = reportOn path bytes packets := by
  obtain ⟨path, bytes, pulls, yields, made⟩ := on
  rw [dissectPulls_finished yields] at made
  exact ⟨path, bytes, (Except.ok.inj made).symm⟩

theorem figure_on {r : Report} {packets : List Packet} (on : r.On packets) (x : Figure) :
    r.figure x = (addAll {} packets).figure x % UInt64.size := by
  obtain ⟨path, bytes, rfl⟩ := exists_reportOn on
  exact figure_report (balanced_packets packets).words path bytes x

theorem sameCounts_of_perm {r s : Report} {first second : List Packet}
    (same : first.Perm second) (first_on : r.On first) (second_on : s.On second) :
    r.SameCounts s := by
  obtain ⟨path, bytes, rfl⟩ := exists_reportOn first_on
  obtain ⟨path', bytes', rfl⟩ := exists_reportOn second_on
  obtain ⟨layers, ethertypes⟩ := counters_of_perm same
  have packets : (addAll {} first).packets = (addAll {} second).packets :=
    figure_of_perm same .packets
  have unsupported : (addAll {} first).unsupported = (addAll {} second).unsupported :=
    figure_of_perm same .unsupported
  exact {
    layers := layers
    ethertypes := by
      simp only [reportOn, report, Counters.ethertypeSummaries, ethertypes]
    packets := by
      simp only [reportOn, report, Option.map_some, packets]
    unsupported := by
      simp only [reportOn, report, unsupported] }

theorem figure_of_append {r s t : Report} {first second : List Packet} (first_on : r.On first)
    (second_on : s.On second) (both_on : t.On (first ++ second)) (x : Figure) :
    t.figure x = (r.figure x + s.figure x) % UInt64.size := by
  rw [figure_on both_on, figure_on first_on, figure_on second_on, figure_append, Nat.add_mod]

theorem figure_of_append_few {r s t : Report} {first second : List Packet}
    (first_on : r.On first) (second_on : s.On second) (both_on : t.On (first ++ second))
    (few : (first ++ second).length < UInt64.size) (x : Figure) :
    t.figure x = r.figure x + s.figure x := by
  have low : r.figure x ≤ first.length := by
    rw [figure_on first_on]
    exact Nat.le_trans (Nat.mod_le _ _) (figure_le first x)
  have high : s.figure x ≤ second.length := by
    rw [figure_on second_on]
    exact Nat.le_trans (Nat.mod_le _ _) (figure_le second x)
  rw [List.length_append] at few
  rw [figure_of_append first_on second_on both_on]
  exact Nat.mod_eq_of_lt (by omega)

/-- The packets of a source that ends give a report. Its counts do not depend on the order of the
packets; the figures of two sequences, one after the other, are the sums of theirs in 64 bits, and
fewer than 2 ^ 64 packets never fill these. A source that fails, after any packets and whatever the
size of the input, gives its error and no report. -/
theorem figures_of_sequences :
    (∀ path bytes packets pulls, Pull.Yields pulls packets .finished →
      ∃ r, (dissectPulls path (.ok bytes) pulls).1 = .ok r) ∧
    (∀ r s first second, List.Perm first second → Report.On r first → Report.On s second →
      r.SameCounts s) ∧
    (∀ r s t first second, Report.On r first → Report.On s second →
      Report.On t (first ++ second) → ∀ x,
        t.figure x = (r.figure x + s.figure x) % UInt64.size ∧
          ((first ++ second).length < UInt64.size → t.figure x = r.figure x + s.figure x)) ∧
    ∀ path size packets pulls e, Pull.Yields pulls packets (.failed e) →
      (dissectPulls path size pulls).1 = .error (.source e) := by
  refine ⟨?_, ?_, ?_, ?_⟩
  · intro path bytes packets pulls yields
    exact ⟨_, dissectPulls_finished yields path bytes⟩
  · intro r s first second same first_on second_on
    exact sameCounts_of_perm same first_on second_on
  · intro r s t first second first_on second_on both_on x
    exact ⟨figure_of_append first_on second_on both_on x,
      fun few => figure_of_append_few first_on second_on both_on few x⟩
  · intro path size packets pulls e yields
    exact dissectPulls_failed yields path size

def pullsOf (packets : List Packet) (last : Reading) : List Pull :=
  packets.map (fun p => ⟨[], .packet p⟩) ++ [⟨[], last⟩]

/-- A datagram in an Ethernet frame before and after packets of three link types, and the same
packets cut short by an error under a path that names nothing. -/
theorem figures_of_sequences_mixed :
    let more : List Packet := [⟨none, 1, datagram⟩]
    let failure : Reading := .failed (.file .shortRead)
    Pull.Yields (pullsOf mixedPackets .finished) mixedPackets .finished ∧
      List.Perm (mixedPackets ++ more) (more ++ mixedPackets) ∧
      (∃ r s t u : Report, r.On mixedPackets ∧ s.On more ∧ t.On (mixedPackets ++ more) ∧
        u.On (more ++ mixedPackets) ∧ t.SameCounts u ∧
        t.figure (.frames .udp) = r.figure (.frames .udp) + s.figure (.frames .udp)) ∧
      Pull.Yields (pullsOf mixedPackets failure) mixedPackets failure ∧
      (dissectPulls "gone" (.error .notFound) (pullsOf mixedPackets failure)).1 =
        .error (.source (.file .shortRead)) := by
  intro more failure
  have h := figures_of_sequences
  have on (packets : List Packet)
      (yields : Pull.Yields (pullsOf packets .finished) packets .finished) :
      ∃ r : Report, r.On packets := by
    obtain ⟨r, made⟩ := h.1 "mixed" 1 packets _ yields
    exact ⟨r, "mixed", 1, _, yields, made⟩
  have yields : Pull.Yields (pullsOf mixedPackets .finished) mixedPackets .finished :=
    List.prefix_rfl
  have fails : Pull.Yields (pullsOf mixedPackets failure) mixedPackets failure := List.prefix_rfl
  have same : List.Perm (mixedPackets ++ more) (more ++ mixedPackets) := List.perm_append_comm
  obtain ⟨r, r_on⟩ := on mixedPackets yields
  obtain ⟨s, s_on⟩ := on more List.prefix_rfl
  obtain ⟨t, t_on⟩ := on (mixedPackets ++ more) List.prefix_rfl
  obtain ⟨u, u_on⟩ := on (more ++ mixedPackets) List.prefix_rfl
  have counts := h.2.1 t u _ _ same t_on u_on
  have sums := (h.2.2.1 r s t _ _ r_on s_on t_on (.frames .udp)).2 (by decide)
  exact ⟨yields, same, ⟨r, s, t, u, r_on, s_on, t_on, u_on, counts, sums⟩, fails,
    h.2.2.2 "gone" (.error .notFound) _ _ _ fails⟩

end Dissection

end PacketLayers
