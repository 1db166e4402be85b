import PacketLayers.Proofs.Capture.Drain
import PacketLayers.Proofs.Capture.Forms

/-!
What a file of well-formed sections gives. The packets of a section are found by the place of
their blocks: a packet takes its settings from the descriptions that stand before it in its
section. The reader keeps just these, over any run of blocks and sections and however the loads
cut them.
-/
namespace PacketLayers

/-- The units of time per second: microseconds, unless others are declared that fit 64 bits. -/
def InterfaceForm.units (f : InterfaceForm) : Nat :=
  match f.resolution with
  | none => 1000000
  | some code =>
    let units :=
      if code.toNat < 128 then Nat.pow 10 code.toNat else Nat.pow 2 (code.toNat - 128)
    if units < UInt64.size then units else 1000000

namespace BlockForm

def interface? : BlockForm → Option InterfaceForm
  | interface f => some f
  | _ => none

def packet? (interfaces : List InterfaceForm) : BlockForm → Option Packet
  | enhanced f =>
    let declared := interfaces[f.interface.toNat]?
    let units := declared.elim 1000000 (·.units)
    some ⟨some (unitsToSeconds f.high.toNat f.low.toNat units),
      declared.elim LinkType.ethernet (·.linkType.toNat), f.data.value⟩
  | simple f =>
    let declared := interfaces[0]?
    let snapLength := declared.elim 0 (·.snapLength.toNat)
    let captured := if snapLength = 0 then f.onWire.toNat else min f.onWire.toNat snapLength
    some ⟨none, declared.elim LinkType.ethernet (·.linkType.toNat), f.stored.take captured⟩
  | _ => none

end BlockForm

namespace SectionForm

def interfacesBefore (s : SectionForm) (i : Nat) : List InterfaceForm :=
  (s.blocks.take i).filterMap BlockForm.interface?

def packetAt? (s : SectionForm) (i : Nat) : Option Packet :=
  s.blocks[i]?.bind (BlockForm.packet? (s.interfacesBefore i))

def packets (s : SectionForm) : List Packet := (List.range s.blocks.length).filterMap s.packetAt?

end SectionForm

namespace InterfaceForm

def settings (f : InterfaceForm) : Interface := ⟨f.linkType.toNat, f.units, f.snapLength.toNat⟩

theorem describe_eq (f : InterfaceForm) :
    (Sections.describe f.linkType.toNat ((f.resolution.map (·.toNat)).getD 6)
      f.snapLength.toNat).1 = f.settings := by
  have units : unitsPerSecond? ((f.resolution.map (·.toNat)).getD 6) = some f.units ∨
      unitsPerSecond? ((f.resolution.map (·.toNat)).getD 6) = none ∧ f.units = 1000000 := by
    unfold InterfaceForm.units
    cases f.resolution with
    | none => exact .inl (by decide)
    | some code =>
      have octet := code.toNat_lt
      simp only [Option.map_some, Option.getD_some, unitsPerSecond?]
      by_cases decimal : code.toNat < 128
      · rw [if_neg (Nat.not_le.mpr decimal), if_pos decimal, Nat.mod_eq_of_lt decimal]
        split
        · exact .inl rfl
        · exact .inr ⟨rfl, rfl⟩
      · have exponent : code.toNat % 128 = code.toNat - 128 := by omega
        have power : 1 <<< (code.toNat - 128) = Nat.pow 2 (code.toNat - 128) :=
          Nat.one_shiftLeft _
        rw [if_pos (Nat.not_lt.mp decimal), if_neg decimal, exponent, power]
        split
        · exact .inl rfl
        · exact .inr ⟨rfl, rfl⟩
  unfold Sections.describe settings
  rcases units with found | ⟨missing, default⟩
  · rw [found]
  · rw [missing, default]

end InterfaceForm

namespace Sections.Reader

variable {r : Reader} {interfaces : List InterfaceForm}

/-- The settings of a section as far as it was read. -/
structure Knows (r : Reader) (order : ByteOrder) (interfaces : List InterfaceForm) : Prop where
  order : r.order = order
  interfaces : r.interfaces.toList = interfaces.map InterfaceForm.settings

theorem Knows.interface_eq {order : ByteOrder} (knows : r.Knows order interfaces) (id : Nat) :
    r.interface id = interfaces[id]?.elim {} InterfaceForm.settings := by
  rw [interface, Array.getD_eq_getD_getElem?, ← Array.getElem?_toList, knows.interfaces,
    List.getElem?_map]
  cases interfaces[id]? <;> rfl

theorem Knows.packet?_eq {order : ByteOrder} (knows : r.Knows order interfaces) (b : BlockForm) :
    r.packet? b.block = b.packet? interfaces := by
  cases b with
  | interface f => rfl
  | enhanced f =>
    simp only [BlockForm.block, Reader.packet?, BlockForm.packet?, knows.interface_eq]
    have stored : f.data.octets.take f.data.value.length = f.data.value := List.take_left
    rw [stored]
    cases interfaces[f.interface.toNat]? <;> rfl
  | simple f =>
    simp only [BlockForm.block, Reader.packet?, BlockForm.packet?, knows.interface_eq]
    cases interfaces[0]? <;> rfl
  | unknown f => rfl

def behind (r : Reader) (block : Block) (w : Window) : Reader :=
  ⟨(r.apply block).1.order, (r.apply block).1.interfaces, w⟩

theorem Knows.behind {order : ByteOrder} (knows : r.Knows order interfaces) (b : BlockForm)
    (w : Window) :
    (r.behind b.block w).Knows order (interfaces ++ b.interface?.toList) := by
  have unchanged : Knows ⟨r.order, r.interfaces, w⟩ order (interfaces ++ []) := by
    refine ⟨knows.order, ?_⟩
    rw [List.append_nil]
    exact knows.interfaces
  cases b with
  | interface f =>
    refine ⟨knows.order, ?_⟩
    have described := f.describe_eq
    simp only [BlockForm.block, Reader.behind, Reader.apply, Array.toList_push, described,
      BlockForm.interface?, Option.toList_some, List.map_append, List.map_cons, List.map_nil,
      knows.interfaces]
  | enhanced f => exact unchanged
  | simple f => exact unchanged
  | unknown f => exact unchanged

section Next

variable {block : Block} {w : Window}
  (fetched : r.window.fetch (Block.next r.order) = (.record block, w))
include fetched

theorem next_of_fetch :
    r.next =
      match r.packet? block with
      | some p => (⟨[], .packet p⟩, { r with window := w })
      | none =>
        (⟨(r.apply block).2 ++ (r.behind block w).next.1.events,
          (r.behind block w).next.1.reading⟩, (r.behind block w).next.2) := by
  have settled : ({ r with window := w } : Reader).apply block =
      (r.behind block w, (r.apply block).2) := by
    cases block <;> rfl
  rw [next]
  split
  · rename_i found
    rw [fetched] at found
    cases found
    dsimp only
    rw [settled]
    cases r.packet? block <;> rfl
  · rename_i found
    rw [fetched] at found
    cases found
  · rename_i found
    rw [fetched] at found
    cases found

theorem next_of_packet {p : Packet} (packet : r.packet? block = some p) :
    r.next.1.reading = .packet p ∧ r.next.2 = r.behind block w := by
  rw [next_of_fetch fetched, packet]
  cases block with
  | enhanced id high low captured data => exact ⟨rfl, rfl⟩
  | simple onWire data => exact ⟨rfl, rfl⟩
  | _ => cases packet

theorem next_of_other (other : r.packet? block = none) :
    r.next.1.reading = (r.behind block w).next.1.reading ∧
      r.next.2 = (r.behind block w).next.2 := by
  rw [next_of_fetch fetched, other]
  exact ⟨rfl, rfl⟩

end Next

theorem readings_step {octets rest : Bytes} {block : Block}
    (recognizes : Recognizes (Block.next r.order) octets block) (some : octets ≠ [])
    (fits : octets.length < Window.capacity) (honest : r.window.Honest)
    (ahead : r.window.ahead = octets ++ rest) :
    ∃ w : Window, w.ahead = rest ∧ w.Honest ∧
      (Source.sections r).readings =
        (r.packet? block).toList.map .packet ++ (Source.sections (r.behind block w)).readings := by
  obtain ⟨w, fetched, left, honest⟩ := Window.fetch_of_recognizes recognizes some fits honest ahead
  refine ⟨w, left, honest, ?_⟩
  cases packet : r.packet? block with
  | some p =>
    obtain ⟨reading, behind⟩ := next_of_packet fetched packet
    have first : (Source.sections r).next.1.reading = .packet p := reading
    have rest : (Source.sections r).next.2 = .sections (r.behind block w) :=
      congrArg Source.sections behind
    rw [Source.readings_of_packet first, rest]
    rfl
  | none =>
    obtain ⟨reading, behind⟩ := next_of_other fetched packet
    exact Source.readings_congr reading (congrArg Source.sections behind)

end Sections.Reader

namespace SectionForm

variable (s : SectionForm) {before after : List BlockForm}

theorem packetAt?_length {b : BlockForm} (blocks : s.blocks = before ++ b :: after) :
    s.packetAt? before.length = b.packet? (before.filterMap BlockForm.interface?) := by
  have here : s.blocks[before.length]? = some b := by
    rw [blocks, List.getElem?_append_right (Nat.le_refl _), Nat.sub_self]
    rfl
  rw [packetAt?, here, interfacesBefore, blocks, List.take_left]
  rfl

theorem filterMap_range' (place count : Nat) :
    (List.range' place (count + 1)).filterMap s.packetAt? =
      (s.packetAt? place).toList ++ (List.range' (place + 1) count).filterMap s.packetAt? := by
  rw [List.range'_succ, List.filterMap_cons]
  cases s.packetAt? place <;> rfl

theorem readings_blocks (blocks : s.blocks = before ++ after) {r : Sections.Reader} {rest : Bytes}
    (knows : r.Knows s.order (before.filterMap BlockForm.interface?)) (honest : r.window.Honest)
    (ahead : r.window.ahead = after.flatMap (BlockForm.octets s.order) ++ rest) :
    ∃ behind : Sections.Reader, behind.window.ahead = rest ∧ behind.window.Honest ∧
      (Source.sections r).readings =
        ((List.range' before.length after.length).filterMap s.packetAt?).map .packet ++
          (Source.sections behind).readings := by
  induction after generalizing before r with
  | nil => exact ⟨r, ahead, honest, rfl⟩
  | cons b after ih =>
    have recognizes : Recognizes (Block.next r.order) (b.octets s.order) b.block := by
      rw [knows.order]
      exact b.recognizes s.order
    have fits : (b.octets s.order).length < Window.capacity := by
      rw [BlockForm.octets, Block.length_frame]
      exact (b.framed s.order).fits
    rw [List.flatMap_cons, List.append_assoc] at ahead
    obtain ⟨w, left, honest, step⟩ :=
      Sections.Reader.readings_step recognizes Block.frame_ne_nil fits honest ahead
    have onward : s.blocks = before ++ [b] ++ after := by
      rw [blocks, List.append_assoc]
      rfl
    have known : (r.behind b.block w).Knows s.order
        ((before ++ [b]).filterMap BlockForm.interface?) := by
      have described := knows.behind b w
      rw [List.filterMap_append]
      cases kind : b.interface? <;> simpa [kind] using described
    obtain ⟨behind, left, honest, readings⟩ := ih onward known honest left
    refine ⟨behind, left, honest, ?_⟩
    rw [step, readings, knows.packet?_eq, List.length_cons, filterMap_range',
      packetAt?_length s blocks, List.map_append, List.append_assoc, List.length_append]
    rfl

theorem readings_section {r : Sections.Reader} {rest : Bytes} (honest : r.window.Honest)
    (ahead : r.window.ahead = s.octets ++ rest) :
    ∃ behind : Sections.Reader, behind.window.ahead = rest ∧ behind.window.Honest ∧
      (Source.sections r).readings =
        s.packets.map .packet ++ (Source.sections behind).readings := by
  have fits : (Block.header s.order s.tail).length < Window.capacity := by
    rw [Block.header, Block.length_frame]
    exact s.framed.fits
  rw [octets, List.append_assoc] at ahead
  obtain ⟨w, left, honest, step⟩ := Sections.Reader.readings_step
    (Block.recognizes_next_section s.framed r.order) Block.frame_ne_nil fits honest ahead
  have known : (r.behind (.section s.order) w).Knows s.order
      (([] : List BlockForm).filterMap BlockForm.interface?) := ⟨rfl, rfl⟩
  have all : s.blocks = [] ++ s.blocks := rfl
  obtain ⟨behind, left, honest, readings⟩ := s.readings_blocks all known honest left
  refine ⟨behind, left, honest, ?_⟩
  rw [step, readings, packets, List.range_eq_range']
  rfl

end SectionForm

theorem Source.readings_flatMap (sections : List SectionForm) {r : Sections.Reader}
    (honest : r.window.Honest) (ahead : r.window.ahead = sections.flatMap SectionForm.octets) :
    (Source.sections r).readings =
      (sections.flatMap SectionForm.packets).map .packet ++ [.finished] := by
  induction sections generalizing r with
  | nil => exact Source.readings_of_nil ahead
  | cons s sections ih =>
    rw [List.flatMap_cons] at ahead
    obtain ⟨behind, left, honest, readings⟩ := s.readings_section honest ahead
    rw [readings, ih honest left, List.flatMap_cons, List.map_append, List.append_assoc]

theorem Source.open?_section (s : SectionForm) (rest : Bytes) :
    Source.open? (s.octets ++ rest) =
      .ok (.sections { window := Window.ofFile (s.octets ++ rest) }) := by
  have begins : Block.header s.order s.tail <+: s.octets ++ rest := by
    rw [SectionForm.octets, List.append_assoc]
    exact List.prefix_append _ _
  have length : (Block.header s.order s.tail).length ≤ (s.octets ++ rest).length :=
    begins.length_le
  have fits : (Block.header s.order s.tail).length < Window.capacity := by
    rw [Block.header, Block.length_frame]
    exact s.framed.fits
  have least : 12 ≤ (Block.header s.order s.tail).length := by
    rw [Block.header, Block.length_frame]
    omega
  have magic : (s.octets ++ rest).take 4 = sectionMagic := by
    have word : (s.order.octets 4 Block.Kind.sectionHeader) = sectionMagic := by
      cases s.order <;> rfl
    rw [SectionForm.octets, Block.header, Block.frame]
    simp only [List.append_assoc]
    rw [← word]
    exact List.take_left' (ByteOrder.length_octets _ _ _)
  have loaded : (Block.header s.order s.tail).length ≤
      (Window.ofFile (s.octets ++ rest)).loaded := by
    change _ ≤ min (s.octets ++ rest).length Window.capacity
    omega
  obtain ⟨found, parsed, -⟩ := (Block.recognizes_sectionHeader s.framed).whole
    (Window.ofFile (s.octets ++ rest)) begins loaded
  unfold Source.open?
  rw [if_neg (by omega), if_pos magic, Sections.Reader.open, parsed]

/-- A file of well-formed sections is opened, and gives the packets of its blocks in the order of
the file, each with the settings described before it in its section, and then the end. -/
theorem Source.readings_of_sections (first : SectionForm) (others : List SectionForm) :
    ∃ source, Source.open? ((first :: others).flatMap SectionForm.octets) = .ok source ∧
      source.readings =
        ((first :: others).flatMap SectionForm.packets).map .packet ++ [.finished] :=
  ⟨_, Source.open?_section first _,
    Source.readings_flatMap (first :: others) (Window.honest_ofFile _) rfl⟩

end PacketLayers
