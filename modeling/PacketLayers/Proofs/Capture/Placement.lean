import PacketLayers.Proofs.Capture.Opening

/-!
Where the data of packets stand in a file. Every piece with a packet holds the data between octets
of its own, at least 16 from the data of one packet to the next, and pieces follow one another. So
the data are slices of the file at advancing places with gaps between them, also in a file that is
not well-formed.
-/
namespace PacketLayers

/-- Octets with the data of packets in them, one after the other: the first behind so many octets
at least, and each other one behind 16 more. -/
inductive Spaced : Nat → Bytes → List Packet → Prop where
  | nil {due : Nat} {octets : Bytes} : Spaced due octets []
  | cons {due : Nat} {gap octets : Bytes} {p : Packet} {ps : List Packet}
      (long : due ≤ gap.length) (rest : Spaced 16 octets ps) :
      Spaced due (gap ++ (p.data ++ octets)) (p :: ps)

namespace Spaced

variable {due : Nat} {octets : Bytes} {packets : List Packet}

theorem behind (spaced : Spaced due octets packets) (gap : Bytes) :
    Spaced (gap.length + due) (gap ++ octets) packets := by
  cases spaced with
  | nil => exact .nil
  | cons long rest =>
    rw [← List.append_assoc]
    apply Spaced.cons _ rest
    rw [List.length_append]
    omega

theorem mono (spaced : Spaced due octets packets) {less : Nat} (le : less ≤ due) :
    Spaced less octets packets := by
  cases spaced with
  | nil => exact .nil
  | cons long rest => exact .cons (Nat.le_trans le long) rest

theorem of_place {p : Packet} {start size margin : Nat} (late : due ≤ start)
    (inside : start + p.data.length + margin ≤ size) (whole : size ≤ octets.length)
    (enough : margin ≤ 16) (data : p.data <+: octets.drop start)
    (rest : Spaced (16 - margin) (octets.drop size) packets) :
    Spaced due octets (p :: packets) := by
  obtain ⟨tail, follows⟩ := data
  have long : tail.length = octets.length - start - p.data.length := by
    have length := congrArg List.length follows
    rw [List.length_append, List.length_drop] at length
    omega
  have last : octets.drop size = tail.drop (size - start - p.data.length) := by
    have place : size = start + (p.data.length + (size - start - p.data.length)) := by omega
    rw [place, ← List.drop_drop, ← follows, List.drop_length_add_append, ← place]
  have all : octets = octets.take start ++ (p.data ++
      (tail.take (size - start - p.data.length) ++ octets.drop size)) := by
    rw [last, List.take_append_drop, follows, List.take_append_drop]
  have gap : (octets.take start).length = start := List.length_take_of_le (by omega)
  have margins : (tail.take (size - start - p.data.length)).length =
      size - start - p.data.length := List.length_take_of_le (by omega)
  rw [all]
  apply Spaced.cons
  · rw [gap]
    exact late
  · apply (rest.behind _).mono
    rw [margins]
    omega

theorem total_le (spaced : Spaced due octets packets) (enough : 16 ≤ due) :
    16 * packets.length + (packets.flatMap Packet.data).length ≤ octets.length := by
  induction spaced with
  | nil => exact Nat.zero_le _
  | cons long rest ih =>
    have rest := ih (Nat.le_refl 16)
    simp only [List.length_cons, List.flatMap_cons, List.length_append]
    omega

def shifted (first step : Nat) (offset : Nat → Nat) : Nat → Nat
  | 0 => first
  | i + 1 => step + offset i

theorem exists_offset (spaced : Spaced due octets packets) :
    ∃ offset : Nat → Nat,
      (∀ i p, packets[i]? = some p → due ≤ offset i ∧ offset i + p.data.length ≤ octets.length ∧
        octets.slice (offset i) p.data.length = p.data) ∧
      ∀ i p q, packets[i]? = some p → packets[i + 1]? = some q →
        offset i + p.data.length + 16 ≤ offset (i + 1) := by
  -- The places of the later packets were counted from behind the first one.
  induction spaced with
  | nil => exact ⟨id, nofun, nofun⟩
  | @cons due gap octets p ps long rest ih =>
    obtain ⟨offset, slices, apart⟩ := ih
    have start : gap.length + p.data.length ≤ (gap ++ (p.data ++ octets)).length := by
      simp only [List.length_append]
      omega
    refine ⟨shifted gap.length (gap.length + p.data.length) offset, ?_, ?_⟩
    · intro i q found
      cases i with
      | zero =>
        cases found
        refine ⟨long, start, ?_⟩
        rw [shifted, Bytes.slice, List.drop_left, List.take_left]
      | succ i =>
        obtain ⟨late, inside, slice⟩ := slices i q found
        rw [shifted]
        refine ⟨?_, ?_, ?_⟩
        · omega
        · simp only [List.length_append]
          omega
        · rw [Bytes.slice, ← List.append_assoc, ← List.length_append, List.drop_length_add_append]
          exact slice
    · intro i q r found next
      rw [shifted]
      cases i with
      | zero =>
        cases found
        obtain ⟨late, -, -⟩ := slices 0 r next
        rw [shifted]
        omega
      | succ i =>
        have later := apart i q r found next
        rw [shifted]
        omega

end Spaced

namespace Block

variable {order : ByteOrder} {kind : Nat} {content : Bytes} {agreed : Bool}

/-- Where in a content the octets stand that a block stores. -/
def StoredIn (kind : Nat) (content : Bytes) : Block → Prop
  | enhanced _ _ _ _ data => kind = Kind.enhancedPacket ∧ data <+: content.drop 20
  | simple _ data => kind = Kind.simplePacket ∧ data = content.drop 4
  | _ => True

def Yields (P : Block → Prop) (found : Except Stop Block) : Prop :=
  ∀ block, found = .ok block → P block

section Yields

variable {P : Block → Prop}

theorem yields_ok {block : Block} (holds : P block) : Yields P (.ok block) := by
  intro found same
  rwa [← Except.ok.inj same]

theorem yields_error {stop : Stop} : Yields P (.error stop) := nofun

theorem yields_ite {condition : Prop} [Decidable condition] {found orElse : Except Stop Block}
    (yes : condition → Yields P found) (no : ¬ condition → Yields P orElse) :
    Yields P (if condition then found else orElse) := by
  by_cases holds : condition
  · rw [if_pos holds]
    exact yes holds
  · rw [if_neg holds]
    exact no holds

theorem yields_agreed {block : Block} (holds : P block) {unread : Bytes} :
    Yields P (if agreed then .ok block else .error (.refused (.inconsistent unread))) :=
  yields_ite (fun _ => yields_ok holds) fun _ => yields_error

end Yields

theorem yields_ofContent {P : Block → Prop}
    (interface : ∀ linkType resolution snapLength, P (.interface linkType resolution snapLength))
    (simple : kind = Kind.simplePacket → ∀ onWire, P (.simple onWire (content.drop 4)))
    (enhanced : kind = Kind.enhancedPacket → ∀ id high low captured data,
      data <+: content.drop 20 → P (.enhanced id high low captured data))
    (other : P .other) : Yields P (ofContent order kind content agreed) := by
  have passed {unread : Bytes} : Yields P
      (if agreed then .ok Block.other else .error (.refused (.inconsistent unread))) :=
    yields_agreed other
  unfold ofContent
  dsimp only
  -- On the kinds, in the order in which they are asked for.
  apply yields_ite
  · intro _
    exact yields_agreed (interface _ _ _)
  intro _
  apply yields_ite
  · intro same
    exact yields_ok (simple same _)
  intro _
  apply yields_ite
  · intro same
    refine yields_ite (fun _ => yields_error) fun _ => ?_
    refine yields_ite (fun _ => yields_error) fun _ => ?_
    exact yields_agreed (enhanced same _ _ _ _ _ (List.take_prefix _ _))
  intro _
  apply yields_ite
  · intro names
    cases Block.names order content with
    | ok _ => exact passed
    | error _ => exact yields_error
  intro _
  refine yields_ite (fun _ => passed) fun _ => ?_
  apply yields_ite
  · intro secrets
    refine yields_ite (fun _ => yields_error) fun _ => ?_
    exact yields_ite (fun _ => yields_error) fun _ => passed
  intro _
  refine yields_ite (fun _ => passed) fun _ => ?_
  apply yields_ite
  · intro information
    exact yields_ite (fun _ => yields_error) fun _ => passed
  intro _
  exact yields_ok other

theorem storedIn_ofContent :
    Yields (StoredIn kind content) (ofContent order kind content agreed) := by
  apply yields_ofContent
  · intro _ _ _
    trivial
  · intro same onWire
    exact ⟨same, rfl⟩
  · intro same id high low captured data inside
    exact ⟨same, inside⟩
  · trivial

variable {w : Window} {e : Extent Block} {p : Packet}

theorem place_of_content {size skipped : Nat} {data : Bytes}
    (stored : data <+: (w.peek 8 size).drop skipped) :
    data.length ≤ size - skipped ∧ data <+: w.ahead.drop (8 + skipped) := by
  have content : (w.peek 8 size).drop skipped =
      (w.ahead.drop (8 + skipped)).take (size - skipped) := by
    rw [Window.peek, Bytes.slice, List.drop_take, List.drop_drop]
  rw [content] at stored
  constructor
  · exact Nat.le_trans stored.length_le (List.length_take_le _ _)
  · exact stored.trans (List.take_prefix _ _)

theorem place_of_found (found : Found order kind w e) (r : Sections.Reader)
    (packet : r.packet? e.value = some p) :
    ∃ start, 12 ≤ start ∧ start + p.data.length + 4 ≤ e.size ∧ p.data <+: w.ahead.drop start := by
  have long := found.long
  have size := found.size
  have holds := found.holds
  unfold held at holds
  split at holds
  · rw [← Except.ok.inj holds] at packet
    cases packet
  · have stored := storedIn_ofContent _ holds
    generalize e.value = block at packet stored
    cases block with
    | enhanced id high low captured data =>
      have part : p.data <+: data := by
        cases packet
        exact List.take_prefix _ _
      obtain ⟨rfl, inside⟩ := stored
      obtain ⟨fits, place⟩ := place_of_content (part.trans inside)
      have least : 32 ≤ announced order w := long
      exact ⟨28, by decide, by omega, place⟩
    | simple onWire data =>
      have part : p.data <+: data := by
        cases packet
        exact List.take_prefix _ _
      obtain ⟨rfl, rfl⟩ := stored
      obtain ⟨fits, place⟩ := place_of_content part
      have least : 16 ≤ announced order w := long
      exact ⟨12, by decide, by omega, place⟩
    | _ => cases packet

theorem found_of_sectionHeader (parsed : sectionHeader w = .ok e) :
    ∃ order, Found order Kind.sectionHeader w e := by
  unfold sectionHeader at parsed
  split at parsed
  · cases parsed
  · split at parsed
    · exact ⟨_, framed_eq_ok_iff.mp parsed⟩
    · cases parsed

theorem found_of_next (parsed : next order w = .ok e) : ∃ order kind, Found order kind w e := by
  unfold next at parsed
  split at parsed
  · cases parsed
  · dsimp only at parsed
    split at parsed
    · obtain ⟨own, found⟩ := found_of_sectionHeader parsed
      exact ⟨own, _, found⟩
    · exact ⟨_, _, framed_eq_ok_iff.mp parsed⟩

end Block

namespace Settings

def trailer : Settings → Nat
  | legacy _ _ => 0
  | sections _ _ => 4

theorem trailer_le (c : Settings) : c.trailer ≤ 16 := by
  cases c with
  | legacy dialect linkType => exact Nat.zero_le _
  | sections order interfaces => exact (by decide : 4 ≤ 16)

variable {c behind : Settings} {w rest : Window} {e : Extent Piece} {p : Packet}

theorem trailer_behind (parsed : c.piece w = .ok e) : e.value.settings.trailer = c.trailer := by
  cases c with
  | legacy dialect linkType =>
    obtain ⟨record, -, rfl⟩ := Window.parsed_of_mapped parsed
    rfl
  | sections order interfaces =>
    obtain ⟨block, -, rfl⟩ := Window.parsed_of_mapped parsed
    rfl

theorem place_of_piece (usable : c.Usable) (parsed : c.piece w = .ok e)
    (packet : e.value.packet? = some p) :
    ∃ start, 16 - c.trailer ≤ start ∧ start + p.data.length + c.trailer ≤ e.size ∧
      p.data <+: w.ahead.drop start := by
  cases c with
  | legacy dialect linkType =>
    have words : 16 ≤ dialect.recordHeader := Legacy.Dialect.Usable.words usable
    obtain ⟨record, found, rfl⟩ := Window.parsed_of_mapped parsed
    obtain ⟨whole, value, size⟩ := Legacy.Dialect.whole_of_record usable found
    have present := Nat.le_trans whole w.loaded_le_ahead
    have length := Legacy.Dialect.length_recordOf present
    cases packet
    refine ⟨dialect.recordHeader, words, ?_, ?_⟩
    · change dialect.recordHeader + record.value.data.length + 0 ≤ record.size
      rw [value, size]
      omega
    · change record.value.data <+: _
      rw [value]
      exact List.take_prefix _ _
  | sections order interfaces =>
    obtain ⟨block, found, rfl⟩ := Window.parsed_of_mapped parsed
    obtain ⟨_, _, found⟩ := Block.found_of_next found
    exact Block.place_of_found found _ packet

theorem Call.spaced {reading : Reading} (call : Call c w reading behind rest) (usable : c.Usable)
    (packet : reading = .packet p) {packets : List Packet}
    (others : Spaced (16 - behind.trailer) rest.ahead packets) :
    Spaced (16 - c.trailer) w.ahead (p :: packets) := by
  induction call with
  | packet fetched =>
    cases packet
    obtain ⟨full, e, same, parsed, value, rfl⟩ := Window.parsed_of_fetch fetched
    have whole := Nat.le_trans ((steady_piece usable).inside full e parsed) full.loaded_le_ahead
    have trailer := trailer_behind parsed
    obtain ⟨start, late, inside, data⟩ := place_of_piece usable parsed (by rw [value])
    rw [value] at trailer
    rw [← same]
    exact .of_place late inside whole (trailer_le _) data (trailer ▸ others)
  | other fetched onward ih =>
    obtain ⟨full, e, same, parsed, value, rfl⟩ := Window.parsed_of_fetch fetched
    have trailer := trailer_behind parsed
    rw [value] at trailer
    have onward := ih (usable_of_fetch usable fetched) packet others
    have spaced := onward.behind (full.ahead.take e.size)
    rw [← same, ← List.take_append_drop e.size full.ahead, ← trailer]
    exact spaced.mono (Nat.le_add_left _ _)
  | ended => cases packet
  | failed => cases packet

theorem spaced_packets (usable : c.Usable) :
    Spaced (16 - c.trailer) w.ahead (c.source w).packets := by
  generalize given : (c.source w).packets = packets
  induction packets generalizing c w with
  | nil => exact .nil
  | cons p packets ih =>
    obtain ⟨first, others⟩ := Source.next_of_packets given
    obtain ⟨behind, rest, call, next⟩ := call_next c w
    rw [next] at others
    exact call.spaced usable first (ih (call.usable usable) others)

end Settings

namespace Source

variable {file : Bytes} {s : Source}

theorem first_of_open {r : Sections.Reader} (opened : open? file = .ok (.sections r)) :
    ∃ (order : ByteOrder) (size : Nat), 12 ≤ size ∧ size ≤ file.length ∧
      (Window.ofFile file).fetch (Settings.sections .little #[]).piece =
        (.record ⟨none, .sections order #[]⟩, (Window.ofFile file).consume size) := by
  obtain ⟨-, magic, e, header⟩ := sections_of_open opened
  obtain ⟨order, found⟩ := Block.found_of_sectionHeader header
  have least : 28 ≤ (Window.ofFile file).loaded := found.least
  have bound := (Window.ofFile file).loaded_le_ahead
  have size := found.size
  have inside := found.inside
  have holds : e.value = .section order := (Except.ok.inj found.holds).symm
  have kind : (Window.ofFile file).peek 0 4 = sectionMagic := magic
  have parsed : Block.next .little (Window.ofFile file) = .ok e := by
    unfold Block.next
    rw [if_neg (by omega), kind]
    exact header
  have piece : (Settings.sections .little #[]).piece (Window.ofFile file) =
      .ok (e.map (Settings.ofBlock ⟨.little, #[], .ofLoaded []⟩)) := Window.mapped_of_ok parsed
  refine ⟨order, e.size, by omega, ?_, ?_⟩
  · change e.size ≤ (Window.ofFile file).ahead.length
    omega
  · rw [Window.fetch_of_parsed (by omega) piece, Extent.map, holds]
    rfl

theorem spaced_of_open (opened : open? file = .ok s) : Spaced 16 file s.packets := by
  obtain ⟨usable, lead, same⟩ := settings_of_open opened
  rw [same]
  cases s with
  | legacy r =>
    have spaced := Settings.spaced_packets usable (w := (Window.ofFile file).consume 24)
    have all := spaced.behind (file.take 24)
    rw [show ((Window.ofFile file).consume 24).ahead = file.drop 24 from rfl,
      List.take_append_drop] at all
    exact all.mono (Nat.le_add_left _ _)
  | sections r =>
    obtain ⟨rfl, -, -⟩ := sections_of_open opened
    obtain ⟨order, size, least, inside, fetched⟩ := first_of_open opened
    obtain ⟨reading, next⟩ := Settings.next_of_other fetched
    have spaced := (Settings.spaced_packets (c := .sections order #[])
      (w := (Window.ofFile file).consume size) trivial).behind (file.take size)
    rw [show ((Window.ofFile file).consume size).ahead = file.drop size from rfl,
      List.take_append_drop, List.length_take_of_le inside] at spaced
    change Spaced 16 file ((Settings.sections .little #[]).source (Window.ofFile file)).packets
    rw [packets, readings_congr reading next]
    apply spaced.mono
    change 16 ≤ size + 12
    omega

/-- Places in a file where the data stand that the calls give. -/
structure Slices (file : Bytes) (s : Source) (offset : Nat → Nat) : Prop where
  late : ∀ {i p}, s.reading i = .packet p → 16 ≤ offset i
  inside : ∀ {i p}, s.reading i = .packet p → offset i + p.data.length ≤ file.length
  slice_eq : ∀ {i p}, s.reading i = .packet p → file.slice (offset i) p.data.length = p.data
  apart : ∀ {i p q}, s.reading i = .packet p → s.reading (i + 1) = .packet q →
    offset i + p.data.length + 16 ≤ offset (i + 1)

/-- The packets that the calls give are slices of the file, the first behind 16 octets at least and
each other one 16 octets behind the one before. A loop over a memory gives the same, whatever the
memory held before, so nothing that is left over in it gets into a packet. -/
theorem slices_of_open (opened : open? file = .ok s) :
    (∃ offset, Slices file s offset) ∧
      16 * s.packets.length + (s.packets.flatMap Packet.data).length ≤ file.length ∧
      Looped file s := by
  have spaced := spaced_of_open opened
  refine ⟨?_, spaced.total_le (Nat.le_refl _), looped_of_open opened⟩
  obtain ⟨offset, slices, apart⟩ := spaced.exists_offset
  simp only [← reading_eq_packet_iff] at slices apart
  refine ⟨offset, ?_, ?_, ?_, ?_⟩
  · intro i p given
    exact (slices i p given).1
  · intro i p given
    exact (slices i p given).2.1
  · intro i p given
    exact (slices i p given).2.2
  · intro i p q given next
    exact apart i p q given next

theorem slices_of_open_plainFile :
    open? Legacy.plainFile = .ok (.legacy Legacy.plainFileReader) ∧
      (Source.legacy Legacy.plainFileReader).packets =
        Legacy.plainRecords.map (·.packet LinkType.ethernet) ∧
      (∃ offset, Slices Legacy.plainFile (.legacy Legacy.plainFileReader) offset) ∧
      Looped Legacy.plainFile (.legacy Legacy.plainFileReader) := by
  obtain ⟨slices, -, looped⟩ := slices_of_open Legacy.open?_plainFile
  exact ⟨Legacy.open?_plainFile, Legacy.packets_plainFile, slices, looped⟩

/-- Every call ends, in a number of turns that the size of the file bounds. Each packet takes up 16
octets of the file at least, and behind the packets the same end or error is given for ever. -/
theorem calls_end (opened : open? file = .ok s) :
    Looped file s ∧ s.packets.length ≤ file.length / 16 ∧
      ∃ last : Reading, (∀ p, last ≠ .packet p) ∧
        ∀ i, s.reading i = (s.packets[i]?.map .packet).getD last := by
  have total := (spaced_of_open opened).total_le (Nat.le_refl _)
  exact ⟨looped_of_open opened, by omega, s.reading_eq⟩

theorem calls_end_plainFile :
    open? Legacy.plainFile = .ok (.legacy Legacy.plainFileReader) ∧
      (Source.legacy Legacy.plainFileReader).packets.length ≤ 3 ∧
      ∃ i, ∀ p, (Source.legacy Legacy.plainFileReader).reading i ≠ .packet p := by
  obtain ⟨-, few, last, other, readings⟩ := calls_end Legacy.open?_plainFile
  refine ⟨Legacy.open?_plainFile, few, 3, ?_⟩
  intro p
  have behind : (Source.legacy Legacy.plainFileReader).packets[3]? = none :=
    List.getElem?_eq_none few
  rw [readings, behind]
  exact other p

end Source

end PacketLayers
