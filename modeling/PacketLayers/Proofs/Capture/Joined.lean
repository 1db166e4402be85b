import PacketLayers.Proofs.Capture.Placement

/-!
Captures of sections behind one another. A block shorter than the window is found wherever the
loads have cut it, and a section header ends what was known of the sections before it. So a file
gives the same packets alone and behind another one.
-/
namespace PacketLayers

theorem Recognizes.map {α β : Type} {parse : Window → Except Stop (Extent α)} {octets : Bytes}
    {value : α} (recognizes : Recognizes parse octets value) (f : α → β) :
    Recognizes (Window.mapped f parse) octets (f value) where
  short w begins less := by
    obtain ⟨missing, asks, bound⟩ := recognizes.short w begins less
    exact ⟨missing, Window.mapped_of_error asks, bound⟩
  whole w begins loaded := by
    obtain ⟨found, parsed, rfl, size⟩ := recognizes.whole w begins loaded
    exact ⟨found.map f, Window.mapped_of_ok parsed, rfl, size⟩

namespace Block

/-- The byte order of the block that octets begin with; a section header tells its own. -/
def orderOf (order : ByteOrder) (octets : Bytes) : ByteOrder :=
  if order.value (octets.slice 0 4) = Kind.sectionHeader then
    (sectionOrder? (.ofLoaded octets)).getD order
  else order

/-- The sizes of the blocks that octets are divided into, as their lengths tell. -/
def sizes (order : ByteOrder) (octets : Bytes) : List Nat :=
  if octets.length < 12 then []
  else
    let order := orderOf order octets
    let size := 12 + (order.value (octets.slice 4 4) - 12)
    size :: sizes order (octets.drop size)
termination_by octets.length
decreasing_by
  rw [List.length_drop]
  omega

variable {order : ByteOrder} {kind : Nat} {w v : Window} {e : Extent Block}

theorem Found.size_le (found : Found order kind w e) : 12 ≤ e.size ∧ e.size ≤ w.ahead.length := by
  have size := found.size
  have inside := found.inside
  have bound := w.loaded_le_ahead
  constructor <;> omega

theorem length_take_size (found : Found order kind w e) :
    (w.ahead.take e.size).length = e.size := by
  rw [List.length_take, Nat.min_eq_left found.size_le.2]

theorem peek_of_take (inside : e.size ≤ w.ahead.length) (begins : w.ahead.take e.size <+: v.ahead)
    {start count : Nat} (within : start + count ≤ e.size) :
    v.peek start count = w.peek start count := by
  have length : (w.ahead.take e.size).length = e.size := by
    rw [List.length_take, Nat.min_eq_left inside]
  rw [Window.peek_of_prefix begins (by omega),
    Window.peek_of_prefix (List.take_prefix e.size w.ahead) (by omega)]

theorem Found.recognizes (found : Found order kind w e) :
    Recognizes (framed order kind) (w.ahead.take e.size) e.value := by
  obtain ⟨least, inside⟩ := found.size_le
  have long := found.long
  have size := found.size
  have length := length_take_size found
  have announced {v : Window} (begins : w.ahead.take e.size <+: v.ahead) :
      announced order v = announced order w :=
    congrArg order.value (peek_of_take inside begins (by omega))
  -- What is less than the block makes every check of the length ask for more.
  constructor
  · intro v begins less
    rw [framed_eq, announced begins]
    by_cases few : v.loaded < minimum kind
    · exact ⟨_, if_pos few, by omega⟩
    · rw [if_neg few]
      by_cases head : v.loaded < 8
      · exact ⟨_, if_pos head, by omega⟩
      · unfold conclude
        rw [if_neg head, if_neg (by omega)]
        by_cases part : v.loaded < 8 + (Block.announced order w - 12)
        · exact ⟨_, if_pos part, by omega⟩
        · rw [if_neg part]
          exact ⟨_, if_pos (by omega), by omega⟩
  · intro v begins loaded
    have same := announced begins
    refine ⟨e, framed_eq_ok_iff.mpr ?_, rfl, length.symm⟩
    constructor
    · omega
    · omega
    · omega
    · omega
    · omega
    · rw [same, ← found.holds]
      apply held_congr
      intro start count within
      exact peek_of_take inside begins (by omega)

theorem sectionHeader_eq_ok (parsed : sectionHeader w = .ok e) :
    ∃ own, sectionOrder? w = some own ∧ Found own Kind.sectionHeader w e := by
  unfold sectionHeader at parsed
  split at parsed
  · cases parsed
  · split at parsed
    · rename_i own told
      exact ⟨own, told, framed_eq_ok_iff.mp parsed⟩
    · cases parsed

theorem recognizes_of_sectionHeader (parsed : sectionHeader w = .ok e) :
    Recognizes sectionHeader (w.ahead.take e.size) e.value := by
  obtain ⟨own, told, found⟩ := sectionHeader_eq_ok parsed
  obtain ⟨least, inside⟩ := found.size_le
  refine found.recognizes.after_head 12 ?_ ?_ ?_
  · rw [length_take_size found]
    exact least
  · intro v few
    exact if_pos few
  · intro v begins enough
    have same : sectionOrder? v = some own := by
      rw [← told]
      unfold sectionOrder?
      rw [peek_of_take inside begins (by omega)]
    unfold sectionHeader
    rw [if_neg enough, same]

theorem found_of_next_in (parsed : next order w = .ok e) :
    Found (orderOf order w.ahead) (order.value (w.peek 0 4)) w e := by
  unfold next at parsed
  split at parsed
  · cases parsed
  · dsimp only at parsed
    split at parsed
    · rename_i header
      obtain ⟨own, told, found⟩ := sectionHeader_eq_ok parsed
      have order : orderOf order w.ahead = own := by
        refine (if_pos header).trans ?_
        exact congrArg (·.getD order) told
      rw [order, header]
      exact found
    · rename_i plain
      have order : orderOf order w.ahead = order := if_neg plain
      rw [order]
      exact framed_eq_ok_iff.mp parsed

theorem recognizes_of_next (parsed : next order w = .ok e) :
    Recognizes (next order) (w.ahead.take e.size) e.value := by
  have found := found_of_next_in parsed
  obtain ⟨least, inside⟩ := found.size_le
  have length := length_take_size found
  have kind {v : Window} (begins : w.ahead.take e.size <+: v.ahead) :
      order.value (v.peek 0 4) = order.value (w.peek 0 4) :=
    congrArg order.value (peek_of_take inside begins (by omega))
  have few (v : Window) (less : v.loaded < 4) : next order v = .error (.needs (4 - v.loaded)) :=
    if_pos less
  unfold next at parsed
  split at parsed
  · cases parsed
  · dsimp only at parsed
    split at parsed
    · rename_i header
      refine (recognizes_of_sectionHeader parsed).after_head 4 (by omega) few ?_
      intro v begins enough
      unfold next
      rw [if_neg enough, kind begins]
      exact if_pos header
    · rename_i plain
      refine (framed_eq_ok_iff.mp parsed).recognizes.after_head 4 (by omega) few ?_
      intro v begins enough
      unfold next
      rw [if_neg enough, kind begins]
      exact if_neg plain

theorem sizes_of_next (parsed : next order w = .ok e) :
    sizes order w.ahead = e.size :: sizes (orderOf order w.ahead) (w.ahead.drop e.size) := by
  have found := found_of_next_in parsed
  obtain ⟨least, inside⟩ := found.size_le
  have size : e.size = 12 + ((orderOf order w.ahead).value (w.ahead.slice 4 4) - 12) := found.size
  rw [sizes, if_neg (by omega)]
  simp only [← size]

theorem order_of_next (parsed : next order w = .ok e) (interfaces : Array Interface) :
    (Sections.Reader.apply ⟨order, interfaces, v⟩ e.value).1.order = orderOf order w.ahead := by
  have holds := (found_of_next_in parsed).holds
  unfold held at holds
  split at holds
  · rw [← Except.ok.inj holds]
    rfl
  · rename_i plain
    have other : ∀ own, e.value ≠ .section own := by
      refine yields_ofContent (P := fun block => ∀ own, block ≠ .section own) ?_ ?_ ?_ ?_ _ holds
      · intro _ _ _ own same
        cases same
      · intro _ _ own same
        cases same
      · intro _ _ _ _ _ _ _ own same
        cases same
      · intro own same
        cases same
    have same : orderOf order w.ahead = order := if_neg plain
    rw [same]
    match block : e.value with
    | .section own => exact absurd block (other own)
    | .interface .. => rfl
    | .enhanced .. => rfl
    | .simple .. => rfl
    | .other => rfl

theorem sizes_of_recognizes {octets : Bytes} {block : Block} (rest : Bytes)
    (recognizes : Recognizes (next order) octets block) :
    sizes order (octets ++ rest) = octets.length ::
      sizes (Sections.Reader.apply ⟨order, #[], .ofLoaded []⟩ block).1.order rest := by
  obtain ⟨e, parsed, rfl, size⟩ := recognizes.whole (.ofLoaded (octets ++ rest))
    (List.prefix_append _ _) (by simp)
  have sizes := sizes_of_next parsed
  rw [← order_of_next parsed #[] (v := .ofLoaded []), size] at sizes
  rw [Window.ahead_ofLoaded, List.drop_left] at sizes
  exact sizes

end Block

theorem BlockForm.sizes_lt (order : ByteOrder) (blocks : List BlockForm) {rest : Bytes}
    (short : ∀ n ∈ Block.sizes order rest, n < Window.capacity) :
    ∀ n ∈ Block.sizes order (blocks.flatMap (octets order) ++ rest), n < Window.capacity := by
  induction blocks with
  | nil => exact short
  | cons b blocks ih =>
    have fits := (b.framed order).fits
    have same : (Sections.Reader.apply ⟨order, #[], .ofLoaded []⟩ b.block).1.order = order := by
      cases b <;> rfl
    rw [List.flatMap_cons, List.append_assoc, Block.sizes_of_recognizes _ (b.recognizes order),
      same, octets, Block.length_frame]
    exact List.forall_mem_cons.mpr ⟨fits, ih⟩

theorem SectionForm.sizes_lt (sections : List SectionForm) (order : ByteOrder) :
    ∀ n ∈ Block.sizes order (sections.flatMap octets), n < Window.capacity := by
  induction sections generalizing order with
  | nil => simp [Block.sizes]
  | cons s sections ih =>
    have fits := s.framed.fits
    rw [List.flatMap_cons, octets, List.append_assoc,
      Block.sizes_of_recognizes _ (Block.recognizes_next_section s.framed order), Block.header,
      Block.length_frame]
    exact List.forall_mem_cons.mpr ⟨fits, BlockForm.sizes_lt _ _ (ih _)⟩

namespace Settings

variable {w v : Window} {more : Bytes}

theorem readings_step {c : Settings} {octets : Bytes} {size : Nat} {piece : Piece}
    (recognizes : Recognizes c.piece (octets.take size) piece) (some : 0 < size)
    (inside : size ≤ octets.length) (fits : size < Window.capacity) (honest : w.Honest)
    (ahead : w.ahead = octets ++ more) :
    ∃ rest : Window, rest.ahead = octets.drop size ++ more ∧ rest.Honest ∧
      (c.source w).readings =
        piece.packet?.toList.map .packet ++ (piece.settings.source rest).readings := by
  have taken : (octets.take size).length = size := by
    rw [List.length_take, Nat.min_eq_left inside]
  have division : w.ahead = octets.take size ++ (octets.drop size ++ more) := by
    rw [ahead, ← List.append_assoc, List.take_append_drop]
  obtain ⟨rest, fetched, left, honest⟩ := Window.fetch_of_recognizes recognizes
    (List.ne_nil_of_length_pos (by omega)) (by omega) honest division
  refine ⟨rest, left, honest, ?_⟩
  obtain ⟨packet?, settings⟩ := piece
  cases packet? with
  | some p =>
    obtain ⟨reading, next⟩ := next_of_packet fetched
    rw [Source.readings_of_packet reading, next]
    rfl
  | none =>
    obtain ⟨reading, next⟩ := next_of_other fetched
    exact Source.readings_congr reading next

theorem exists_later {first : Option Packet} {later : List Reading} {packets : List Packet}
    (all : first.toList.map .packet ++ later = packets.map .packet ++ [.finished]) :
    ∃ others, packets = first.toList ++ others ∧ later = others.map .packet ++ [.finished] := by
  cases first with
  | none => exact ⟨packets, rfl, all⟩
  | some p =>
    cases packets with
    | nil => cases all
    | cons q others =>
      obtain ⟨same, rest⟩ := List.cons.inj all
      cases same
      exact ⟨others, rfl, rest⟩

theorem readings_of_nil {c : Settings} (nothing : w.ahead = []) :
    (c.source w).readings = [.finished] := by
  apply Source.readings_of_nil
  cases c <;> exact nothing

theorem exists_block {order : ByteOrder} {interfaces : Array Interface} {piece : Piece}
    {behind : Window}
    (fetched : w.fetch (sections order interfaces).piece = (.record piece, behind)) :
    ∃ (size : Nat) (own : ByteOrder) (known : Array Interface), 12 ≤ size ∧
      size ≤ w.ahead.length ∧ piece.settings = sections own known ∧
      Block.sizes order w.ahead = size :: Block.sizes own (w.ahead.drop size) ∧
      Recognizes (sections order interfaces).piece (w.ahead.take size) piece := by
  obtain ⟨full, _, same, parsed, value, -⟩ := Window.parsed_of_fetch fetched
  obtain ⟨e, block, rfl⟩ := Window.parsed_of_mapped parsed
  have sizes := Block.sizes_of_next block
  have recognizes := (Block.recognizes_of_next block).map
    (ofBlock ⟨order, interfaces, .ofLoaded []⟩)
  obtain ⟨least, inside⟩ := (Block.found_of_next_in block).size_le
  rw [← Block.order_of_next block interfaces (v := .ofLoaded [])] at sizes
  rw [same] at sizes inside recognizes
  rw [← value]
  exact ⟨e.size, _, _, least, inside, rfl, sizes, recognizes⟩

/-- Octets that are read to their end, block by block, are read alike before more octets, whatever
is loaded of them. -/
theorem readings_longer {order : ByteOrder} {interfaces : Array Interface} {packets : List Packet}
    (honest : w.Honest) (honestLonger : v.Honest) (ahead : v.ahead = w.ahead ++ more)
    (short : ∀ n ∈ Block.sizes order w.ahead, n < Window.capacity)
    (readings : ((sections order interfaces).source w).readings =
      packets.map .packet ++ [.finished]) :
    ∃ (last : ByteOrder) (known : Array Interface) (rest : Window), rest.ahead = more ∧
      rest.Honest ∧ ((sections order interfaces).source v).readings =
        packets.map .packet ++ ((sections last known).source rest).readings := by
  -- Every block shortens what is ahead.
  generalize length : w.ahead.length = count
  induction count using Nat.strongRecOn generalizing order interfaces packets w v with
  | ind count ih =>
    match fetched : w.fetch (sections order interfaces).piece with
    | (.record ⟨packet?, _⟩, _) =>
      obtain ⟨size, own, known, least, inside, settings, sizes, recognizes⟩ := exists_block fetched
      cases settings
      rw [sizes] at short
      have fits := short size List.mem_cons_self
      obtain ⟨rest, left, honest, step⟩ := readings_step recognizes (by omega) inside fits honest
        (List.append_nil _).symm
      obtain ⟨restLonger, leftLonger, honestLonger, stepLonger⟩ :=
        readings_step recognizes (by omega) inside fits honestLonger ahead
      rw [List.append_nil] at left
      rw [step] at readings
      obtain ⟨others, rfl, later⟩ := exists_later readings
      have shorter : rest.ahead.length < count := by
        rw [left, List.length_drop]
        omega
      rw [← left] at leftLonger short
      obtain ⟨last, known, final, onward, honest, all⟩ := ih _ shorter honest honestLonger
        leftLonger (fun n member => short n (List.mem_cons_of_mem _ member)) later rfl
      refine ⟨last, known, final, onward, honest, ?_⟩
      rw [stepLonger, List.map_append, List.append_assoc]
      exact congrArg _ all
    | (.ended, _) =>
      have nothing := Window.nil_of_fetch honest fetched
      rw [readings_of_nil nothing] at readings
      cases packets with
      | nil =>
        rw [nothing] at ahead
        exact ⟨order, interfaces, v, ahead, honestLonger, rfl⟩
      | cons p packets => cases readings
    | (.failed e, _) =>
      have fails := (next_of_failed fetched).1
      rw [Source.readings_of_end (by simp [fails]), fails] at readings
      cases packets with
      | nil => cases readings
      | cons p packets => cases readings

end Settings

namespace Source

variable {file : Bytes} {r : Sections.Reader}

theorem next_of_open (opened : open? file = .ok (.sections r)) :
    ∃ (e : Extent Block) (own : ByteOrder), e.value = .section own ∧
      Block.sectionHeader (Window.ofFile file) = .ok e ∧
      ∀ order, Block.next order (Window.ofFile file) = .ok e := by
  obtain ⟨-, magic, e, header⟩ := sections_of_open opened
  obtain ⟨own, found⟩ := Block.found_of_sectionHeader header
  have loaded : 28 ≤ (Window.ofFile file).loaded := found.least
  have kind : (Window.ofFile file).peek 0 4 = sectionMagic := magic
  refine ⟨e, own, (Except.ok.inj found.holds).symm, header, ?_⟩
  intro order
  have value : order.value sectionMagic = Block.Kind.sectionHeader := by
    cases order <;> rfl
  unfold Block.next
  rw [if_neg (by omega), kind, value]
  exact header

theorem open?_joined (opened : open? file = .ok (.sections r)) (more : Bytes) :
    open? (file ++ more) = .ok (.sections { window := Window.ofFile (file ++ more) }) := by
  obtain ⟨-, magic, -⟩ := sections_of_open opened
  obtain ⟨e, -, -, header, -⟩ := next_of_open opened
  obtain ⟨own, found⟩ := Block.found_of_sectionHeader header
  obtain ⟨least, inside⟩ := found.size_le
  have loaded : e.size ≤ (Window.ofFile file).loaded := found.size ▸ found.inside
  have bound : (Window.ofFile file).loaded = min file.length Window.capacity := rfl
  have longer : (file ++ more).length = file.length + more.length := List.length_append
  have begins : file.take e.size <+: file ++ more :=
    (List.take_prefix _ _).trans (List.prefix_append _ _)
  have four : (file ++ more).take 4 = sectionMagic := by
    change e.size ≤ file.length at inside
    rw [List.take_append_of_le_length (by omega), magic]
  obtain ⟨again, parsed, -⟩ := (Block.recognizes_of_sectionHeader header).whole
    (Window.ofFile (file ++ more)) begins (by
      change (file.take e.size).length ≤ min (file ++ more).length Window.capacity
      rw [List.length_take]
      omega)
  unfold open?
  change e.size ≤ file.length at inside
  rw [if_neg (by omega), if_pos four, Sections.Reader.open, parsed]

theorem readings_of_header (opened : open? file = .ok (.sections r))
    (short : ∀ n ∈ Block.sizes .little file, n < Window.capacity) :
    ∃ (size : Nat) (own : ByteOrder),
      Block.sizes .little file = size :: Block.sizes own (file.drop size) ∧
        ∀ (order : ByteOrder) (interfaces : Array Interface) (w : Window), w.Honest →
          w.ahead = file → ∃ rest : Window, rest.ahead = file.drop size ∧ rest.Honest ∧
            ((Settings.sections order interfaces).source w).readings =
              ((Settings.sections own #[]).source rest).readings := by
  obtain ⟨e, own, value, -, parsed⟩ := next_of_open opened
  have sizes := Block.sizes_of_next (parsed .little)
  rw [← Block.order_of_next (parsed .little) #[] (v := .ofLoaded []), value] at sizes
  change Block.sizes .little file = e.size :: Block.sizes own (file.drop e.size) at sizes
  refine ⟨e.size, own, sizes, ?_⟩
  intro order interfaces w honest ahead
  rw [sizes] at short
  have fits := short e.size List.mem_cons_self
  obtain ⟨least, inside⟩ := (Block.found_of_next_in (parsed order)).size_le
  have recognizes := (Block.recognizes_of_next (parsed order)).map
    (Settings.ofBlock ⟨order, interfaces, .ofLoaded []⟩)
  rw [value] at recognizes
  obtain ⟨rest, left, honest, step⟩ := Settings.readings_step
    (c := .sections order interfaces) recognizes (by omega) inside fits honest
    (ahead.trans (List.append_nil _).symm)
  exact ⟨rest, left.trans (List.append_nil _), honest, step⟩

theorem readings_behind {packets : List Packet} (opened : open? file = .ok (.sections r))
    (readings : (sections r).readings = packets.map .packet ++ [.finished])
    (short : ∀ n ∈ Block.sizes .little file, n < Window.capacity) {w : Window} (honest : w.Honest)
    (ahead : w.ahead = file) (order : ByteOrder) (interfaces : Array Interface) :
    ((Settings.sections order interfaces).source w).readings =
      packets.map .packet ++ [.finished] := by
  obtain ⟨rfl, -, -⟩ := sections_of_open opened
  obtain ⟨size, own, sizes, header⟩ := readings_of_header opened short
  obtain ⟨alone, left, honestAlone, stepAlone⟩ :=
    header .little #[] (Window.ofFile file) (Window.honest_ofFile file) rfl
  obtain ⟨behind, leftBehind, honestBehind, step⟩ := header order interfaces w honest ahead
  have later : ((Settings.sections own #[]).source alone).readings =
      packets.map .packet ++ [.finished] := stepAlone.symm.trans readings
  rw [sizes] at short
  rw [← left] at short leftBehind
  obtain ⟨last, known, rest, nothing, -, all⟩ := Settings.readings_longer honestAlone honestBehind
    (leftBehind.trans (List.append_nil _).symm)
    (fun n member => short n (List.mem_cons_of_mem _ member)) later
  rw [Settings.readings_of_nil nothing] at all
  exact step.trans all

/-- Two files of sections that are read to their end: behind one another they are opened, and give
the packets of the first, those of the second, and then the end at every further call. -/
theorem reading_of_joined {first second : Bytes} {r s : Sections.Reader}
    {packets others : List Packet} (opened : open? first = .ok (.sections r))
    (openedSecond : open? second = .ok (.sections s))
    (readings : (sections r).readings = packets.map .packet ++ [.finished])
    (readingsSecond : (sections s).readings = others.map .packet ++ [.finished])
    (short : ∀ n ∈ Block.sizes .little first, n < Window.capacity)
    (shortSecond : ∀ n ∈ Block.sizes .little second, n < Window.capacity) :
    ∃ joined, open? (first ++ second) = .ok (.sections joined) ∧
      ∀ i, (sections joined).reading i =
        ((packets ++ others)[i]?.map .packet).getD .finished := by
  refine ⟨_, open?_joined opened second, ?_⟩
  obtain ⟨rfl, -, -⟩ := sections_of_open opened
  obtain ⟨last, known, rest, left, honest, all⟩ := Settings.readings_longer
    (Window.honest_ofFile first) (Window.honest_ofFile (first ++ second)) rfl short readings
  rw [readings_behind openedSecond readingsSecond shortSecond honest left, ← List.append_assoc,
    ← List.map_append] at all
  exact reading_of_readings_eq all

end Source

def SectionForm.raw : SectionForm where
  order := .big
  major := 1
  minor := 0
  length := 0xFFFFFFFFFFFFFFFF
  options := []
  blocks := [
    .interface {
      linkType := 101
      reserved := 0
      snapLength := 0
      resolution := some 9
      options := [⟨9, ⟨[9], [0, 0, 0], rfl⟩, by decide⟩]
      declared := rfl
      fits := by decide },
    .enhanced ⟨0, 0, 5, 3, ⟨[1, 2, 3], [0], rfl⟩, [], by decide⟩]
  fits := by decide

def SectionForm.bare : SectionForm where
  order := .little
  major := 1
  minor := 0
  length := 0xFFFFFFFFFFFFFFFF
  options := []
  blocks := [.enhanced ⟨0, 0, 5, 2, ⟨[4, 5], [0, 0], rfl⟩, [], by decide⟩]
  fits := by decide

/-- The first packet of the second file is not taken for one of the interface of the first. -/
theorem Source.reading_of_joined_bare :
    let first := SectionForm.raw.octets ++ []
    let second := SectionForm.bare.octets ++ []
    let one : Packet := ⟨some (unitsToSeconds 0 5 1000000000), 101, [1, 2, 3]⟩
    let two : Packet := ⟨some (unitsToSeconds 0 5 1000000), LinkType.ethernet, [4, 5]⟩
    let r : Sections.Reader := { window := .ofFile first }
    let s : Sections.Reader := { window := .ofFile second }
    open? first = .ok (.sections r) ∧ open? second = .ok (.sections s) ∧
      (sections r).readings = [.packet one, .finished] ∧
      (sections s).readings = [.packet two, .finished] ∧
      (∀ n ∈ Block.sizes .little first, n < Window.capacity) ∧
      (∀ n ∈ Block.sizes .little second, n < Window.capacity) ∧
      ∃ joined, open? (first ++ second) = .ok (.sections joined) ∧
        (sections joined).reading 0 = .packet one ∧ (sections joined).reading 1 = .packet two ∧
        (sections joined).reading 2 = .finished := by
  intro first second one two r s
  have opened : open? first = .ok (.sections r) := open?_section SectionForm.raw []
  have openedSecond : open? second = .ok (.sections s) := open?_section SectionForm.bare []
  have readings : (sections r).readings = [one].map .packet ++ [.finished] :=
    readings_flatMap [SectionForm.raw] (Window.honest_ofFile first) rfl
  have readingsSecond : (sections s).readings = [two].map .packet ++ [.finished] :=
    readings_flatMap [SectionForm.bare] (Window.honest_ofFile second) rfl
  have short := SectionForm.sizes_lt [SectionForm.raw] .little
  have shortSecond := SectionForm.sizes_lt [SectionForm.bare] .little
  obtain ⟨joined, openedJoined, all⟩ :=
    reading_of_joined opened openedSecond readings readingsSecond short shortSecond
  exact ⟨opened, openedSecond, readings, readingsSecond, short, shortSecond, joined, openedJoined,
    all 0, all 1, all 2⟩

end PacketLayers
