import PacketLayers.Proofs.Capture.Framing

namespace PacketLayers

structure Padded where
  value : Bytes
  filling : Bytes
  aligned : value.length + filling.length = Block.padded value.length

namespace Padded

def octets (p : Padded) : Bytes := p.value ++ p.filling

theorem length_octets (p : Padded) : p.octets.length = Block.padded p.value.length := by
  rw [octets, List.length_append, p.aligned]

theorem value_le (p : Padded) : p.value.length ≤ p.octets.length := by
  rw [octets, List.length_append]
  exact Nat.le_add_right _ _

end Padded

structure OptionForm where
  code : UInt16
  data : Padded
  short : data.value.length < UInt16.size

namespace OptionForm

def octets (order : ByteOrder) (o : OptionForm) : Bytes :=
  order.octets 2 o.code.toNat ++ (order.octets 2 o.data.value.length ++ o.data.octets)

def size (o : OptionForm) : Nat := 4 + o.data.octets.length

def sizes : List OptionForm → Nat
  | [] => 0
  | o :: os => o.size + sizes os

@[simp] theorem length_octets (order : ByteOrder) (o : OptionForm) :
    (o.octets order).length = o.size := by
  simp only [octets, size, List.length_append, ByteOrder.length_octets]
  omega

def resolutionCode : UInt16 := 9

end OptionForm

/-- An interface description. The resolution is declared at most once, in one octet; other options
may stand around it. -/
structure InterfaceForm where
  linkType : UInt16
  reserved : UInt16
  snapLength : UInt32
  resolution : Option UInt8
  options : List OptionForm
  declared : (options.filter (·.code == OptionForm.resolutionCode)).map (·.data.value) =
    resolution.toList.map fun code => [code]
  fits : 20 + OptionForm.sizes options < Window.capacity

structure EnhancedForm where
  interface : UInt32
  high : UInt32
  low : UInt32
  onWire : UInt32
  data : Padded
  options : Bytes
  fits : 32 + (data.octets.length + options.length) < Window.capacity

structure SimpleForm where
  onWire : UInt32
  stored : Bytes
  fits : 16 + stored.length < Window.capacity

/-- The kinds of blocks whose content is looked at. -/
def Block.Kind.known : List Nat :=
  [sectionHeader, interface, simplePacket, nameResolution, statistics, enhancedPacket, secrets,
    custom, customLocal, processInformation]

structure UnknownForm where
  kind : UInt32
  content : Bytes
  unknown : kind.toNat ∉ Block.Kind.known
  fits : 12 + content.length < Window.capacity

inductive BlockForm where
  | interface (f : InterfaceForm)
  | enhanced (f : EnhancedForm)
  | simple (f : SimpleForm)
  | unknown (f : UnknownForm)

namespace BlockForm

def kind : BlockForm → Nat
  | interface _ => Block.Kind.interface
  | enhanced _ => Block.Kind.enhancedPacket
  | simple _ => Block.Kind.simplePacket
  | unknown f => f.kind.toNat

def content (order : ByteOrder) : BlockForm → Bytes
  | interface f =>
    order.octets 2 f.linkType.toNat ++ (order.octets 2 f.reserved.toNat ++
      (order.octets 4 f.snapLength.toNat ++ f.options.flatMap (OptionForm.octets order)))
  | enhanced f =>
    order.octets 4 f.interface.toNat ++ (order.octets 4 f.high.toNat ++
      (order.octets 4 f.low.toNat ++ (order.octets 4 f.data.value.length ++
        (order.octets 4 f.onWire.toNat ++ (f.data.octets ++ f.options)))))
  | simple f => order.octets 4 f.onWire.toNat ++ f.stored
  | unknown f => f.content

def octets (order : ByteOrder) (b : BlockForm) : Bytes := Block.frame order b.kind (b.content order)

def block : BlockForm → Block
  | interface f =>
    .interface f.linkType.toNat ((f.resolution.map (·.toNat)).getD 6) f.snapLength.toNat
  | enhanced f =>
    .enhanced f.interface.toNat f.high.toNat f.low.toNat f.data.value.length f.data.octets
  | simple f => .simple f.onWire.toNat f.stored
  | unknown _ => .other

end BlockForm

section Options

variable (order : ByteOrder)

theorem Block.options_flatMap (os : List OptionForm) :
    options order (os.flatMap (OptionForm.octets order)) =
      os.map fun o => (o.code.toNat, o.data.octets) := by
  induction os with
  | nil => simp [options]
  | cons o os ih =>
    obtain ⟨c₀, c₁, code, codeValue⟩ := order.exists_octets_two o.code
    obtain ⟨l₀, l₁, size, sizeValue⟩ :=
      order.exists_octets_two (UInt16.ofNatLT o.data.value.length o.short)
    have length : (UInt16.ofNatLT o.data.value.length o.short).toNat = o.data.value.length := by
      simp
    rw [length] at size sizeValue
    have written : (o :: os).flatMap (OptionForm.octets order) =
        c₀ :: c₁ :: l₀ :: l₁ :: (o.data.octets ++ os.flatMap (OptionForm.octets order)) := by
      rw [List.flatMap_cons, OptionForm.octets, code, size]
      simp
    have taken : (o.data.octets ++ os.flatMap (OptionForm.octets order)).take
        (padded o.data.value.length) = o.data.octets := by
      rw [← o.data.length_octets, List.take_left]
    have left : (o.data.octets ++ os.flatMap (OptionForm.octets order)).drop
        (padded o.data.value.length) = os.flatMap (OptionForm.octets order) := by
      rw [← o.data.length_octets, List.drop_left]
    rw [written, options, sizeValue, codeValue, taken, left, if_pos o.data.length_octets, ih,
      List.map_cons]

theorem Block.length_flatMap (os : List OptionForm) :
    (os.flatMap (OptionForm.octets order)).length = OptionForm.sizes os := by
  induction os with
  | nil => rfl
  | cons o os ih => rw [List.flatMap_cons, List.length_append, ih, o.length_octets]; rfl

theorem Block.resolution_declared {os : List OptionForm} {resolution : Option UInt8}
    (declared : (os.filter (·.code == OptionForm.resolutionCode)).map (·.data.value) =
      resolution.toList.map fun code => [code]) :
    Block.resolution (os.map fun o => (o.code.toNat, o.data.octets)) =
      (resolution.map (·.toNat)).getD 6 := by
  unfold Block.resolution
  generalize 6 = last
  induction os generalizing last resolution with
  | nil =>
    cases resolution with
    | none => rfl
    | some code => cases declared
  | cons o os ih =>
    rw [List.map_cons, List.foldl_cons]
    by_cases here : o.code = OptionForm.resolutionCode
    · rw [List.filter_cons_of_pos (by simp [here]), List.map_cons] at declared
      cases resolution with
      | none => cases declared
      | some code =>
        obtain ⟨value, others⟩ := List.cons.inj declared
        have octets : o.data.octets = code :: o.data.filling := by
          rw [Padded.octets, value]
          rfl
        rw [here, octets]
        exact @ih none others code.toNat
    · rw [List.filter_cons_of_neg (by simp [here])] at declared
      have other : o.code.toNat ≠ 9 := fun same => here (UInt16.toNat_inj.mp same)
      rw [ih declared]
      split
      · rename_i same
        exact absurd (congrArg Prod.fst same) other
      · rfl

end Options

section Content

open ByteOrder

variable (order : ByteOrder)

theorem InterfaceForm.framed (f : InterfaceForm) :
    Block.Framed order (BlockForm.interface f).kind ((BlockForm.interface f).content order)
      (BlockForm.interface f).block := by
  have length : ((BlockForm.interface f).content order).length =
      8 + OptionForm.sizes f.options := by
    simp only [BlockForm.content, List.length_append, ByteOrder.length_octets,
      Block.length_flatMap]
    omega
  have fits := f.fits
  constructor
  · change Block.Kind.interface < UInt32.size
    decide
  · rw [length]
    change 20 ≤ _
    omega
  · rw [length]
    omega
  · change Block.ofContent order Block.Kind.interface _ true = _
    simp [Block.ofContent, BlockForm.content, slice_octets, slice_octets_append,
      drop_octets_append, Block.options_flatMap, Block.resolution_declared f.declared,
      BlockForm.block]

theorem EnhancedForm.framed (f : EnhancedForm) :
    Block.Framed order (BlockForm.enhanced f).kind ((BlockForm.enhanced f).content order)
      (BlockForm.enhanced f).block := by
  have length : ((BlockForm.enhanced f).content order).length =
      20 + (f.data.octets.length + f.options.length) := by
    simp only [BlockForm.content, List.length_append, ByteOrder.length_octets]
    omega
  have fits := f.fits
  have window : Window.capacity = 65536 := rfl
  have span : Bytes.span 4 = 0x100000000 := rfl
  have whole := f.data.value_le
  have captured : order.value (order.octets 4 f.data.value.length) = f.data.value.length :=
    order.value_octets_of_lt (by omega)
  have paddable : ¬ Block.unpaddable ≤ f.data.value.length := by
    change ¬ 0x100000000 - 5 ≤ _
    omega
  constructor
  · change Block.Kind.enhancedPacket < UInt32.size
    decide
  · rw [length]
    change 32 ≤ _
    omega
  · rw [length]
    omega
  · change Block.ofContent order Block.Kind.enhancedPacket _ true = _
    have stored : (f.data.octets ++ f.options).take (Block.padded f.data.value.length) =
        f.data.octets := by
      rw [← f.data.length_octets, List.take_left]
    simp [Block.ofContent, BlockForm.content, slice_octets, slice_octets_append,
      drop_octets_append, captured, paddable, stored, f.data.length_octets, BlockForm.block,
      Block.Kind.interface, Block.Kind.simplePacket, Block.Kind.enhancedPacket]

theorem SimpleForm.framed (f : SimpleForm) :
    Block.Framed order (BlockForm.simple f).kind ((BlockForm.simple f).content order)
      (BlockForm.simple f).block := by
  have length : ((BlockForm.simple f).content order).length = 4 + f.stored.length := by
    simp only [BlockForm.content, List.length_append, ByteOrder.length_octets]
  have fits := f.fits
  constructor
  · change Block.Kind.simplePacket < UInt32.size
    decide
  · rw [length]
    change 16 ≤ _
    omega
  · rw [length]
    omega
  · change Block.ofContent order Block.Kind.simplePacket _ true = _
    simp [Block.ofContent, BlockForm.content, slice_octets, BlockForm.block, Block.Kind.interface,
      Block.Kind.simplePacket]

theorem UnknownForm.framed (f : UnknownForm) :
    Block.Framed order (BlockForm.unknown f).kind ((BlockForm.unknown f).content order)
      (BlockForm.unknown f).block := by
  have fits := f.fits
  have unknown := f.unknown
  simp only [Block.Kind.known, List.mem_cons, List.not_mem_nil, or_false, not_or] at unknown
  constructor
  · exact f.kind.toNat_lt
  · change Block.minimum f.kind.toNat ≤ f.content.length + 12
    simp [Block.minimum, unknown]
  · change f.content.length + 12 < _
    omega
  · simp [Block.parsed, Block.ofContent, BlockForm.kind, unknown, BlockForm.block]

theorem BlockForm.framed (b : BlockForm) :
    Block.Framed order b.kind (b.content order) b.block := by
  cases b with
  | interface f => exact f.framed order
  | enhanced f => exact f.framed order
  | simple f => exact f.framed order
  | unknown f => exact f.framed order

theorem BlockForm.kind_ne (b : BlockForm) : b.kind ≠ Block.Kind.sectionHeader := by
  have known : Block.Kind.sectionHeader ∈ Block.Kind.known := by decide
  cases b with
  | interface f => exact Nat.ne_of_beq_eq_false rfl
  | enhanced f => exact Nat.ne_of_beq_eq_false rfl
  | simple f => exact Nat.ne_of_beq_eq_false rfl
  | unknown f =>
    intro same
    have kind : f.kind.toNat = Block.Kind.sectionHeader := same
    exact f.unknown (kind ▸ known)

theorem BlockForm.recognizes (b : BlockForm) :
    Recognizes (Block.next order) (b.octets order) b.block :=
  Block.recognizes_next (b.framed order) b.kind_ne

end Content

/-- A section: the byte order and other words of its header, with any options, and its blocks. -/
structure SectionForm where
  order : ByteOrder
  major : UInt16
  minor : UInt16
  length : UInt64
  options : Bytes
  blocks : List BlockForm
  fits : 28 + options.length < Window.capacity

namespace SectionForm

def tail (s : SectionForm) : Bytes :=
  s.order.octets 2 s.major.toNat ++ (s.order.octets 2 s.minor.toNat ++
    (s.order.octets 8 s.length.toNat ++ s.options))

def octets (s : SectionForm) : Bytes :=
  Block.header s.order s.tail ++ s.blocks.flatMap (BlockForm.octets s.order)

theorem framed (s : SectionForm) :
    Block.Framed s.order Block.Kind.sectionHeader (s.order.octets 4 Block.orderMagic ++ s.tail)
      (.section s.order) := by
  have length : (s.order.octets 4 Block.orderMagic ++ s.tail).length = 16 + s.options.length := by
    simp only [tail, List.length_append, ByteOrder.length_octets]
    omega
  have fits := s.fits
  constructor
  · decide
  · rw [length]
    change 28 ≤ _
    omega
  · rw [length]
    omega
  · rfl

end SectionForm

end PacketLayers
