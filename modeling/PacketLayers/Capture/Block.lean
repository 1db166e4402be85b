import PacketLayers.Capture.Window

/-!
The blocks of a PCAPNG file. A block is framed by its type and its length, which is written
before and after the content; the content is parsed by type. Blocks that carry neither packets
nor settings are parsed as far as they can be wrong, and then passed over.
-/
namespace PacketLayers

inductive Block where
  | section (order : ByteOrder)
  | interface (linkType resolution snapLength : Nat)
  | enhanced (interface high low captured : Nat) (data : Bytes)
  | simple (onWire : Nat) (data : Bytes)
  | other
deriving DecidableEq, Repr

namespace Block

def padded (n : Nat) : Nat := (n + 3) / 4 * 4

/-- Lengths from here on cannot be padded within 32 bits. -/
def unpaddable : Nat := UInt32.size - 5

namespace Kind

def sectionHeader : Nat := 0x0A0D0D0A
def interface : Nat := 1
def simplePacket : Nat := 3
def nameResolution : Nat := 4
def statistics : Nat := 5
def enhancedPacket : Nat := 6
def secrets : Nat := 10
def custom : Nat := 0x0BAD
def customLocal : Nat := 0x40000BAD
def processInformation : Nat := 0x80000001

end Kind

def minimum (kind : Nat) : Nat :=
  if kind = Kind.sectionHeader then 28
  else if kind = Kind.interface then 20
  else if kind = Kind.simplePacket then 16
  else if kind = Kind.enhancedPacket then 32
  else if kind = Kind.statistics then 24
  else if kind = Kind.secrets then 20
  else if kind = Kind.custom ∨ kind = Kind.customLocal then 16
  else if kind = Kind.processInformation then 4
  else 12

/-- The options of a block, in order. The first one that does not fit ends them. -/
def options (order : ByteOrder) : Bytes → List (Nat × Bytes)
  | c₀ :: c₁ :: l₀ :: l₁ :: rest =>
    let size := padded (order.value [l₀, l₁])
    let value := rest.take size
    if value.length = size then (order.value [c₀, c₁], value) :: options order (rest.drop size)
    else []
  | _ => []
termination_by bs => bs.length
decreasing_by
  simp only [List.length_drop, List.length_cons]
  omega

/-- The time resolution that options declare; the last one counts, and six is the default. -/
def resolution (opts : List (Nat × Bytes)) : Nat :=
  opts.foldl (fun last opt =>
    match opt with
    | (9, code :: _) => code.toNat
    | _ => last) 6

/-- Passes over name records up to the four zero octets that end them. -/
def names (order : ByteOrder) : Bytes → Except Stop Unit
  | t₀ :: t₁ :: l₀ :: l₁ :: rest =>
    if [t₀, t₁, l₀, l₁] = [0, 0, 0, 0] then .ok ()
    else
      let size := padded (order.value [l₀, l₁])
      if (rest.take size).length = size then names order (rest.drop size)
      else .error (.needs (size - rest.length))
  | [b] => .error (.needs (if b = 0 then 3 else 1))
  | short => .error (.needs (4 - short.length))
termination_by bs => bs.length
decreasing_by
  simp only [List.length_drop, List.length_cons]
  omega

/-- The block that a kind's content holds. `lengthsAgree` says whether the two lengths are equal;
packets without interface, sections and all kinds that are not named do not ask. -/
def ofContent (order : ByteOrder) (kind : Nat) (content : Bytes) (lengthsAgree : Bool) :
    Except Stop Block :=
  let word (start : Nat) : Nat := order.value (content.slice start 4)
  let agreed (unread : Bytes) (block : Block) : Except Stop Block :=
    if lengthsAgree then .ok block else .error (.refused (.inconsistent unread))
  if kind = Kind.interface then
    agreed [] (.interface (order.value (content.slice 0 2))
      (resolution (options order (content.drop 8))) (word 4))
  else if kind = Kind.simplePacket then .ok (.simple (word 0) (content.drop 4))
  else if kind = Kind.enhancedPacket then
    let captured := word 12
    if unpaddable ≤ captured then .error (.refused (.inconsistent content))
    else
      let data := (content.drop 20).take (padded captured)
      if data.length < padded captured then .error (.needs (padded captured - data.length))
      else agreed [] (.enhanced (word 0) (word 4) (word 8) captured data)
  else if kind = Kind.nameResolution then
    match names order content with
    | .ok () => agreed [] .other
    | .error stop => .error stop
  else if kind = Kind.statistics then agreed [] .other
  else if kind = Kind.secrets then
    let size := word 4
    if unpaddable ≤ size then .error (.refused (.inconsistent (content.drop 8)))
    else if content.length - 8 < padded size then
      .error (.needs (padded size - (content.length - 8)))
    else agreed [] .other
  else if kind = Kind.custom ∨ kind = Kind.customLocal then agreed (content.drop 4) .other
  else if kind = Kind.processInformation then
    if content.length < 4 then .error (.needs (4 - content.length)) else agreed [] .other
  else .ok .other

def framed (order : ByteOrder) (kind : Nat) (w : Window) : Except Stop (Extent Block) :=
  if w.loaded < minimum kind then .error (.needs (minimum kind - w.loaded))
  else if w.loaded < 8 then .error (.needs (8 - w.loaded))
  else
    let length := order.value (w.peek 4 4)
    if length < minimum kind then .error (.refused (.inconsistent (w.unread 8)))
    else
      let size := length - 12
      if w.loaded < 8 + size then .error (.needs (8 + size - w.loaded))
      else if w.loaded < 12 + size then .error (.needs (12 + size - w.loaded))
      else
        let again := order.value (w.peek (8 + size) 4)
        let block := if kind = Kind.sectionHeader then .ok (.section order)
          else ofContent order kind (w.peek 8 size) (length == again)
        match block with
        | .ok block => .ok ⟨block, 12 + size, by omega⟩
        | .error stop => .error stop

def sectionOrder? (w : Window) : Option ByteOrder :=
  let magic := Bytes.ofLittle (w.peek 8 4)
  if magic = 0x1A2B3C4D then some .little
  else if magic = 0x4D3C2B1A then some .big
  else none

def sectionHeader (w : Window) : Except Stop (Extent Block) :=
  if w.loaded < 12 then .error (.needs (12 - w.loaded))
  else
    match sectionOrder? w with
    | some order => framed order Kind.sectionHeader w
    | none => .error (.refused .unrecognized)

/-- The block at the front of a window, in a section of the given byte order. -/
def next (order : ByteOrder) (w : Window) : Except Stop (Extent Block) :=
  if w.loaded < 4 then .error (.needs (4 - w.loaded))
  else
    let kind := order.value (w.peek 0 4)
    if kind = Kind.sectionHeader then sectionHeader w else framed order kind w

end Block

end PacketLayers
