import PacketLayers.Proofs.Protocol.Layout
import PacketLayers.Proofs.Protocol.Refresh

namespace PacketLayers

open Wire

def Field.Reading.written (f : Field) : Field.Reading → Bytes
  | .number n => f.encode n
  | .flag b => f.encode b.toNat
  | .octets bs => bs
  | .dotted bs => bs

/-- The values that bits can hold, of the kind that their getter gives. -/
inductive Wire.Bits.Takes : Bits → Field.Reading → Prop
  | number {name : String} {width n : Nat} (small : n < 2 ^ width) :
    Takes ⟨name, width, .number⟩ (.number n)
  | octets {name : String} {width : Nat} {bs : Bytes} (sized : 8 * bs.length = width) :
    Takes ⟨name, width, .octets⟩ (.octets bs)
  | dotted {name : String} {width : Nat} {bs : Bytes} (sized : 8 * bs.length = width) :
    Takes ⟨name, width, .dotted⟩ (.dotted bs)

/-- A call of a setter with a value of its type. -/
structure Layer.Setting (l : Layer) where
  word : Word
  bits : Bits
  value : Field.Reading
  listed : word ∈ l.words
  whole : word.bits = [bits]
  settable : (bits.name, word.field) ∈ l.format.settable
  takes : bits.Takes value

namespace Layer

namespace Setting

variable {l : Layer}

abbrev field (s : l.Setting) : Field := s.word.field

def data (s : l.Setting) : Bytes := s.value.written s.field

def edit (s : l.Setting) : Draft.Edit := .set s.field s.data

def settled (f : Field) (before : Bytes) (settings : List l.Setting) : Bytes :=
  settings.foldl (fun held s => if s.field = f then s.data else held) before

theorem exists_of_settable {name : String} {f : Field} (mem : (name, f) ∈ l.format.settable) :
    ∃ b : Bits, b.name = name ∧ b.width = 8 * f.width ∧
      (b.kind = .number ∨ b.kind = .octets ∨ b.kind = .dotted) ∧
      ∀ v, b.Takes v → ∃ s : l.Setting, s.bits = b ∧ s.field = f ∧ s.value = v := by
  obtain ⟨w, listed, rfl, names, kinds⟩ :=
    l.describes.settable (name, f) mem
  obtain ⟨b, bits, rfl⟩ : ∃ b, w.bits = [b] ∧ b.name = name := by
    obtain ⟨b, bits, same⟩ := List.map_eq_singleton_iff.mp names
    exact ⟨b, bits, same⟩
  have width := l.describes.width w listed
  rw [bits] at width
  obtain ⟨noFlag, noReserved⟩ := kinds b (bits ▸ List.mem_singleton_self b)
  refine ⟨b, rfl, width, ?_, fun v takes => ⟨⟨w, b, v, listed, bits, mem, takes⟩, rfl, rfl, rfl⟩⟩
  cases kind : b.kind with
  | number => exact .inl rfl
  | octets => exact .inr (.inl rfl)
  | dotted => exact .inr (.inr rfl)
  | flag => exact absurd kind noFlag
  | reserved => exact absurd kind noReserved

theorem inside (s : l.Setting) : s.field.offset + s.field.width ≤ l.format.headerLength :=
  (l.tiles.inside s.listed).2

theorem width_bits (s : l.Setting) : s.bits.width = 8 * s.field.width := by
  have width := l.describes.width s.word s.listed
  rw [s.whole] at width
  exact width

theorem length_data (s : l.Setting) : s.data.length = s.field.width := by
  have width := s.width_bits
  obtain ⟨word, bits, value, listed, whole, settable, takes⟩ := s
  cases takes with
  | number small => exact Bytes.length_toBig _ _
  | octets sized =>
    simp only [data, field, Field.Reading.written] at width ⊢
    omega
  | dotted sized =>
    simp only [data, field, Field.Reading.written] at width ⊢
    omega

theorem shown_data (s : l.Setting) : s.bits.shown (Bytes.ofBig s.data) = some s.value := by
  have width := s.width_bits
  have length := s.length_data
  obtain ⟨word, bits, value, listed, whole, settable, takes⟩ := s
  cases takes with
  | @number _ bitWidth n small =>
    simp only [field] at width
    subst width
    have read : Bytes.ofBig (Bytes.toBig word.field.width n) = n := by
      rw [Bytes.ofBig_toBig, span_eq, Nat.mod_eq_of_lt small]
    exact congrArg (fun n => some (Field.Reading.number n)) read
  | @octets _ bitWidth bs sized =>
    have count : bitWidth / 8 = bs.length := by omega
    simp only [Bits.shown, data, Field.Reading.written, count, Bytes.toBig_ofBig]
  | @dotted _ bitWidth bs sized =>
    have count : bitWidth / 8 = bs.length := by omega
    simp only [Bits.shown, data, Field.Reading.written, count, Bytes.toBig_ofBig]

theorem eq_of_field {s : l.Setting} {w : Word} (listed : w ∈ l.words) (same : s.field = w.field) :
    w = s.word := by
  have positive : ∀ v ∈ l.words, 0 < v.field.width := by cases l <;> decide
  have width := positive w listed
  rcases l.tiles.apart s.listed listed with equal | before | behind
  · exact equal.symm
  · simp only [field] at same
    rw [same] at before
    omega
  · simp only [field] at same
    rw [same] at behind
    omega

theorem lookup_eq (s : l.Setting) {h : Bytes} (length : h.length = l.format.headerLength)
    (held : s.field.octets h = s.data) :
    (l.format.readings h).lookup s.bits.name = some s.value := by
  have shows := l.shows length s.word s.listed
  have small : s.field.value h < 2 ^ s.bits.width := by
    rw [s.width_bits]
    exact value_lt (length ▸ s.inside)
  rw [s.whole] at shows
  rw [shows.whole small, Field.value, held, s.shown_data]

/-! ### What counts of a run -/

theorem settled_never {f : Field} (before : Bytes) {settings : List l.Setting}
    (never : ∀ s ∈ settings, s.field ≠ f) : settled f before settings = before := by
  induction settings with
  | nil => rfl
  | cons s rest ih =>
    rw [settled, List.foldl_cons, if_neg (never s List.mem_cons_self)]
    exact ih fun t mem => never t (List.mem_cons_of_mem s mem)

theorem settled_last {f : Field} (before : Bytes) (earlier : List l.Setting) {s : l.Setting}
    {later : List l.Setting} (here : s.field = f) (never : ∀ t ∈ later, t.field ≠ f) :
    settled f before (earlier ++ s :: later) = s.data := by
  rw [settled, List.foldl_append, List.foldl_cons, if_pos here]
  exact settled_never s.data never

theorem settled_swap (f : Field) (before : Bytes) (earlier later : List l.Setting)
    {s t : l.Setting} (apart : s.field ≠ t.field) :
    settled f before (earlier ++ s :: t :: later) =
      settled f before (earlier ++ t :: s :: later) := by
  simp only [settled, List.foldl_append, List.foldl_cons]
  congr 1
  split
  · rename_i second
    rw [if_neg fun first => apart (first.trans second.symm)]
  · rfl

end Setting

end Layer

namespace Draft

variable {l : Layer} {d : Draft}

theorem buffer_setting (format : d.format = l.format) (s : l.Setting) :
    s.field.offset + s.data.length ≤ d.buffer.length ∧
      (d.edit s.edit).buffer = d.buffer.overwrite s.field.offset s.data := by
  have fits := d.fits
  have inside := s.inside
  have length := s.length_data
  rw [format] at fits
  have room : s.field.offset + s.data.length ≤ d.buffer.length := by omega
  exact ⟨room, d.buffer_write room⟩

theorem length_header (format : d.format = l.format) : d.header.length = l.format.headerLength :=
  format ▸ List.length_take_of_le d.fits

theorem octets_header (format : d.format = l.format) {w : Word} (listed : w ∈ l.words) :
    w.field.octets d.header = w.field.octets d.buffer := by
  rw [header, format]
  exact Bytes.slice_take (l.tiles.inside listed).2

theorem octets_setting (format : d.format = l.format) (s : l.Setting) {w : Word}
    (listed : w ∈ l.words) :
    w.field.octets (d.edit s.edit).header =
      if s.field = w.field then s.data else w.field.octets d.header := by
  obtain ⟨room, buffer⟩ := buffer_setting format s
  rw [octets_header ((d.format_edit _).trans format) listed, octets_header format listed, buffer]
  split
  · rename_i same
    rw [← same, Field.octets, ← s.length_data]
    exact Bytes.slice_overwrite_here room
  · rename_i other
    have length := s.length_data
    refine Bytes.slice_overwrite room ?_
    rcases l.tiles.apart s.listed listed with equal | before | behind
    · exact absurd (congrArg Word.field equal) other
    · exact .inr (length ▸ before)
    · exact .inl behind

theorem body_setting (format : d.format = l.format) (s : l.Setting) :
    (d.edit s.edit).body = d.body := by
  obtain ⟨room, buffer⟩ := buffer_setting format s
  have inside := s.inside
  have length := s.length_data
  rw [body, body, d.format_edit, buffer, format]
  exact Bytes.drop_overwrite room (by omega)

/-! ### Runs -/

def setAll (d : Draft) (settings : List l.Setting) : Draft :=
  d.edited (settings.map Layer.Setting.edit)

theorem format_setAll (format : d.format = l.format) (settings : List l.Setting) :
    (d.setAll settings).format = l.format := (d.format_edited _).trans format

theorem octets_setAll (format : d.format = l.format) (settings : List l.Setting) {w : Word}
    (listed : w ∈ l.words) :
    w.field.octets (d.setAll settings).header =
      Layer.Setting.settled w.field (w.field.octets d.header) settings := by
  induction settings generalizing d with
  | nil => rfl
  | cons s rest ih =>
    rw [Layer.Setting.settled, List.foldl_cons, ← octets_setting format s listed]
    exact ih ((d.format_edit _).trans format)

theorem body_setAll (format : d.format = l.format) (settings : List l.Setting) :
    (d.setAll settings).body = d.body := by
  induction settings generalizing d with
  | nil => rfl
  | cons s rest ih =>
    exact (ih ((d.format_edit _).trans format)).trans (body_setting format s)

theorem getElem?_setAll (format : d.format = l.format) {settings : List l.Setting} {i : Nat}
    (outside : ∀ s ∈ settings, i < s.field.offset ∨ s.field.offset + s.field.width ≤ i) :
    (d.setAll settings).buffer[i]? = d.buffer[i]? := by
  induction settings generalizing d with
  | nil => rfl
  | cons s rest ih =>
    have here : (d.edit s.edit).buffer[i]? = d.buffer[i]? := by
      refine (d.leaves_edit s.edit).outside i ?_
      rw [Layer.Setting.edit, Edit.place, Edit.data, s.length_data]
      exact outside s List.mem_cons_self
    exact (ih ((d.format_edit _).trans format) fun t mem =>
      outside t (List.mem_cons_of_mem s mem)).trans here

theorem eq_of_words {e : Draft} (format : d.format = l.format) (format' : e.format = l.format)
    (words : ∀ w ∈ l.words, w.field.octets d.header = w.field.octets e.header)
    (body : d.body = e.body) : d = e := by
  have row {c : Draft} (format : c.format = l.format) :
      (l.words.flatMap fun w => w.field.octets c.header) = c.header :=
    Tiles.flatMap_octets (length_header format ▸ l.tiles)
  have header : d.header = e.header := by
    rw [← row format, ← row format', List.flatMap_congr words]
  refine eq_of (format.trans format'.symm) ?_
  rw [← d.header_append_body, ← e.header_append_body, header, body]

/-- Setters called one after the other. The getter of a field gives what was set last for the
field, and getters of fields that were never set give what they gave. Octets outside of the fields
that were set stay, and so does the length. Calls for different fields may change places. -/
theorem readings_of_settings (format : d.format = l.format) (settings : List l.Setting) :
    let after := d.setAll settings
    after.format = l.format ∧ after.buffer.length = d.buffer.length ∧
      (∀ earlier s later, settings = earlier ++ s :: later → (∀ t ∈ later, t.field ≠ s.field) →
        (l.format.readings after.header).lookup s.bits.name = some s.value) ∧
      (∀ name, (∀ s ∈ settings, name ∉ s.word.names) →
        (l.format.readings after.header).lookup name =
          (l.format.readings d.header).lookup name) ∧
      (∀ i, (∀ s ∈ settings, i < s.field.offset ∨ s.field.offset + s.field.width ≤ i) →
        after.buffer[i]? = d.buffer[i]?) ∧
      ∀ earlier s t later, settings = earlier ++ s :: t :: later → s.field ≠ t.field →
        after = d.setAll (earlier ++ t :: s :: later) := by
  intro after
  have after_format : after.format = l.format := format_setAll format settings
  refine ⟨after_format, d.length_edited _, ?_, ?_, fun i => getElem?_setAll format, ?_⟩
  · rintro earlier s later rfl never
    have octets := octets_setAll format (earlier ++ s :: later) s.listed
    rw [Layer.Setting.settled_last _ earlier rfl never] at octets
    exact s.lookup_eq (length_header after_format) octets
  · intro name unset
    by_cases read : ∃ w ∈ l.words, name ∈ w.names
    · obtain ⟨w, listed, named⟩ := read
      have never : ∀ s ∈ settings, s.field ≠ w.field := fun s mem same =>
        unset s mem (Layer.Setting.eq_of_field listed same ▸ named)
      have octets := octets_setAll format settings listed
      rw [Layer.Setting.settled_never _ never] at octets
      exact l.describes.lookup_eq (length_header after_format) (length_header format) listed octets
        named
    · have unread : ∀ w ∈ l.words, name ∉ w.names := fun w listed named => read ⟨w, listed, named⟩
      rw [l.describes.lookup_eq_none unread, l.describes.lookup_eq_none unread]
  · rintro earlier s t later rfl apart
    refine eq_of_words after_format (format_setAll format _) (fun w listed => ?_) ?_
    · rw [octets_setAll format _ listed, octets_setAll format _ listed,
        Layer.Setting.settled_swap _ _ _ _ apart]
    · rw [body_setAll format, body_setAll format]

section Rewritten

def ttlSetting (n : Nat) (small : n < 256) : Layer.Setting .ipv4 :=
  ⟨.number "ttl" Ipv4.ttl, ⟨"ttl", 8, .number⟩, .number n, by decide, rfl, by decide, .number small⟩

def sourceSetting (bs : Bytes) (length : 8 * bs.length = 32) : Layer.Setting .ipv4 :=
  ⟨.dotted "source" Ipv4.source, ⟨"source", 32, .dotted⟩, .dotted bs, by decide, rfl, by decide,
    .dotted length⟩

def unsetDraft : Draft := ⟨Ipv4.format, reservedHeader ++ [1, 2, 3], by decide⟩

/-- A time to live that is set twice, around the source. -/
theorem readings_of_settings_rewritten :
    let first := ttlSetting 1 (by decide)
    let source := sourceSetting [127, 0, 0, 1] rfl
    let last := ttlSetting 63 (by decide)
    let after := unsetDraft.setAll [first, source, last]
    let readings := Ipv4.format.readings after.header
    readings.lookup "ttl" = some (.number 63) ∧
      readings.lookup "source" = some (.dotted [127, 0, 0, 1]) ∧
      readings.lookup "fragment_offset" = some (.number 0x1FFE) ∧
      after.buffer[6]? = some 0xFF ∧ after = unsetDraft.setAll [source, first, last] := by
  intro first source last
  obtain ⟨-, -, set, unset, outside, swapped⟩ :=
    readings_of_settings (l := .ipv4) (d := unsetDraft) rfl [first, source, last]
  exact ⟨set [first, source] last [] rfl (by decide), set [first] source [last] rfl (by decide),
    unset "fragment_offset" (by decide), outside 6 (by decide),
    swapped [] first source [last] rfl (by decide)⟩

end Rewritten

end Draft

end PacketLayers
