import PacketLayers.Proofs.Capture.Loop

namespace PacketLayers

/-- How many octets of a file are consumed when it is opened. A section header is read again. -/
def Settings.lead : Settings → Nat
  | legacy _ _ => 24
  | sections _ _ => 0

theorem Settings.lead_le (c : Settings) : c.lead ≤ Window.capacity := by
  cases c with
  | legacy dialect linkType => exact (by decide : 24 ≤ Window.capacity)
  | sections order interfaces => exact Nat.zero_le _

namespace Source

def settings : Source → Settings
  | legacy r => .legacy r.dialect r.linkType
  | sections r => .sections r.order r.interfaces

variable {file : Bytes} {s : Source}

theorem sections_of_open {r : Sections.Reader} (opened : open? file = .ok (.sections r)) :
    r = { window := Window.ofFile file } ∧ file.take 4 = sectionMagic ∧
      ∃ e, Block.sectionHeader (Window.ofFile file) = .ok e := by
  unfold open? at opened
  split at opened
  · cases opened
  · split at opened
    · rename_i magic
      unfold Sections.Reader.open at opened
      cases header : Block.sectionHeader (Window.ofFile file) with
      | ok e =>
        simp only [header] at opened
        cases opened
        exact ⟨rfl, magic, e, rfl⟩
      | error stop =>
        cases stop <;> simp only [header] at opened <;> cases opened
    · split at opened <;> cases opened

theorem legacy_of_open {r : Legacy.Reader} (opened : open? file = .ok (.legacy r)) :
    r.dialect.Usable ∧ 24 ≤ file.length ∧ r.window = (Window.ofFile file).consume 24 ∧
      file.take 4 ≠ sectionMagic := by
  unfold open? at opened
  split at opened
  · cases opened
  · split at opened
    · split at opened <;> cases opened
    · rename_i other
      split at opened
      · rename_i found openedReader
        cases opened
        obtain ⟨usable, length, window, -⟩ := Legacy.Reader.open_append openedReader []
        exact ⟨usable, length, window, other⟩
      · cases opened

theorem settings_of_open (opened : open? file = .ok s) :
    s.settings.Usable ∧ s.settings.lead ≤ file.length ∧
      s = s.settings.source ((Window.ofFile file).consume s.settings.lead) := by
  cases s with
  | legacy r =>
    obtain ⟨usable, length, window, -⟩ := legacy_of_open opened
    refine ⟨usable, length, ?_⟩
    change _ = legacy ⟨r.dialect, r.linkType, (Window.ofFile file).consume 24⟩
    rw [← window]
  | sections r =>
    obtain ⟨rfl, -, -⟩ := sections_of_open opened
    exact ⟨trivial, Nat.zero_le _, rfl⟩

end Source

abbrev Memory := { octets : Bytes // octets.length = Window.capacity }

/-- The memory after the first read. It does not count as one that found no octets. -/
def Buffer.ofFile (memory : Memory) (file : Bytes) : Buffer :=
  let empty : Buffer :=
    { memory := memory.val
      start := 0
      stop := 0
      unread := file
      exhausted := false
      size_eq := memory.property
      start_le := Nat.le_refl _
      stop_le := Nat.zero_le _ }
  { empty.load with exhausted := false }

theorem Buffer.window_ofFile (memory : Memory) (file : Bytes) :
    (ofFile memory file).window = Window.ofFile file := by
  have content : (ofFile memory file).content = file.take Window.capacity := content_load _
  apply Window.eq_of
  · change (ofFile memory file).content ++ file.drop Window.capacity = file
    rw [content, List.take_append_drop]
  · change (ofFile memory file).content.length = min file.length Window.capacity
    rw [content, List.length_take, Nat.min_comm]
  · rfl

namespace Loop

/-- The loop at the first call, over a memory that held anything. -/
def start (memory : Memory) (file : Bytes) (c : Settings) : Loop :=
  ⟨c, (Buffer.ofFile memory file).consume c.lead⟩

theorem start_of_open {file : Bytes} {s : Source} (opened : Source.open? file = .ok s)
    (memory : Memory) :
    (start memory file s.settings).source = s ∧
      (start memory file s.settings).window.work ≤ 2 * file.length + 1 := by
  obtain ⟨-, lead, same⟩ := Source.settings_of_open opened
  have small := s.settings.lead_le
  have content : (Buffer.ofFile memory file).content = file.take Window.capacity :=
    Buffer.content_load _
  have window : (start memory file s.settings).window =
      (Window.ofFile file).consume s.settings.lead := by
    rw [← Buffer.window_ofFile memory file]
    apply Buffer.window_consume
    rw [content, List.length_take]
    omega
  constructor
  · rw [source, window]
    exact same.symm
  · rw [window]
    have ahead : ((Window.ofFile file).consume s.settings.lead).ahead.length =
        file.length - s.settings.lead := List.length_drop
    have live : ((Window.ofFile file).consume s.settings.lead).exhausted = false := rfl
    simp only [Window.work, Window.patience, ahead, live]
    simp only [Bool.false_eq_true, if_false]
    omega

end Loop

namespace Source

/-- Whatever memory the file is read into, the loop gives what the calls of the source give, and
none of its calls takes more turns than the size of the file allows. -/
def Looped (file : Bytes) (s : Source) : Prop :=
  ∀ (memory : Memory) (n : Nat), ∃ behind, (Loop.start memory file s.settings).Calls
    (2 * file.length + 2) ((List.range n).map s.reading) behind

theorem looped_of_open {file : Bytes} {s : Source} (opened : open? file = .ok s) :
    Looped file s := by
  intro memory n
  obtain ⟨usable, -, -⟩ := settings_of_open opened
  obtain ⟨same, work⟩ := Loop.start_of_open opened memory
  have bound : (Loop.start memory file s.settings).window.work < 2 * file.length + 2 := by omega
  have calls := Loop.exists_calls usable bound n
  rwa [same] at calls

end Source

namespace Legacy

def plainRecords : List (RecordForm plainReader.dialect) :=
  [plainRecord 4 (by decide), plainRecord 2 (by decide)]

def plainFile : Bytes := plainHeader ++ plainRecords.flatMap RecordForm.octets

def plainFileReader : Reader :=
  ⟨plainReader.dialect, LinkType.ethernet, (Window.ofFile plainFile).consume 24⟩

theorem open?_plainFile : Source.open? plainFile = .ok (.legacy plainFileReader) := rfl

theorem packets_plainFile :
    (Source.legacy plainFileReader).packets =
      plainRecords.map (·.packet LinkType.ethernet) := by
  have usable : plainReader.dialect.Usable := ⟨by decide, by decide⟩
  have room : Window.capacity - 24 < Window.capacity := by decide
  have short : ∀ f ∈ plainRecords, f.size < Window.capacity := by decide
  have readings : (Source.legacy plainFileReader).readings = _ :=
    readings_records usable room ((Window.reaches_ofFile plainFile).consume 24) short rfl
  exact congrArg (List.filterMap Reading.packet?) readings

end Legacy

end PacketLayers
