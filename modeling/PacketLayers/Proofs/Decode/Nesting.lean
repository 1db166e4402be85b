import Mathlib.Data.List.Chain
import PacketLayers.Proofs.Decode.Panics

/-!
Where the frames of a walk lie in the octets that were parsed. A stage reads its frame from the
payload of its parent's, which is cut out of a frame that was cut out before. Main statement: what
a subscriber is handed is one piece of the octets that were parsed, and the pieces on the way to it
lie in one another, each behind the header of the one before, wherever the headers claim that the
payloads are.
-/
namespace PacketLayers

namespace Bytes

theorem slice_slice {bs : Bytes} {start size first n : Nat} (inside : first + n ≤ size) :
    (bs.slice start size).slice first n = bs.slice (start + first) n := by
  rw [slice, slice, slice, List.drop_take, List.drop_drop, List.take_take,
    Nat.min_eq_left (by omega)]

theorem slice_all (bs : Bytes) : bs.slice 0 bs.length = bs := by
  rw [slice, List.drop_zero, List.take_length]

end Bytes

namespace Frame

variable {f : Frame}

theorem length_octets : f.octets.length = f.size := by
  rw [octets, List.length_append, f.header_length, size]

theorem octets_of_parse {format : Format} {bs : Bytes} (h : parse format bs = .ok f) :
    f.octets = bs := by
  unfold parse at h
  split at h
  · cases h
  · rename_i frame cast
    split at h
    · cases h
      exact (octets_of_cast cast).2
    · cases h

theorem header_eq_slice : f.header = f.octets.slice 0 f.format.headerLength := by
  rw [Bytes.slice, octets, List.drop_zero, List.take_left' f.header_length]

theorem headerLength_le_start : f.format.headerLength ≤ f.payloadRange.start :=
  Bounds.low_le_clamp_start (Nat.le_add_right _ _)

theorem start_le_stop : f.payloadRange.start ≤ f.payloadRange.stop :=
  Bounds.clamp_start_le_stop _ _ _

theorem stop_le_size : f.payloadRange.stop ≤ f.size := Bounds.clamp_stop_le _ _ _

theorem payload_eq_slice : f.payload = f.octets.slice f.payloadRange.start f.payloadRange.size := by
  have behind : f.octets.drop f.payloadRange.start =
      f.body.drop (f.payloadRange.start - f.format.headerLength) := by
    have past : f.header.length ≤ f.payloadRange.start := by
      rw [f.header_length]
      exact headerLength_le_start
    rw [octets, List.drop_append, List.drop_eq_nil_of_le past, List.nil_append, f.header_length]
  rw [payload, Bytes.slice, Bytes.slice, behind]

end Frame

/-- A frame, and the window of the octets that it was read from. -/
structure Placed where
  window : Bounds
  frame : Frame

namespace Placed

def payloadWindow (p : Placed) : Bounds :=
  ⟨p.window.start + p.frame.payloadRange.start, p.window.start + p.frame.payloadRange.stop⟩

/-- A placed frame shows the octets of its window: the header stands at its beginning, and the
payload behind the header and before its end. -/
structure Lies (bs : Bytes) (p : Placed) : Prop where
  ordered : p.window.start ≤ p.window.stop
  inside : p.window.stop ≤ bs.length
  octets : p.frame.octets = bs.slice p.window.start p.window.size
  header : p.frame.header = bs.slice p.window.start p.frame.format.headerLength
  payload : p.frame.payload = bs.slice p.payloadWindow.start p.payloadWindow.size
  behind : p.window.start + p.frame.format.headerLength ≤ p.payloadWindow.start
  forward : p.payloadWindow.start ≤ p.payloadWindow.stop
  within : p.payloadWindow.stop ≤ p.window.stop

/-- Frames of which each is read from the payload of the one before, and the first from all of the
octets. -/
structure Nested (bs : Bytes) (ps : List Placed) : Prop where
  whole : ps.head?.map Placed.window = some ⟨0, bs.length⟩
  linked : ps.IsChain fun outer inner => inner.window = outer.payloadWindow
  lies : ∀ p ∈ ps, p.Lies bs

/-- Frames further down lie in the payload of those above, so behind their headers. -/
def Narrows (ps : List Placed) : Prop :=
  ps.Pairwise fun outer inner =>
    outer.window.start + outer.frame.format.headerLength ≤ inner.window.start ∧
      inner.window.stop ≤ outer.window.stop

def headerTotal (ps : List Placed) : Nat :=
  ps.foldr (fun p below => p.frame.format.headerLength + below) 0

theorem lies_of_octets {bs : Bytes} {p : Placed} (ordered : p.window.start ≤ p.window.stop)
    (inside : p.window.stop ≤ bs.length)
    (octets : p.frame.octets = bs.slice p.window.start p.window.size) : p.Lies bs := by
  have size : p.frame.size = p.window.stop - p.window.start := by
    rw [← Frame.length_octets, octets, Bytes.length_slice]
    · rfl
    · simp only [Bounds.size]
      omega
  have behind := Frame.headerLength_le_start (f := p.frame)
  have forward := Frame.start_le_stop (f := p.frame)
  have within := Frame.stop_le_size (f := p.frame)
  refine ⟨ordered, inside, octets, ?_, ?_, ?_, ?_, ?_⟩
  · rw [Frame.header_eq_slice, octets, Bytes.slice_slice, Nat.add_zero]
    simp only [Bounds.size]
    omega
  · have same : p.frame.payloadRange.size = p.payloadWindow.size := by
      simp only [Bounds.size, payloadWindow]
      omega
    rw [Frame.payload_eq_slice, octets, Bytes.slice_slice, same]
    · rfl
    · simp only [Bounds.size]
      omega
  all_goals
    simp only [payloadWindow]
    omega

/-- What is read from the payload of a frame that lies in the octets lies there too. -/
theorem Lies.below {bs : Bytes} {p : Placed} (lies : p.Lies bs) {f : Frame}
    (octets : f.octets = p.frame.payload) : Lies bs ⟨p.payloadWindow, f⟩ :=
  lies_of_octets lies.forward (lies.within.trans lies.inside) (octets.trans lies.payload)

theorem headerTotal_le {bs : Bytes} {p : Placed} {ps : List Placed}
    (linked : (p :: ps).IsChain fun outer inner => inner.window = outer.payloadWindow)
    (lies : ∀ q ∈ p :: ps, q.Lies bs) :
    p.window.start + headerTotal (p :: ps) ≤ p.window.stop := by
  have here := lies p List.mem_cons_self
  induction ps generalizing p with
  | nil =>
    have behind := here.behind
    have forward := here.forward
    have within := here.within
    simp only [headerTotal, List.foldr_cons, List.foldr_nil]
    omega
  | cons q ps ih =>
    obtain ⟨link, linked⟩ := List.isChain_cons_cons.mp linked
    have later := ih linked (fun r member => lies r (List.mem_cons_of_mem p member))
      (lies q (List.mem_cons_of_mem p List.mem_cons_self))
    have behind := here.behind
    have within := here.within
    rw [link] at later
    simp only [headerTotal, List.foldr_cons] at later ⊢
    omega

theorem inside_payload {bs : Bytes} {p : Placed} {ps : List Placed}
    (linked : (p :: ps).IsChain fun outer inner => inner.window = outer.payloadWindow)
    (lies : ∀ q ∈ p :: ps, q.Lies bs) :
    ∀ q ∈ ps, p.payloadWindow.start ≤ q.window.start ∧ q.window.stop ≤ p.payloadWindow.stop := by
  induction ps generalizing p with
  | nil => exact nofun
  | cons next ps ih =>
    obtain ⟨link, linked⟩ := List.isChain_cons_cons.mp linked
    have below : ∀ q ∈ next :: ps, q.Lies bs :=
      fun q member => lies q (List.mem_cons_of_mem p member)
    have here := below next List.mem_cons_self
    intro q member
    rw [← link]
    rcases List.mem_cons.mp member with rfl | further
    · exact ⟨Nat.le_refl _, Nat.le_refl _⟩
    · obtain ⟨starts, stops⟩ := ih linked below q further
      have behind := here.behind
      have within := here.within
      omega

theorem narrows {bs : Bytes} {ps : List Placed}
    (linked : ps.IsChain fun outer inner => inner.window = outer.payloadWindow)
    (lies : ∀ q ∈ ps, q.Lies bs) : Narrows ps := by
  induction ps with
  | nil => exact .nil
  | cons p ps ih =>
    have here := lies p List.mem_cons_self
    refine .cons (fun q member => ?_)
      (ih linked.tail fun q member => lies q (List.mem_cons_of_mem p member))
    obtain ⟨starts, stops⟩ := inside_payload linked lies q member
    have behind := here.behind
    have within := here.within
    omega

end Placed

namespace Subscribers

variable {α : Type}

/-- A frame given to a stage reaches the stage at a place below it, if that one and all stages on
the way accept what they get. The frames are those on the way, the last one's own included. -/
inductive Reaches : Subscribers α → Frame → (place : List Nat) → Subscribers α → List Frame → Prop
  | self (s : Subscribers α) (f : Frame) : Reaches s f [] s [f]
  | through {s inner t : Subscribers α} {f g : Frame} {i : Nat} {place : List Nat}
      {child : Format} {announces : (parent : Frame) → Bool} {frames : List Frame}
      (entry : s.entries[i]? = some (.stage child announces inner))
      (arrived : received? child announces f = some g) (later : Reaches inner g place t frames) :
      Reaches s f (i :: place) t (f :: frames)

/-- Whether a frame given to a stage brings a subscriber below it to be handed a frame, the last
of those on the way. -/
def Hands (s : Subscribers α) (f : Frame) (subscriber : Subscriber α) (frames : List Frame) :
    Prop :=
  ∃ place t, s.Reaches f place t frames ∧ subscriber ∈ t.entries

variable {s : Subscribers α} {f : Frame} {place : List Nat}

theorem Hands.direct {i : Nat} {subscriber : Subscriber α}
    (entry : s.entries[i]? = some subscriber) : s.Hands f subscriber [f] :=
  ⟨[], s, .self s f, List.mem_of_getElem? entry⟩

theorem Hands.through {inner : Subscribers α} {g : Frame} {i : Nat} {child : Format}
    {announces : (parent : Frame) → Bool} {subscriber : Subscriber α} {frames : List Frame}
    (entry : s.entries[i]? = some (.stage child announces inner))
    (arrived : received? child announces f = some g) (later : inner.Hands g subscriber frames) :
    s.Hands f subscriber (f :: frames) := by
  obtain ⟨place, t, reaches, member⟩ := later
  exact ⟨i :: place, t, .through entry arrived reaches, member⟩

theorem hands_of_call {c : Call α} (called : s.callAt? f place = some c) :
    ∃ above, s.Hands f (.callback c.label) (above ++ [c.frame]) := by
  induction place generalizing s f with
  | nil => cases called
  | cons i below ih =>
    rw [callAt?] at called
    split at called
    · rename_i label entry
      split at called
      · cases called
        exact ⟨[], .direct entry⟩
      · cases called
    · rename_i child announces inner entry
      obtain ⟨g, arrived, later⟩ := Option.bind_eq_some_iff.mp called
      obtain ⟨above, handed⟩ := ih later
      exact ⟨f :: above, .through entry arrived handed⟩
    · cases called

theorem hands_of_panic {message : String} (panics : s.panicAt? f place = some message) :
    ∃ frames, s.Hands f (.panics message) frames := by
  induction place generalizing s f with
  | nil => cases panics
  | cons i below ih =>
    rw [panicAt?] at panics
    split at panics
    · rename_i own entry
      split at panics
      · cases panics
        exact ⟨[f], .direct entry⟩
      · cases panics
    · rename_i child announces inner entry
      obtain ⟨g, arrived, later⟩ := Option.bind_eq_some_iff.mp panics
      obtain ⟨frames, handed⟩ := ih later
      exact ⟨f :: frames, .through entry arrived handed⟩
    · cases panics

theorem octets_of_received {child : Format} {announces : (parent : Frame) → Bool} {g : Frame}
    (arrived : received? child announces f = some g) : g.octets = f.payload := by
  unfold received? at arrived
  split at arrived
  · cases parsed : Frame.parse child f.payload with
    | error e =>
      rw [parsed] at arrived
      cases arrived
    | ok frame =>
      rw [parsed] at arrived
      cases arrived
      exact Frame.octets_of_parse parsed
  · cases arrived

/-- From a frame that lies in the octets on, each frame on the way to a stage lies in the payload
of the one before. -/
theorem exists_placed {bs : Bytes} {window : Bounds} {t : Subscribers α} {frames : List Frame}
    (reaches : s.Reaches f place t frames) (lies : Placed.Lies bs ⟨window, f⟩) :
    ∃ ps : List Placed, frames = f :: ps.map Placed.frame ∧
      ((Placed.mk window f :: ps).IsChain fun outer inner =>
        inner.window = outer.payloadWindow) ∧
      ∀ p ∈ Placed.mk window f :: ps, p.Lies bs := by
  induction reaches generalizing window with
  | self s f => exact ⟨[], rfl, .singleton _, by simpa using lies⟩
  | through entry arrived later ih =>
    obtain ⟨ps, rfl, linked, all⟩ := ih (lies.below (octets_of_received arrived))
    exact ⟨_ :: ps, rfl, .cons_cons rfl linked, List.forall_mem_cons.mpr ⟨lies, all⟩⟩

end Subscribers

namespace Stage

variable {α : Type}

def Reaches (s : Stage α) (bs : Bytes) (place : List Nat) (t : Subscribers α)
    (frames : List Frame) : Prop :=
  ∃ f, Frame.parse s.format bs = .ok f ∧ s.subscribers.Reaches f place t frames

def Hands (s : Stage α) (bs : Bytes) (subscriber : Subscriber α) (frames : List Frame) : Prop :=
  ∃ place t, s.Reaches bs place t frames ∧ subscriber ∈ t.entries

variable {s : Stage α} {bs : Bytes}

theorem hands_of_parsed {f : Frame} (parsed : (Frame.parse s.format bs).toOption = some f)
    {subscriber : Subscriber α} {frames : List Frame}
    (handed : s.subscribers.Hands f subscriber frames) : s.Hands bs subscriber frames := by
  obtain ⟨place, t, reaches, member⟩ := handed
  refine ⟨place, t, ⟨f, ?_, reaches⟩, member⟩
  cases eq : Frame.parse s.format bs with
  | error e =>
    rw [eq] at parsed
    cases parsed
  | ok g =>
    rw [eq] at parsed
    rw [Option.some.inj parsed]

theorem exists_heardAt {c : Call α} (made : c ∈ (s.parse bs).calls) :
    ∃ place, s.heardAt? bs place = some c := by
  have heard : c ∈ Call.heard (s.silenced.parse bs).calls := by
    cases (s.cut_parse bs).1 with
    | completes unmarked calls_eq result_eq =>
      rw [← calls_eq]
      exact made
    | unwinds before after message f split unmarked calls_eq result_eq =>
      rw [split, Call.heard_append, ← calls_eq]
      exact List.mem_append_left _ made
  obtain ⟨mark, listed, eq⟩ := List.mem_filterMap.mp heard
  obtain ⟨places, accounts⟩ := exists_accounts_parse (s := s.silenced) bs
    s.subscribers.quiet_silenced
  have accounted : some mark ∈ places.map (s.silenced.heardAt? bs) := by
    rw [← accounts.faithful]
    exact List.mem_map_of_mem listed
  obtain ⟨place, -, here⟩ := List.mem_map.mp accounted
  refine ⟨place, ?_⟩
  rw [← (s.heardAt?_silenced bs place).1, here]
  exact eq

/-- What a parse hands to subscribers lies in the octets that it parses. Callbacks and subscribers
that panic are handed the frame of a stage that is reached; so are chained stages. The frames on
the way to a stage that is reached lie in the octets, each in the payload of the one before, so
behind each other's headers, and all of their headers are together no longer than the octets. -/
theorem nested_of_parse (s : Stage α) (bs : Bytes) :
    (∀ c ∈ (s.parse bs).calls, ∃ above, s.Hands bs (.callback c.label) (above ++ [c.frame])) ∧
    (∀ message, (s.parse bs).result = .error message →
      ∃ frames, s.Hands bs (.panics message) frames) ∧
    ∀ place t frames, s.Reaches bs place t frames →
      ∃ ps, ps.map Placed.frame = frames ∧ Placed.Nested bs ps ∧ Placed.Narrows ps ∧
        Placed.headerTotal ps ≤ bs.length := by
  refine ⟨fun c made => ?_, fun message fails => ?_, ?_⟩
  · obtain ⟨place, called⟩ := exists_heardAt made
    obtain ⟨f, parsed, called⟩ := Option.bind_eq_some_iff.mp called
    obtain ⟨above, handed⟩ := Subscribers.hands_of_call called
    exact ⟨above, hands_of_parsed parsed handed⟩
  · obtain ⟨place, first⟩ := exists_firstPanic fails
    obtain ⟨f, parsed, panics⟩ := Option.bind_eq_some_iff.mp first.panics
    obtain ⟨frames, handed⟩ := Subscribers.hands_of_panic panics
    exact ⟨frames, hands_of_parsed parsed handed⟩
  · rintro place t frames ⟨f, parsed, reaches⟩
    have octets : f.octets = bs.slice 0 bs.length := by
      rw [Frame.octets_of_parse parsed, Bytes.slice_all]
    have lies : Placed.Lies bs ⟨⟨0, bs.length⟩, f⟩ :=
      Placed.lies_of_octets (Nat.zero_le _) (Nat.le_refl _) octets
    obtain ⟨ps, rfl, linked, all⟩ := Subscribers.exists_placed reaches lies
    refine ⟨_ :: ps, rfl, ⟨rfl, linked, all⟩, Placed.narrows linked all, ?_⟩
    have room := Placed.headerTotal_le linked all
    rw [Nat.zero_add] at room
    exact room

def spans : Stage Nat where
  format := Sample.Span.format
  subscribers := .callback 1 (.stage Sample.Span.format Sample.Span.inSpan.announces
    (.stage Sample.Inner.format Sample.Inner.inSpan.announces
      (.callback 2 (.panics "inside" .done)) .done) .done)

def spanned : Bytes := [1, 1, 0, 0, 0xFF, 0xFF, 1, 2, 0, 8, 0, 10, 9, 9, 7, 0, 5]

theorem reaches_spanned :
    ∃ outer middle leaf, spans.Reaches spanned [1, 0] (.callback 2 (.panics "inside" .done))
        [outer, middle, leaf] ∧
      outer.payloadRange = ⟨6, 17⟩ ∧ middle.payloadRange = ⟨8, 10⟩ ∧ leaf.header = [7, 0] :=
  ⟨_, _, _, ⟨_, rfl, .through rfl rfl (.through rfl rfl (.self _ _))⟩, rfl, rfl, rfl⟩

theorem nested_of_parse_spanned :
    (∃ c ∈ (spans.parse spanned).calls, c.label = 2 ∧
      ∃ above, spans.Hands spanned (.callback 2) (above ++ [c.frame])) ∧
    (∃ frames, spans.Hands spanned (.panics "inside") frames) ∧
    ∃ ps, Placed.Nested spanned ps ∧ ps.map Placed.window = [⟨0, 17⟩, ⟨6, 17⟩, ⟨14, 16⟩] := by
  obtain ⟨calls, panics, nested⟩ := nested_of_parse spans spanned
  refine ⟨?_, panics "inside" rfl, ?_⟩
  · obtain ⟨c, made, label⟩ : ∃ c ∈ (spans.parse spanned).calls, c.label = 2 :=
      ⟨_, .tail _ (.head _), rfl⟩
    refine ⟨c, made, label, ?_⟩
    rw [← label]
    exact calls c made
  · obtain ⟨outer, middle, leaf, reaches, first, second, -⟩ := reaches_spanned
    obtain ⟨ps, frames, nests, -, -⟩ := nested _ _ _ reaches
    refine ⟨ps, nests, ?_⟩
    obtain ⟨p, below, rfl, rfl, behindFirst⟩ := List.map_eq_cons_iff.mp frames
    obtain ⟨q, lowest, rfl, rfl, behindSecond⟩ := List.map_eq_cons_iff.mp behindFirst
    obtain ⟨r, rfl, -⟩ := List.map_eq_singleton_iff.mp behindSecond
    obtain ⟨linkFirst, linked⟩ := List.isChain_cons_cons.mp nests.linked
    obtain ⟨linkSecond, -⟩ := List.isChain_cons_cons.mp linked
    have whole : p.window = ⟨0, 17⟩ := Option.some.inj nests.whole
    simp only [List.map_cons, List.map_nil, linkSecond, linkFirst, Placed.payloadWindow, whole,
      first, second]

end Stage

end PacketLayers
