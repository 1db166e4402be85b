import Mathlib.Data.List.Sort
import PacketLayers.Proofs.Decode.Places
import PacketLayers.Protocol.Sample

/-!
The trace of a parse: its calls and its events in one sequence. An event is told by its level, its
message and its fields. Main statement: every stage that a parse visits has one event, which says
what the stage made of its input and stands at the stage's place, in front of all that happens
below the stage and behind all that happens at places before.
-/
namespace PacketLayers

/-- What an event shows, whatever its kind. -/
structure Event.Entry where
  level : Event.Level
  message : String
  fields : List (String × Event.Value)
deriving DecidableEq, Repr

def Event.entry (e : Event) : Event.Entry := ⟨e.level, e.message, e.fields⟩

def Step.record {α : Type} : Step α → Call α ⊕ Event.Entry
  | .call c => .inl c
  | .event e => .inr e.entry

/-- A stage's turn in a walk. The root's turn is to parse octets, a chained stage's to parse the
payload of the frame that its parent dispatches. -/
inductive Visit (α : Type) where
  | root (format : Format) (setup : List (Registration α)) (bs : Bytes)
  | chained (parent : Frame) (child : Format) (announces : (parent : Frame) → Bool)
      (setup : List (Registration α))

namespace Visit

variable {α : Type}

def format : Visit α → Format
  | root format _ _ => format
  | chained _ child _ _ => child

def setup : Visit α → List (Registration α)
  | root _ setup _ => setup
  | chained _ _ _ setup => setup

/-- What parsing gives. A chained stage parses nothing if the match with its parent fails. -/
def parsed? : Visit α → Option (Except ParseError Frame)
  | root format _ bs => some (Frame.parse format bs)
  | chained parent child announces _ =>
    if announces parent then some (Frame.parse child parent.payload) else none

def frame? (v : Visit α) : Option Frame := v.parsed?.bind Except.toOption

def names : Visit α → List (String × Event.Value)
  | root format _ _ => [("frame", .text format.name)]
  | chained parent child _ _ => [("frame", .text child.name), ("parent", .text parent.format.name)]

/-- What the stage is to report. -/
def entry (v : Visit α) : Event.Entry :=
  match v.parsed? with
  | none => ⟨.trace, "parent does not encapsulate frame", v.names⟩
  | some (.ok _) =>
    ⟨.trace, "dispatching frame",
      [("frame", .text v.format.name), ("subscribers", .number v.setup.length)]⟩
  | some (.error e) => ⟨.debug, "dropping frame", v.names ++ [("error", .text e.message)]⟩

def run : Visit α → Run α Outcome
  | root format setup bs => (Stage.mk format (Subscribers.register .done setup)).parse bs
  | chained parent child announces setup =>
    (Stage.mk child (Subscribers.register .done setup)).offer announces parent

end Visit

/-- What stands at a place of a trace: a callback that is called, or a stage that is visited. -/
inductive Happening (α : Type) where
  | call (c : Call α)
  | visit (v : Visit α)

def Registration.brings {α : Type} (f : Frame) : Registration α → Happening α
  | .callback label => .call ⟨label, f⟩
  | .chain child announces setup => .visit (.chained f child announces setup)

namespace Happening

variable {α : Type}

def record : Happening α → Call α ⊕ Event.Entry
  | call c => .inl c
  | visit v => .inr v.entry

def visit? : Happening α → Option (Visit α)
  | call _ => none
  | visit v => some v

/-- What happens at a place below. A stage brings about what is registered there if it dispatches
a frame, and nothing otherwise. -/
def at? : Happening α → (place : List Nat) → Option (Happening α)
  | h, [] => some h
  | call _, _ :: _ => none
  | visit v, i :: below => v.frame?.bind fun f => v.setup[i]?.bind fun r => (r.brings f).at? below

def steps : Happening α → List (Step α)
  | call c => [.call c]
  | visit v => v.run.steps

theorem at?_append (h : Happening α) (place below : List Nat) :
    h.at? (place ++ below) = (h.at? place).bind fun g => g.at? below := by
  induction place generalizing h with
  | nil => rfl
  | cons i place ih =>
    cases h with
    | call c => rfl
    | visit v => simp only [List.cons_append, at?, ih, Option.bind_assoc]

theorem at?_concat_iff (h g : Happening α) (place : List Nat) (i : Nat) :
    h.at? (place ++ [i]) = some g ↔
      ∃ v f r, h.at? place = some (.visit v) ∧ v.frame? = some f ∧ v.setup[i]? = some r ∧
        g = r.brings f := by
  rw [at?_append, Option.bind_eq_some_iff]
  constructor
  · rintro ⟨above, reached, here⟩
    cases above with
    | call c => cases here
    | visit v =>
      simp only [at?, Option.bind_eq_some_iff] at here
      obtain ⟨f, dispatched, r, registered, same⟩ := here
      exact ⟨v, f, r, reached, dispatched, registered, (Option.some.inj same).symm⟩
  · rintro ⟨v, f, r, reached, dispatched, registered, rfl⟩
    refine ⟨.visit v, reached, ?_⟩
    simp only [at?, dispatched, registered, Option.bind_some]

end Happening

/-! ### Steps of a walk -/

namespace Subscribers

variable {α : Type}

theorem append_done (s : Subscribers α) : s.append done = s := by
  induction s with
  | done => rfl
  | callback label next ih => simp only [append, ih]
  | panics message next ih => simp only [append, ih]
  | stage child announces inner next _ ih => simp only [append, ih]

theorem append_assoc (s t u : Subscribers α) : (s.append t).append u = s.append (t.append u) := by
  induction s with
  | done => rfl
  | callback label next ih => simp only [append, ih]
  | panics message next ih => simp only [append, ih]
  | stage child announces inner next _ ih => simp only [append, ih]

theorem register_eq_append (s : Subscribers α) (setup : List (Registration α)) :
    s.register setup = s.append (register done setup) := by
  induction setup generalizing s with
  | nil => exact s.append_done.symm
  | cons r later ih =>
    rw [register, ih, register, ih (done.accept r), ← append_assoc]
    cases r <;> rfl

theorem count_register (setup : List (Registration α)) :
    (register done setup).count = setup.length := by
  induction setup with
  | nil => rfl
  | cons r later ih =>
    rw [register, register_eq_append, count_append, ih, List.length_cons, Nat.add_comm]
    cases r <;> rfl

end Subscribers

section Steps

variable {α : Type}

theorem record_enter {inner : Frame → Run α Unit} (quiet : ∀ f, (inner f).result = .ok ())
    (format : Format) (n : Nat) (parent : Option String) (bs : Bytes) :
    (enter format n parent inner bs).steps.map Step.record =
      .inr (Event.entry (match Frame.parse format bs with
        | .ok _ => .dispatching format.name n
        | .error e => .dropping format.name parent e)) ::
      (Frame.parse format bs).toOption.toList.flatMap fun f => (inner f).steps.map Step.record := by
  unfold enter
  cases Frame.parse format bs with
  | ok frame =>
    simp [Run.after, Run.followedBy_of_ok (quiet frame), Run.done, Except.toOption, Step.record]
  | error e => rfl

theorem result_register (setup : List (Registration α)) (f : Frame) :
    ((Subscribers.register .done setup).deliver f).result = .ok () :=
  Subscribers.result_deliver (Subscribers.Quiet.register (s := .done) trivial setup) f

theorem Visit.record_run (v : Visit α) :
    v.run.steps.map Step.record = .inr v.entry ::
      v.frame?.toList.flatMap fun f =>
        ((Subscribers.register .done v.setup).deliver f).steps.map Step.record := by
  cases v with
  | root format setup bs =>
    rw [run, Stage.parse, record_enter (result_register setup), Subscribers.count_register]
    cases parsed : Frame.parse format bs <;> simp only [entry, frame?, parsed?, parsed] <;> rfl
  | chained parent child announces setup =>
    rw [run, Stage.offer, enterChained]
    split
    · rename_i announced
      rw [record_enter (result_register setup), Subscribers.count_register]
      cases parsed : Frame.parse child parent.payload <;>
        simp only [entry, frame?, parsed?, if_pos announced, parsed] <;> rfl
    · rename_i silent
      simp only [entry, frame?, parsed?, if_neg silent]
      rfl

theorem steps_deliver_register (r : Registration α) (later : List (Registration α)) (f : Frame) :
    ((Subscribers.register .done (r :: later)).deliver f).steps =
      (r.brings f).steps ++ ((Subscribers.register .done later).deliver f).steps := by
  rw [Subscribers.register, Subscribers.register_eq_append]
  cases r with
  | callback label => rfl
  | chain child announces setup =>
    obtain ⟨outcome, ends⟩ := result_enterChained (result_register setup) child announces
      (Subscribers.register .done setup).count f
    exact congrArg Run.steps (Run.followedBy_of_ok ends _)

end Steps

/-! ### Enumeration -/

namespace Happening

variable {α : Type}

def recordAt? (h : Happening α) (place : List Nat) : Option (Call α ⊕ Event.Entry) :=
  (h.at? place).map record

def entryAt? (h : Happening α) (place : List Nat) : Option Event.Entry :=
  ((h.at? place).bind visit?).map Visit.entry

theorem entryAt?_eq (h : Happening α) (place : List Nat) :
    h.entryAt? place = (h.recordAt? place).bind Sum.getRight? := by
  rw [entryAt?, recordAt?]
  cases h.at? place with
  | none => rfl
  | some g => cases g <;> rfl

end Happening

def Registration.recordAt? {α : Type} (setup : List (Registration α)) (f : Frame) :
    (place : List Nat) → Option (Call α ⊕ Event.Entry)
  | [] => none
  | i :: below => setup[i]?.bind fun r => (r.brings f).recordAt? below

section Enumerate

variable {α : Type}

theorem Visit.exists_enumerates (v : Visit α)
    (below : ∀ f, ∃ places, Enumerates (Registration.recordAt? v.setup f) places
      (((Subscribers.register .done v.setup).deliver f).steps.map Step.record)) :
    ∃ places, Enumerates (Happening.visit v).recordAt? places (v.run.steps.map Step.record) := by
  rw [v.record_run]
  cases dispatched : v.frame? with
  | none =>
    have alone : (Happening.visit v).recordAt? =
        fun place => if place = [] then some (.inr v.entry) else none := by
      funext place
      cases place with
      | nil => rfl
      | cons i place => simp [Happening.recordAt?, Happening.at?, dispatched]
    rw [alone]
    exact ⟨_, .single _⟩
  | some f =>
    obtain ⟨places, enumerates⟩ := below f
    have first : (Happening.visit v).recordAt? = fun place =>
        if place = [] then some (.inr v.entry) else Registration.recordAt? v.setup f place := by
      funext place
      cases place with
      | nil => rfl
      | cons i place =>
        simp [Happening.recordAt?, Happening.at?, Registration.recordAt?, dispatched,
          Option.map_bind]
    rw [first, Option.toList_some, List.flatMap_singleton]
    exact ⟨_, enumerates.headed _ rfl⟩

-- On the registrations, those inside chained stages included.
mutual

theorem Registration.exists_enumerates_brings (f : Frame) : (r : Registration α) →
    ∃ places, Enumerates (r.brings f).recordAt? places ((r.brings f).steps.map Step.record)
  | .callback label => by
    have alone : ((Registration.callback label).brings f).recordAt? =
        fun place => if place = [] then some (.inl ⟨label, f⟩) else none := by
      funext place
      cases place <;> rfl
    rw [alone]
    exact ⟨_, .single _⟩
  | .chain child announces setup =>
    Visit.exists_enumerates (.chained f child announces setup) fun g =>
      Registration.exists_enumerates g setup

theorem Registration.exists_enumerates (f : Frame) : (setup : List (Registration α)) →
    ∃ places, Enumerates (Registration.recordAt? setup f) places
      (((Subscribers.register .done setup).deliver f).steps.map Step.record)
  | [] => by
    have silent : Registration.recordAt? ([] : List (Registration α)) f = fun _ => none := by
      funext place
      cases place <;> rfl
    rw [silent]
    exact ⟨_, .silent⟩
  | r :: later => by
    obtain ⟨ps, first⟩ := r.exists_enumerates_brings f
    obtain ⟨qs, rest⟩ := Registration.exists_enumerates f later
    rw [steps_deliver_register, List.map_append]
    exact ⟨_, .behind rfl (fun _ => rfl) (fun _ _ => rfl) rfl first rest⟩

end

end Enumerate

theorem Run.events_map_entry {α β : Type} (run : Run α β) :
    run.events.map Event.entry = (run.steps.map Step.record).filterMap Sum.getRight? := by
  rw [events, List.map_filterMap, List.filterMap_map]
  congr 1
  funext step
  cases step <;> rfl

theorem Enumerates.sublist {β : Type} {at? : List Nat → Option β} {places : List (List Nat)}
    {items : List β} (enumerates : Enumerates at? places items) {p q : List Nat}
    (hp : p ∈ places) (hq : q ∈ places) (less : p < q) : [p, q].Sublist places := by
  have pair : [p, q].Pairwise (· < ·) := List.pairwise_pair.mpr less
  refine List.sublist_of_subperm_of_pairwise (List.subperm_of_subset pair.nodup ?_) pair
    enumerates.ordered
  simp [hp, hq]

/-- A run whose steps are those of a tree's trace. The event of a stage comes before all that
happens below it, and what happens below a registration comes before its later siblings have their
turns. -/
structure Visit.Traces {α : Type} (top : Visit α) (run : Run α Outcome)
    (places visited : List (List Nat)) : Prop where
  steps : Enumerates (Happening.visit top).recordAt? places (run.steps.map Step.record)
  events : Enumerates (Happening.visit top).entryAt? visited (run.events.map Event.entry)
  above : ∀ place below, below ≠ [] → place ++ below ∈ places →
    place ∈ visited ∧ [place, place ++ below].Sublist places
  beside : ∀ place i j below, i < j → place ++ i :: below ∈ places → place ++ [j] ∈ places →
    [place ++ i :: below, place ++ [j]].Sublist places

namespace Visit

variable {α : Type}

theorem visited_of_below {top : Visit α} {place below : List Nat} (deeper : below ≠ [])
    (happens : ((Happening.visit top).recordAt? (place ++ below)).isSome) :
    ((Happening.visit top).entryAt? place).isSome := by
  rw [Happening.recordAt?, Option.isSome_map, Happening.at?_append] at happens
  rw [Happening.entryAt?, Option.isSome_map]
  cases reached : (Happening.visit top).at? place with
  | none => simp [reached] at happens
  | some h =>
    cases h with
    | visit v => rfl
    | call c =>
      cases below with
      | nil => exact absurd rfl deeper
      | cons i below => simp [reached, Happening.at?] at happens

theorem exists_traces (top : Visit α) : ∃ places visited, top.Traces top.run places visited := by
  obtain ⟨places, steps⟩ :=
    top.exists_enumerates fun f => Registration.exists_enumerates f top.setup
  have events := steps.filterMap Sum.getRight?
  simp only [← Happening.entryAt?_eq, ← Run.events_map_entry] at events
  refine ⟨places, _, steps, events, ?_, ?_⟩
  · intro place below deeper listed
    have here := visited_of_below deeper ((steps.complete _).mp listed)
    have visited := (events.complete place).mpr here
    refine ⟨visited, steps.sublist (List.mem_filter.mp visited).1 listed ?_⟩
    obtain ⟨i, below, rfl⟩ := List.exists_cons_of_ne_nil deeper
    have longer : place ++ [] < place ++ i :: below :=
      List.append_left_lt (List.nil_lt_cons i below)
    rwa [List.append_nil] at longer
  · intro place i j below before first second
    exact steps.sublist first second
      (List.append_left_lt (List.cons_lt_cons_iff.mpr (.inl before)))

end Visit

/-- A parse visits the root, and each other stage if and only if its parent is visited and
dispatches a frame. Its steps are one event for each visited stage and one call for each callback
of a stage that dispatches, in the lexicographic order of the places. -/
theorem Stage.parse_traces {α : Type} (root : Format) (setup : List (Registration α))
    (bs : Bytes) :
    let top : Visit α := .root root setup bs
    (Happening.visit top).at? [] = some (.visit top) ∧
    (∀ place i h, (Happening.visit top).at? (place ++ [i]) = some h ↔
      ∃ v f r, (Happening.visit top).at? place = some (.visit v) ∧ v.frame? = some f ∧
        v.setup[i]? = some r ∧ h = r.brings f) ∧
    ∃ places visited,
      top.Traces ((Stage.mk root (Subscribers.register .done setup)).parse bs) places visited :=
  ⟨rfl, fun place i h => Happening.at?_concat_iff _ h place i, Visit.exists_traces _⟩

open Sample in
/-- One stage of each kind: the root dispatches, the first chained stage refuses the payload, and
the second is not meant for it. -/
example :
    let tree : List (Registration Nat) :=
      [.chain Inner.format Inner.inOuter.announces [.callback 1], .callback 2,
        .chain Span.format (fun _ => false) []]
    ((Stage.mk Outer.format (Subscribers.register .done tree)).parse
        [0xA5, 0x01, 0x00, 0x02, 0x00, 0x00]).events =
      [.dispatching "outer" 3, .dropping "inner" (some "outer") (.invalid "inner"),
        .notEncapsulated "span" "outer"] := by
  decide

end PacketLayers
