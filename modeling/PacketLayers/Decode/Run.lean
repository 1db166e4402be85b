import PacketLayers.Decode.Tree
import PacketLayers.Event

/-!
One walk of a frame through a decode tree: the calls and events in the order in which they
happen, and how the walk ends. A panic ends the whole walk at once; a stage that does not apply
or refuses its payload leaves its siblings alone.
-/
namespace PacketLayers

/-- A callback's label and the frame it heard of. -/
structure Call (α : Type) where
  label : α
  frame : Frame

inductive Step (α : Type) where
  | call (c : Call α)
  | event (e : Event)

inductive Outcome where
  | dispatched
  | notApplicable
  | rejected (error : ParseError)
deriving DecidableEq, Repr

/-- What happened, and a result or the message of the panic that cut it short. -/
structure Run (α β : Type) where
  steps : List (Step α)
  result : Except String β

namespace Run

variable {α β γ : Type}

def done (b : β) : Run α β := ⟨[], .ok b⟩

def panicked (message : String) : Run α β := ⟨[], .error message⟩

def after (first : Step α) (run : Run α β) : Run α β := ⟨first :: run.steps, run.result⟩

/-- The first run and, unless it panicked, the second. -/
def followedBy (run : Run α β) (next : Run α γ) : Run α γ :=
  match run.result with
  | .ok _ => ⟨run.steps ++ next.steps, next.result⟩
  | .error message => ⟨run.steps, .error message⟩

def calls (run : Run α β) : List (Call α) :=
  run.steps.filterMap fun
    | .call c => some c
    | .event _ => none

def events (run : Run α β) : List Event :=
  run.steps.filterMap fun
    | .call _ => none
    | .event e => some e

end Run

variable {α : Type}

/-- Parses octets as a stage's format and gives the frame to `inner`, or reports the refusal. -/
def enter (format : Format) (subscribers : Nat) (parent : Option String)
    (inner : Frame → Run α Unit) (bs : Bytes) : Run α Outcome :=
  match Frame.parse format bs with
  | .ok frame =>
    .after (.event (.dispatching format.name subscribers))
      ((inner frame).followedBy (.done .dispatched))
  | .error e =>
    .after (.event (.dropping format.name parent e)) (.done (.rejected e))

/-- Enters a chained stage if the parent announces its format. -/
def enterChained (child : Format) (announces : (parent : Frame) → Bool) (subscribers : Nat)
    (inner : Frame → Run α Unit) (parent : Frame) : Run α Outcome :=
  if announces parent then
    enter child subscribers (some parent.format.name) inner parent.payload
  else
    .after (.event (.notEncapsulated child.name parent.format.name)) (.done .notApplicable)

def Subscribers.deliver : Subscribers α → Frame → Run α Unit
  | .done, _ => .done ()
  | .callback label next, frame => .after (.call ⟨label, frame⟩) (next.deliver frame)
  | .panics message _, _ => .panicked message
  | .stage child announces inner next, frame =>
    (enterChained child announces inner.count (fun f => inner.deliver f) frame).followedBy
      (next.deliver frame)

namespace Stage

def parse (s : Stage α) (bs : Bytes) : Run α Outcome :=
  enter s.format s.subscribers.count none s.subscribers.deliver bs

def offer (s : Stage α) (announces : (parent : Frame) → Bool) (parent : Frame) : Run α Outcome :=
  enterChained s.format announces s.subscribers.count s.subscribers.deliver parent

end Stage

end PacketLayers
