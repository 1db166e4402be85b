import PacketLayers.Frame.Basic

/-!
A decode tree. Each stage parses frames of one format and passes them to its subscribers in the
order in which they were registered; a subscriber may itself be a stage for what the frame
carries. `Subscribers` is the forest in that order: every entry names the ones after it.
-/
namespace PacketLayers

inductive Subscribers (α : Type) where
  | done
  /-- Hears of every frame, under its label. -/
  | callback (label : α) (next : Subscribers α)
  /-- Panics at every frame. -/
  | panics (message : String) (next : Subscribers α)
  /-- Decodes the payload of frames that announce the child. -/
  | stage (child : Format) (announces : (parent : Frame) → Bool) (inner next : Subscribers α)

namespace Subscribers

variable {α : Type}

def count : Subscribers α → Nat
  | done => 0
  | callback _ next => next.count + 1
  | panics _ next => next.count + 1
  | stage _ _ _ next => next.count + 1

def append : Subscribers α → Subscribers α → Subscribers α
  | done, later => later
  | callback label next, later => callback label (next.append later)
  | panics message next, later => panics message (next.append later)
  | stage child announces inner next, later => stage child announces inner (next.append later)

def addCallback (s : Subscribers α) (label : α) : Subscribers α :=
  s.append (callback label done)

def addPanic (s : Subscribers α) (message : String) : Subscribers α :=
  s.append (panics message done)

def chain (s : Subscribers α) (child : Format) (announces : (parent : Frame) → Bool)
    (inner : Subscribers α) : Subscribers α :=
  s.append (stage child announces inner done)

theorem count_append (s t : Subscribers α) : (s.append t).count = s.count + t.count := by
  induction s with
  | done => simp [append, count]
  | callback _ next ih => simp only [append, count, ih]; omega
  | panics _ next ih => simp only [append, count, ih]; omega
  | stage _ _ _ next _ ih => simp only [append, count, ih]; omega

end Subscribers

structure Stage (α : Type) where
  format : Format
  subscribers : Subscribers α := .done

namespace Stage

variable {α : Type}

def describe (s : Stage α) : String :=
  "BaseFilter \x7b frame: \"" ++ s.format.name ++ "\", callbacks: " ++
    toString s.subscribers.count ++ " \x7d"

def describeRoot (s : Stage α) : String := "RootFilter \x7b filter: " ++ s.describe ++ " \x7d"

def describeChained (s : Stage α) (parent : Format) : String :=
  "ChainedFilter \x7b parent: \"" ++ parent.name ++ "\", filter: " ++ s.describe ++ " \x7d"

end Stage

end PacketLayers
