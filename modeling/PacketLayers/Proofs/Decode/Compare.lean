import PacketLayers.Proofs.Decode.Walk

/-!
Two walks side by side. A relation between runs that is kept when runs are put together goes from
the subscribers of a stage to the stage. Labels of two sorts tell whose calls a walk makes: those of
one sort are heard, and a walk is alike to another if it ends alike and its calls that are heard are
the other's.
-/
namespace PacketLayers

namespace Call

variable {α β : Type}

def relabel (g : α → β) (c : Call α) : Call β := ⟨g c.label, c.frame⟩

/-- The call under its own label, if it is of the first sort. -/
def heard? (c : Call (α ⊕ β)) : Option (Call α) :=
  c.label.getLeft?.map fun label => ⟨label, c.frame⟩

def heard (calls : List (Call (α ⊕ β))) : List (Call α) := calls.filterMap heard?

theorem heard_append (cs ds : List (Call (α ⊕ β))) : heard (cs ++ ds) = heard cs ++ heard ds :=
  List.filterMap_append

theorem heard_left (calls : List (Call α)) :
    heard (calls.map (relabel (Sum.inl : α → α ⊕ β))) = calls := by
  induction calls with
  | nil => rfl
  | cons c calls ih => exact congrArg (c :: ·) ih

theorem heard_right (calls : List (Call β)) :
    heard (calls.map (relabel (Sum.inr : β → α ⊕ β))) = [] := by
  induction calls with
  | nil => rfl
  | cons c calls ih => exact ih

end Call

namespace Step

variable {α β : Type}

def relabel (g : α → β) : Step α → Step β
  | call c => call (c.relabel g)
  | event e => event e

end Step

namespace Run

variable {α β γ δ : Type}

def relabel (g : α → β) (run : Run α γ) : Run β γ := ⟨run.steps.map (Step.relabel g), run.result⟩

theorem calls_relabel (g : α → β) (run : Run α γ) :
    (run.relabel g).calls = run.calls.map (Call.relabel g) := by
  obtain ⟨steps, result⟩ := run
  unfold relabel calls
  induction steps with
  | nil => rfl
  | cons step steps ih =>
    cases step with
    | call c => simpa [Step.relabel] using ih
    | event e => simpa [Step.relabel] using ih

theorem followedBy_relabel (g : α → β) (run : Run α γ) (next : Run α δ) :
    (run.relabel g).followedBy (next.relabel g) = (run.followedBy next).relabel g := by
  obtain ⟨steps, result⟩ := run
  cases result with
  | error message => rfl
  | ok b => simp [followedBy, relabel]

theorem followedBy_assoc {ε : Type} (run : Run α γ) (next : Run α δ) (last : Run α ε) :
    (run.followedBy next).followedBy last = run.followedBy (next.followedBy last) := by
  obtain ⟨steps, result⟩ := run
  obtain ⟨later, ends⟩ := next
  cases result with
  | error message => rfl
  | ok b =>
    cases ends with
    | error message => rfl
    | ok c => simp [followedBy]

/-- A relation between runs that holds of whole runs if it holds of their parts. Events do not
count: they tell how many subscribers a stage has. -/
structure Congruence (R : ∀ {γ : Type}, Run α γ → Run β γ → Prop) : Prop where
  done : ∀ {γ : Type} (c : γ), R (.done c) (.done c)
  event : ∀ {γ : Type} {r : Run α γ} {q : Run β γ} (e e' : Event), R r q →
    R (.after (.event e) r) (.after (.event e') q)
  followedBy : ∀ {γ δ : Type} {r : Run α γ} {q : Run β γ} {r' : Run α δ} {q' : Run β δ},
    R r q → R r' q' → R (r.followedBy r') (q.followedBy q')

namespace Congruence

variable {R : ∀ {γ : Type}, Run α γ → Run β γ → Prop} (congruence : Congruence R)
  {inner : Frame → Run α Unit} {inner' : Frame → Run β Unit}
  (below : ∀ f, R (inner f) (inner' f))
include congruence below

theorem enter (format : Format) (n n' : Nat) (parent : Option String) (bs : Bytes) :
    R (PacketLayers.enter format n parent inner bs)
      (PacketLayers.enter format n' parent inner' bs) := by
  unfold PacketLayers.enter
  split
  · exact congruence.event _ _ (congruence.followedBy (below _) (congruence.done _))
  · exact congruence.event _ _ (congruence.done _)

theorem enterChained (child : Format) (announces : (parent : Frame) → Bool) (n n' : Nat)
    (parent : Frame) :
    R (PacketLayers.enterChained child announces n inner parent)
      (PacketLayers.enterChained child announces n' inner' parent) := by
  unfold PacketLayers.enterChained
  split
  · exact congruence.enter below child n n' _ _
  · exact congruence.event _ _ (congruence.done _)

end Congruence

/-- A run that ends like another, and whose calls that are heard are the other's. -/
structure Alike (run : Run α γ) (mixed : Run (α ⊕ β) γ) : Prop where
  result_eq : mixed.result = run.result
  calls_eq : Call.heard mixed.calls = run.calls

theorem alike_relabel (run : Run α γ) : run.Alike (run.relabel (Sum.inl : α → α ⊕ β)) where
  result_eq := rfl
  calls_eq := by rw [calls_relabel, Call.heard_left]

theorem alike_congruence :
    Congruence fun {γ : Type} (r : Run α γ) (q : Run (α ⊕ β) γ) => r.Alike q where
  done c := ⟨rfl, rfl⟩
  event e e' alike := ⟨alike.result_eq, alike.calls_eq⟩
  followedBy := by
    intro γ δ r q r' q' first second
    cases ends : r.result with
    | error message =>
      have same := first.result_eq.trans ends
      refine ⟨?_, ?_⟩
      · simp only [followedBy, ends, same]
      · simp only [followedBy, ends, same]
        exact first.calls_eq
    | ok b =>
      have same := first.result_eq.trans ends
      refine ⟨?_, ?_⟩
      · rw [followedBy_of_ok ends, followedBy_of_ok same]
        exact second.result_eq
      · rw [calls_followedBy ends, calls_followedBy same, Call.heard_append, first.calls_eq,
          second.calls_eq]

end Run

end PacketLayers
