import PacketLayers.Decode.Run

namespace PacketLayers

namespace Run

variable {α β γ : Type}

@[simp] theorem calls_done (b : β) : (done b : Run α β).calls = [] := rfl

@[simp] theorem calls_after_call (c : Call α) (run : Run α β) :
    (after (.call c) run).calls = c :: run.calls := rfl

@[simp] theorem calls_after_event (e : Event) (run : Run α β) :
    (after (.event e) run).calls = run.calls := rfl

@[simp] theorem result_after (first : Step α) (run : Run α β) :
    (after first run).result = run.result := rfl

theorem followedBy_of_ok {run : Run α β} {b : β} (ok : run.result = .ok b) (next : Run α γ) :
    run.followedBy next = ⟨run.steps ++ next.steps, next.result⟩ := by
  simp only [followedBy, ok]

theorem calls_followedBy {run : Run α β} {b : β} (ok : run.result = .ok b) (next : Run α γ) :
    (run.followedBy next).calls = run.calls ++ next.calls := by
  rw [followedBy_of_ok ok]
  exact List.filterMap_append

end Run

def Outcome.ofParse : Except ParseError Frame → Outcome
  | .ok _ => .dispatched
  | .error e => .rejected e

/-- The frame that a chained stage receives from its parent's, if it accepts what it is offered. -/
def received? (child : Format) (announces : (parent : Frame) → Bool) (parent : Frame) :
    Option Frame :=
  if announces parent then (Frame.parse child parent.payload).toOption else none

section Enter

variable {α : Type} {inner : Frame → Run α Unit} (quiet : ∀ f, (inner f).result = .ok ())
include quiet

theorem result_enter (format : Format) (n : Nat) (parent : Option String) (bs : Bytes) :
    (enter format n parent inner bs).result = .ok (.ofParse (Frame.parse format bs)) := by
  unfold enter
  cases Frame.parse format bs with
  | ok frame => simp only [Run.result_after, Run.followedBy_of_ok (quiet frame)]; rfl
  | error e => rfl

theorem calls_enter (format : Format) (n : Nat) (parent : Option String) (bs : Bytes) :
    (enter format n parent inner bs).calls =
      (Frame.parse format bs).toOption.toList.flatMap fun f => (inner f).calls := by
  unfold enter
  cases Frame.parse format bs with
  | ok frame => simp [Run.calls_followedBy (quiet frame), Except.toOption]
  | error e => rfl

theorem result_enterChained (child : Format) (announces : (parent : Frame) → Bool) (n : Nat)
    (parent : Frame) :
    ∃ outcome, (enterChained child announces n inner parent).result = .ok outcome := by
  unfold enterChained
  split
  · exact ⟨_, result_enter quiet _ _ _ _⟩
  · exact ⟨_, rfl⟩

theorem calls_enterChained (child : Format) (announces : (parent : Frame) → Bool) (n : Nat)
    (parent : Frame) :
    (enterChained child announces n inner parent).calls =
      (received? child announces parent).toList.flatMap fun f => (inner f).calls := by
  unfold enterChained received?
  split
  · exact calls_enter quiet _ _ _ _
  · rfl

end Enter

namespace Subscribers

variable {α : Type}

def Quiet : Subscribers α → Prop
  | done => True
  | callback _ next => next.Quiet
  | panics _ _ => False
  | stage _ _ inner next => inner.Quiet ∧ next.Quiet

theorem Quiet.append {s t : Subscribers α} (hs : s.Quiet) (ht : t.Quiet) : (s.append t).Quiet := by
  induction s with
  | done => exact ht
  | callback label next ih => exact ih hs
  | panics message next ih => exact hs.elim
  | stage child announces inner next _ ih => exact ⟨hs.1, ih hs.2⟩

theorem result_deliver {s : Subscribers α} (quiet : s.Quiet) (f : Frame) :
    (s.deliver f).result = .ok () := by
  induction s generalizing f with
  | done => rfl
  | callback label next ih => exact ih quiet f
  | panics message next ih => exact quiet.elim
  | stage child announces inner next ihInner ih =>
    obtain ⟨outcome, ends⟩ :=
      result_enterChained (ihInner quiet.1) child announces inner.count f
    simp only [deliver, Run.followedBy_of_ok ends]
    exact ih quiet.2 f

@[simp] theorem calls_deliver_done (f : Frame) : ((done : Subscribers α).deliver f).calls = [] :=
  rfl

@[simp] theorem calls_deliver_callback (label : α) (next : Subscribers α) (f : Frame) :
    ((callback label next).deliver f).calls = ⟨label, f⟩ :: (next.deliver f).calls := rfl

theorem calls_deliver_stage {inner : Subscribers α} (quiet : inner.Quiet) (child : Format)
    (announces : (parent : Frame) → Bool) (next : Subscribers α) (f : Frame) :
    ((stage child announces inner next).deliver f).calls =
      ((received? child announces f).toList.flatMap fun g => (inner.deliver g).calls) ++
        (next.deliver f).calls := by
  obtain ⟨outcome, ends⟩ :=
    result_enterChained (result_deliver quiet) child announces inner.count f
  rw [deliver, Run.calls_followedBy ends, calls_enterChained (result_deliver quiet)]

end Subscribers

namespace Stage

variable {α : Type} {s : Stage α} (quiet : s.subscribers.Quiet)
include quiet

theorem result_parse (bs : Bytes) :
    (s.parse bs).result = .ok (.ofParse (Frame.parse s.format bs)) :=
  result_enter (Subscribers.result_deliver quiet) _ _ _ _

theorem calls_parse (bs : Bytes) :
    (s.parse bs).calls =
      (Frame.parse s.format bs).toOption.toList.flatMap fun f => (s.subscribers.deliver f).calls :=
  calls_enter (Subscribers.result_deliver quiet) _ _ _ _

end Stage

namespace Subscribers

theorem calls_carried {α : Type} {parent : Format} {bs payload : Bytes}
    (fits : parent.headerLength ≤ bs.length)
    (carried : (Frame.split parent bs fits).payload = payload) (child : Format)
    {announces : (parent : Frame) → Bool} {announced : Prop} [Decidable announced]
    (header : announces (Frame.split parent bs fits) = true ↔ announced)
    {inner : Subscribers α} (quiet : inner.Quiet) (next : Subscribers α) :
    ((stage child announces inner next).deliver (Frame.split parent bs fits)).calls =
      (if announced then (Stage.parse ⟨child, inner⟩ payload).calls else []) ++
        (next.deliver (Frame.split parent bs fits)).calls := by
  rw [calls_deliver_stage quiet, received?, carried]
  by_cases told : announced
  · rw [if_pos told, Stage.calls_parse quiet]
    exact congrArg (fun f => (Option.toList f).flatMap _ ++ _) (if_pos (header.mpr told))
  · rw [if_neg told]
    exact congrArg (fun f => (Option.toList f).flatMap _ ++ _) (if_neg (mt header.mp told))

end Subscribers

/-! ### What callbacks are shown -/

/-- A callback's label, and the header and the payload of the frame it is handed. -/
def Call.shown {α : Type} (c : Call α) : α × Bytes × Bytes :=
  (c.label, c.frame.header, c.frame.payload)

/-- Whether the stages of a list are told the same by two frames. -/
def Subscribers.ToldAlike {α : Type} (f g : Frame) : Subscribers α → Prop
  | done => True
  | callback _ next => next.ToldAlike f g
  | panics _ next => next.ToldAlike f g
  | stage _ announces _ next => announces f = announces g ∧ next.ToldAlike f g

/-- Frames of a format that differ only behind their payload are shown alike at every stage, if
that is not what a stage looks at. -/
theorem Subscribers.shown_deliver {α : Type} {f g : Frame} (format : f.format = g.format)
    (header : f.header = g.header) (payload : f.payload = g.payload) {s : Subscribers α}
    (told : s.ToldAlike f g) :
    (s.deliver f).calls.map Call.shown = (s.deliver g).calls.map Call.shown := by
  induction s with
  | done => rfl
  | callback label next ih =>
    rw [calls_deliver_callback, calls_deliver_callback, List.map_cons, List.map_cons, ih told]
    simp only [Call.shown, header, payload]
  | panics message next ih => rfl
  | stage child announces inner next _ ih =>
    have offered (n : Nat) (below : Frame → Run α Unit) :
        enterChained child announces n below f = enterChained child announces n below g := by
      simp only [enterChained, format, payload, told.1]
    rw [deliver, deliver, offered]
    generalize enterChained child announces inner.count (fun f => inner.deliver f) g = first
    cases ends : first.result with
    | ok outcome =>
      rw [Run.calls_followedBy ends, Run.calls_followedBy ends, List.map_append, List.map_append,
        ih told.2]
    | error message => simp only [Run.followedBy, ends]

end PacketLayers
