import PacketLayers.Proofs.Decode.Compare
import PacketLayers.Protocol.Sample

/-!
What an additional subscriber changes for the others: nothing. Two trees are compared that differ
by subscribers put in at one place, at any depth. The subscribers of the smaller tree have labels
of one sort and the new ones of another, so that the calls of the larger tree show who made them.
-/
namespace PacketLayers

namespace Subscribers

variable {α β : Type}

def relabel (g : α → β) : Subscribers α → Subscribers β
  | done => done
  | callback label next => callback (g label) (next.relabel g)
  | panics message next => panics message (next.relabel g)
  | stage child announces inner next => stage child announces (inner.relabel g) (next.relabel g)

theorem count_relabel (g : α → β) (s : Subscribers α) : (s.relabel g).count = s.count := by
  induction s with
  | done => rfl
  | callback label next ih => exact congrArg (· + 1) ih
  | panics message next ih => exact congrArg (· + 1) ih
  | stage child announces inner next _ ih => exact congrArg (· + 1) ih

theorem enterChained_relabel (g : α → β) (child : Format) (announces : (parent : Frame) → Bool)
    (n : Nat) (inner : Frame → Run α Unit) (parent : Frame) :
    enterChained child announces n (fun f => (inner f).relabel g) parent =
      (enterChained child announces n inner parent).relabel g := by
  unfold enterChained enter
  split
  · cases Frame.parse child parent.payload with
    | ok frame =>
      have dispatched := (inner frame).followedBy_relabel g (.done Outcome.dispatched)
      exact congrArg (Run.after _) dispatched
    | error e => rfl
  · rfl

theorem deliver_relabel (g : α → β) (s : Subscribers α) (f : Frame) :
    (s.relabel g).deliver f = (s.deliver f).relabel g := by
  induction s generalizing f with
  | done => rfl
  | callback label next ih => exact congrArg (Run.after _) (ih f)
  | panics message next ih => rfl
  | stage child announces inner next ihInner ih =>
    have below : (fun f => (inner.relabel g).deliver f) = fun f => (inner.deliver f).relabel g :=
      funext ihInner
    rw [relabel, deliver, deliver, below, count_relabel, enterChained_relabel, ih,
      Run.followedBy_relabel]

theorem Quiet.relabel {s : Subscribers α} (quiet : s.Quiet) (g : α → β) : (s.relabel g).Quiet := by
  induction s with
  | done => trivial
  | callback label next ih => exact ih quiet
  | panics message next ih => exact quiet.elim
  | stage child announces inner next ihInner ih => exact ⟨ihInner quiet.1, ih quiet.2⟩

theorem deliver_append (s t : Subscribers α) (f : Frame) :
    (s.append t).deliver f = (s.deliver f).followedBy (t.deliver f) := by
  induction s with
  | done => rfl
  | callback label next ih =>
    rw [append, deliver, ih, deliver]
    cases ends : (next.deliver f).result <;> simp [Run.followedBy, Run.after, ends]
  | panics message next ih => rfl
  | stage child announces inner next _ ih =>
    rw [append, deliver, ih, deliver, Run.followedBy_assoc]

/-- Quiet subscribers between others, which hear what they heard without them. -/
theorem alike_insert {new : Subscribers β} (quiet : new.Quiet) (before after : Subscribers α)
    (f : Frame) :
    ((before.append after).deliver f).Alike
      (((before.relabel .inl).append ((new.relabel .inr).append (after.relabel .inl))).deliver
        f) := by
  have passes : ((new.relabel (Sum.inr : β → α ⊕ β)).deliver f).result = .ok () :=
    result_deliver (quiet.relabel _) f
  have unheard : Call.heard ((new.relabel (Sum.inr : β → α ⊕ β)).deliver f).calls = [] := by
    rw [deliver_relabel, Run.calls_relabel, Call.heard_right]
  -- What is put in passes and is not heard, so that what comes after it goes on as before.
  have later : (after.deliver f).Alike
      (((new.relabel (Sum.inr : β → α ⊕ β)).append (after.relabel .inl)).deliver f) := by
    have alike := Run.alike_relabel (β := β) (after.deliver f)
    rw [← deliver_relabel] at alike
    rw [deliver_append]
    refine ⟨?_, ?_⟩
    · rw [Run.followedBy_of_ok passes]
      exact alike.result_eq
    · rw [Run.calls_followedBy passes, Call.heard_append, unheard]
      exact alike.calls_eq
  have earlier := Run.alike_relabel (β := β) (before.deliver f)
  rw [← deliver_relabel] at earlier
  rw [deliver_append, deliver_append]
  exact Run.alike_congruence.followedBy earlier later

end Subscribers

/-- A stage on the way to a place, and its neighbours: what it decodes, and the subscribers that
its parent has before and after it. -/
structure Junction (α : Type) where
  child : Format
  announces : (parent : Frame) → Bool
  before : Subscribers α
  after : Subscribers α

namespace Junction

variable {α β : Type}

def around (j : Junction α) (inner : Subscribers α) : Subscribers α :=
  j.before.append (.stage j.child j.announces inner j.after)

def relabel (g : α → β) (j : Junction α) : Junction β :=
  ⟨j.child, j.announces, j.before.relabel g, j.after.relabel g⟩

/-- The subscribers of the root, if those of the stage at the end of a path are given. -/
def within (path : List (Junction α)) (inner : Subscribers α) : Subscribers α :=
  path.foldr around inner

/-- What is alike in a stage is alike in the whole tree around it. -/
theorem alike_within (path : List (Junction α)) {inner : Subscribers α}
    {mixed : Subscribers (α ⊕ β)} (alike : ∀ f, (inner.deliver f).Alike (mixed.deliver f))
    (f : Frame) :
    ((within path inner).deliver f).Alike
      ((within (path.map (relabel .inl)) mixed).deliver f) := by
  induction path generalizing f with
  | nil => exact alike f
  | cons j path ih =>
    have earlier := Run.alike_relabel (β := β) (j.before.deliver f)
    have later := Run.alike_relabel (β := β) (j.after.deliver f)
    rw [← Subscribers.deliver_relabel] at earlier later
    have here := Run.alike_congruence.enterChained ih j.child j.announces
      (within path inner).count (within (path.map (relabel .inl)) mixed).count f
    change ((j.around (within path inner)).deliver f).Alike
      (((j.relabel .inl).around (within (path.map (relabel .inl)) mixed)).deliver f)
    rw [around, around, Subscribers.deliver_append, Subscribers.deliver_append]
    exact Run.alike_congruence.followedBy earlier
      (Run.alike_congruence.followedBy here later)

end Junction

namespace Stage

variable {α β : Type}

/-- Subscribers without panics that are put in at any place of any tree leave the outcome as it is
and leave to all other callbacks the calls that they get without them. -/
theorem parse_insert (root : Format) (path : List (Junction α)) (before after : Subscribers α)
    {new : Subscribers β} (quiet : new.Quiet) (bs : Bytes) :
    let alone : Stage α := ⟨root, Junction.within path (before.append after)⟩
    let joined : Stage (α ⊕ β) := ⟨root, Junction.within (path.map (Junction.relabel .inl))
      ((before.relabel .inl).append ((new.relabel .inr).append (after.relabel .inl)))⟩
    (joined.parse bs).result = (alone.parse bs).result ∧
      Call.heard (joined.parse bs).calls = (alone.parse bs).calls := by
  intro alone joined
  have alike : (alone.parse bs).Alike (joined.parse bs) :=
    Run.alike_congruence.enter
      (Junction.alike_within path (Subscribers.alike_insert quiet before after)) root _ _ none bs
  exact ⟨alike.result_eq, alike.calls_eq⟩

def insideEnvelope : Junction Nat :=
  ⟨Sample.Inner.format, Sample.Inner.inOuter.announces, .callback 1 .done, .callback 4 .done⟩

def refusing : Subscribers Nat :=
  .callback 8 (.stage Sample.Inner.format (fun _ => true) (.callback 9 .done) .done)

theorem parse_insert_refusing :
    let before := Subscribers.callback 2 .done
    let after := Subscribers.callback 3 .done
    let bs : Bytes := [0xA5, 0x01, 0x00, 0x02, 0x07, 0x00]
    let alone : Stage Nat :=
      ⟨Sample.Outer.format, Junction.within [insideEnvelope] (before.append after)⟩
    let joined : Stage (Nat ⊕ Nat) :=
      ⟨Sample.Outer.format, Junction.within ([insideEnvelope].map (Junction.relabel .inl))
        ((before.relabel .inl).append ((refusing.relabel .inr).append (after.relabel .inl)))⟩
    refusing.Quiet ∧ (alone.parse bs).calls.map (·.label) = [1, 2, 3, 4] ∧
      (joined.parse bs).calls.map (·.label) =
        [.inl 1, .inl 2, .inr 8, .inl 3, .inl 4] ∧
      (joined.parse bs).result = (alone.parse bs).result ∧
      Call.heard (joined.parse bs).calls = (alone.parse bs).calls :=
  have quiet : refusing.Quiet := ⟨trivial, trivial⟩
  ⟨quiet, rfl, rfl, parse_insert _ _ _ _ quiet _⟩

end Stage

end PacketLayers
