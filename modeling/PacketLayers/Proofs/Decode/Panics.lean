import PacketLayers.Proofs.Decode.Compare
import PacketLayers.Proofs.Decode.Places
import PacketLayers.Protocol.Sample

/-!
Trees in which subscribers panic. Such a tree is compared with the same tree in which they are
silent: instead of panicking they leave their message as a mark, which is a call that nobody hears.
The walk of the tree is the silent walk up to the first mark. By the places of the marks this is
the first panicking subscriber that the frame reaches, and the calls are those of the places
before it.
-/
namespace PacketLayers

variable {α : Type}

def Call.mark? (c : Call (α ⊕ String)) : Option String := c.label.getRight?

/-- A run that is another one up to its first mark. -/
inductive Run.Cut {γ : Type} (run : Run α γ) (silent : Run (α ⊕ String) γ) : Prop
  | completes (unmarked : ∀ c ∈ silent.calls, c.mark? = none)
      (calls_eq : run.calls = Call.heard silent.calls) (result_eq : run.result = silent.result)
  | unwinds (before after : List (Call (α ⊕ String))) (message : String) (f : Frame)
      (split : silent.calls = before ++ ⟨.inr message, f⟩ :: after)
      (unmarked : ∀ c ∈ before, c.mark? = none) (calls_eq : run.calls = Call.heard before)
      (result_eq : run.result = .error message)

theorem Run.cut_congruence :
    Congruence fun {γ : Type} (r : Run α γ) (q : Run (α ⊕ String) γ) =>
      r.Cut q ∧ ∃ c, q.result = .ok c where
  done c := ⟨.completes nofun rfl rfl, c, rfl⟩
  event e e' := by
    rintro ⟨cut, ends⟩
    refine ⟨?_, ends⟩
    cases cut with
    | completes unmarked calls_eq result_eq => exact .completes unmarked calls_eq result_eq
    | unwinds before after message f split unmarked calls_eq result_eq =>
      exact .unwinds before after message f split unmarked calls_eq result_eq
  followedBy := by
    rintro γ δ r q r' q' ⟨first, b, ends⟩ ⟨second, c, endsLater⟩
    refine ⟨?_, c, by rw [followedBy_of_ok ends]; exact endsLater⟩
    -- What comes behind counts only if the first run meets no mark.
    cases first with
    | completes unmarked calls_eq result_eq =>
      have goes := result_eq.trans ends
      cases second with
      | completes unmarkedLater calls_eqLater result_eqLater =>
        refine .completes ?_ ?_ ?_
        · rw [calls_followedBy ends]
          exact List.forall_mem_append.mpr ⟨unmarked, unmarkedLater⟩
        · rw [calls_followedBy goes, calls_followedBy ends, Call.heard_append, calls_eq,
            calls_eqLater]
        · rw [followedBy_of_ok goes, followedBy_of_ok ends]
          exact result_eqLater
      | unwinds before after message f split unmarkedLater calls_eqLater result_eqLater =>
        refine .unwinds (q.calls ++ before) after message f ?_ ?_ ?_ ?_
        · rw [calls_followedBy ends, split, List.append_assoc]
        · exact List.forall_mem_append.mpr ⟨unmarked, unmarkedLater⟩
        · rw [calls_followedBy goes, Call.heard_append, calls_eq, calls_eqLater]
        · rw [followedBy_of_ok goes]
          exact result_eqLater
    | unwinds before after message f split unmarked calls_eq result_eq =>
      have stops : r.followedBy r' = ⟨r.steps, .error message⟩ := by
        simp only [followedBy, result_eq]
      refine .unwinds before (after ++ q'.calls) message f ?_ unmarked ?_ ?_
      · rw [calls_followedBy ends, split, List.append_assoc]
        rfl
      · rw [stops]
        exact calls_eq
      · rw [stops]

namespace Subscribers

/-- The same tree with panicking subscribers that are silent and leave a mark. -/
def silenced : Subscribers α → Subscribers (α ⊕ String)
  | done => done
  | callback label next => callback (.inl label) next.silenced
  | panics message next => callback (.inr message) next.silenced
  | stage child announces inner next => stage child announces inner.silenced next.silenced

def withoutPanics : Subscribers α → Subscribers α
  | done => done
  | callback label next => callback label next.withoutPanics
  | panics _ next => next.withoutPanics
  | stage child announces inner next => stage child announces inner.withoutPanics next.withoutPanics

/-- The message of the panicking subscriber at a place, if all stages on the way accept what they
get. -/
def panicAt? (s : Subscribers α) (f : Frame) : (place : List Nat) → Option String
  | [] => none
  | i :: below =>
    match s.entries[i]? with
    | some (.panics message) => if below = [] then some message else none
    | some (.stage child announces inner) =>
      (received? child announces f).bind fun g => inner.panicAt? g below
    | _ => none

theorem quiet_silenced (s : Subscribers α) : s.silenced.Quiet := by
  induction s with
  | done => trivial
  | callback label next ih => exact ih
  | panics message next ih => exact ih
  | stage child announces inner next ihInner ih => exact ⟨ihInner, ih⟩

/-- A walk goes as the silent one does, up to the first mark. -/
theorem cut_silenced (s : Subscribers α) (f : Frame) :
    (s.deliver f).Cut (s.silenced.deliver f) ∧ ∃ c, (s.silenced.deliver f).result = .ok c := by
  induction s generalizing f with
  | done => exact Run.cut_congruence.done ()
  | callback label next ih =>
    obtain ⟨cut, ends⟩ := ih f
    refine ⟨?_, ends⟩
    cases cut with
    | completes unmarked calls_eq result_eq =>
      refine .completes ?_ (congrArg (List.cons (Call.mk label f)) calls_eq) result_eq
      exact List.forall_mem_cons.mpr ⟨rfl, unmarked⟩
    | unwinds before after message g split unmarked calls_eq result_eq =>
      let own : Call (α ⊕ String) := ⟨.inl label, f⟩
      refine .unwinds (own :: before) after message g (congrArg (own :: ·) split) ?_
        (congrArg (List.cons (Call.mk label f)) calls_eq) result_eq
      exact List.forall_mem_cons.mpr ⟨rfl, unmarked⟩
  | panics message next ih =>
    exact ⟨.unwinds [] _ message f rfl nofun rfl rfl, (ih f).2⟩
  | stage child announces inner next ihInner ih =>
    exact Run.cut_congruence.followedBy
      (Run.cut_congruence.enterChained ihInner child announces inner.count inner.silenced.count f)
      (ih f)

theorem alike_withoutPanics (s : Subscribers α) (f : Frame) :
    (s.withoutPanics.deliver f).Alike (s.silenced.deliver f) := by
  induction s generalizing f with
  | done => exact Run.alike_congruence.done ()
  | callback label next ih =>
    exact ⟨(ih f).result_eq, congrArg (List.cons (Call.mk label f)) (ih f).calls_eq⟩
  | panics message next ih => exact ⟨(ih f).result_eq, (ih f).calls_eq⟩
  | stage child announces inner next ihInner ih =>
    exact Run.alike_congruence.followedBy
      (Run.alike_congruence.enterChained ihInner child announces inner.withoutPanics.count
        inner.silenced.count f)
      (ih f)

def silencedEntry : Subscriber α → Subscriber (α ⊕ String)
  | .callback label => .callback (.inl label)
  | .panics message => .callback (.inr message)
  | .stage child announces inner => .stage child announces inner.silenced

theorem entries_silenced (s : Subscribers α) :
    s.silenced.entries = s.entries.map silencedEntry := by
  induction s with
  | done => rfl
  | callback label next ih => exact congrArg (_ :: ·) ih
  | panics message next ih => exact congrArg (_ :: ·) ih
  | stage child announces inner next _ ih => exact congrArg (_ :: ·) ih

theorem callAt?_silenced (s : Subscribers α) (f : Frame) (place : List Nat) :
    (s.silenced.callAt? f place).bind Call.heard? = s.callAt? f place ∧
      (s.silenced.callAt? f place).bind Call.mark? = s.panicAt? f place := by
  -- On the place: each index leads to one registration, and only stages have places below.
  induction place generalizing s f with
  | nil => exact ⟨rfl, rfl⟩
  | cons i below ih =>
    simp only [callAt?, panicAt?, entries_silenced, List.getElem?_map]
    cases s.entries[i]? with
    | none => exact ⟨rfl, rfl⟩
    | some entry =>
      cases entry with
      | callback label =>
        by_cases here : below = [] <;> simp [silencedEntry, here, Call.heard?, Call.mark?]
      | panics message =>
        by_cases here : below = [] <;> simp [silencedEntry, here, Call.heard?, Call.mark?]
      | stage child announces inner =>
        simp only [Option.map_some, silencedEntry, Option.bind_assoc, ih, and_self]

end Subscribers

namespace Accounts

variable {β : Type} {callAt? : List Nat → Option (Call β)} (keep : Call β → Option (Call α))

theorem filterMap {places : List (List Nat)} {calls : List (Call β)}
    (accounts : Accounts callAt? places calls) :
    Accounts (fun p => (callAt? p).bind keep)
      (places.filter fun p => ((callAt? p).bind keep).isSome) (calls.filterMap keep) :=
  iff_enumerates.mpr ((iff_enumerates.mp accounts).filterMap keep)

theorem mem_of_faithful {places : List (List Nat)} {calls : List (Call β)} {place : List Nat}
    {c : Call β} (faithful : calls.map some = places.map callAt?) (listed : place ∈ places)
    (called : callAt? place = some c) : c ∈ calls := by
  have kept : some c ∈ calls.map some := by
    rw [faithful, ← called]
    exact List.mem_map_of_mem listed
  simpa using kept

theorem mem_calls {places : List (List Nat)} {calls : List (Call β)} {place : List Nat}
    {c : Call β} (accounts : Accounts callAt? places calls) (called : callAt? place = some c) :
    c ∈ calls :=
  mem_of_faithful accounts.faithful ((accounts.complete place).mpr (by rw [called]; rfl)) called

theorem exists_split {places : List (List Nat)} {before after : List (Call β)} {c : Call β}
    (accounts : Accounts callAt? places (before ++ c :: after)) :
    ∃ ps place qs, places = ps ++ place :: qs ∧ callAt? place = some c ∧
      before.map some = ps.map callAt? ∧ (∀ p, p ∈ ps → p < place) ∧
      (∀ p, p ∈ qs → place < p) ∧
      ∀ earlier, earlier < place → ∀ d, callAt? earlier = some d → d ∈ before := by
  have faithful := accounts.faithful
  rw [List.map_append, List.map_cons] at faithful
  obtain ⟨ps, rest, rfl, here, there⟩ := List.map_eq_append_iff.mp faithful.symm
  obtain ⟨place, qs, rfl, called, -⟩ := List.map_eq_cons_iff.mp there
  obtain ⟨-, ordered, apart⟩ := List.pairwise_append.mp accounts.ordered
  have above := (List.pairwise_cons.mp ordered).1
  refine ⟨ps, place, qs, rfl, called, here.symm, ?_, above, ?_⟩
  · intro p listed
    exact apart p listed place (List.mem_cons_self ..)
  · intro earlier lower d made
    have listed := (accounts.complete earlier).mpr (by rw [made]; rfl)
    rcases List.mem_append.mp listed with inside | behind
    · exact mem_of_faithful here.symm inside made
    · rcases List.mem_cons.mp behind with rfl | behind
      · exact absurd lower (List.lt_irrefl _)
      · exact absurd lower (List.lt_asymm (above earlier behind))

end Accounts

namespace Stage

variable (s : Stage α) (bs : Bytes)

def silenced : Stage (α ⊕ String) := ⟨s.format, s.subscribers.silenced⟩

def withoutPanics : Stage α := ⟨s.format, s.subscribers.withoutPanics⟩

/-- The call that octets make at a place, if the root and all stages on the way accept what they
get. -/
def heardAt? (place : List Nat) : Option (Call α) :=
  (Frame.parse s.format bs).toOption.bind fun f => s.subscribers.callAt? f place

def panicAt? (place : List Nat) : Option String :=
  (Frame.parse s.format bs).toOption.bind fun f => s.subscribers.panicAt? f place

/-- The first place in the order of the walk at which a subscriber panics, and its message. -/
structure FirstPanic (place : List Nat) (message : String) : Prop where
  panics : s.panicAt? bs place = some message
  first : ∀ earlier, earlier < place → s.panicAt? bs earlier = none

theorem heardAt?_silenced (place : List Nat) :
    (s.silenced.heardAt? bs place).bind Call.heard? = s.heardAt? bs place ∧
      (s.silenced.heardAt? bs place).bind Call.mark? = s.panicAt? bs place := by
  simp only [heardAt?, panicAt?, silenced, Option.bind_assoc, Subscribers.callAt?_silenced,
    and_self]

theorem cut_parse :
    (s.parse bs).Cut (s.silenced.parse bs) ∧
      ∃ outcome, (s.silenced.parse bs).result = .ok outcome :=
  Run.cut_congruence.enter s.subscribers.cut_silenced s.format s.subscribers.count
    s.subscribers.silenced.count none bs

theorem alike_parse : (s.withoutPanics.parse bs).Alike (s.silenced.parse bs) :=
  Run.alike_congruence.enter s.subscribers.alike_withoutPanics s.format
    s.subscribers.withoutPanics.count s.subscribers.silenced.count none bs

variable {s} in
theorem exists_accounts_parse (quiet : s.subscribers.Quiet) :
    ∃ places, Accounts (s.heardAt? bs) places (s.parse bs).calls := by
  rw [calls_parse quiet]
  cases parsed : Frame.parse s.format bs with
  | error e =>
    have silent : s.heardAt? bs = fun _ => none := by
      funext place
      simp [heardAt?, parsed, Except.toOption]
    rw [silent]
    exact ⟨[], .silent⟩
  | ok f =>
    have here : s.heardAt? bs = s.subscribers.callAt? f := by
      funext place
      simp [heardAt?, parsed, Except.toOption]
    rw [here]
    obtain ⟨places, accounts⟩ := Subscribers.exists_accounts quiet f
    exact ⟨places, by simpa [Except.toOption] using accounts⟩

/-- The calls of a tree that panics: of the calls that the silent tree makes, those at the places
before one. -/
structure CallsBefore (place : List Nat) (before later : List (List Nat)) : Prop where
  accounts : Accounts (s.heardAt? bs) (before ++ later) (Call.heard (s.silenced.parse bs).calls)
  before_lt : ∀ p, p ∈ before → p < place
  lt_later : ∀ p, p ∈ later → place < p
  calls_eq : (s.parse bs).calls.map some = before.map (s.heardAt? bs)

/-- A walk ends at the first place with a panic, if there is one. -/
theorem parse_cases :
    (∃ place message, s.FirstPanic bs place message ∧ (s.parse bs).result = .error message ∧
      ∃ before later, s.CallsBefore bs place before later) ∨
    ((∀ place, s.panicAt? bs place = none) ∧
      (s.parse bs).result = (s.silenced.parse bs).result ∧
      (s.parse bs).calls = Call.heard (s.silenced.parse bs).calls) := by
  obtain ⟨places, accounts⟩ := exists_accounts_parse (s := s.silenced) bs
    s.subscribers.quiet_silenced
  have heard := accounts.filterMap Call.heard?
  simp only [heardAt?_silenced] at heard
  obtain ⟨cut, -⟩ := s.cut_parse bs
  cases cut with
  | completes unmarked calls_eq result_eq =>
    refine .inr ⟨fun place => ?_, result_eq, calls_eq⟩
    rw [← (s.heardAt?_silenced bs _).2]
    cases called : s.silenced.heardAt? bs place with
    | none => rfl
    | some c => exact unmarked c (accounts.mem_calls called)
  | unwinds before after message f split unmarked calls_eq result_eq =>
    rw [split] at accounts
    obtain ⟨ps, place, qs, rfl, mark, here, below, above, earliest⟩ := accounts.exists_split
    -- The mark itself is no call of the tree, so its place is not among those that are kept.
    have unheard : ¬ (s.heardAt? bs place).isSome := by
      rw [← (s.heardAt?_silenced bs _).1, mark]
      exact Bool.false_ne_true
    refine .inl ⟨place, message, ⟨?_, fun earlier lower => ?_⟩, result_eq,
      ps.filter fun p => (s.heardAt? bs p).isSome, qs.filter fun p => (s.heardAt? bs p).isSome,
      ?_, ?_, ?_, ?_⟩
    · rw [← (s.heardAt?_silenced bs _).2, mark]
      rfl
    · rw [← (s.heardAt?_silenced bs _).2]
      cases called : s.silenced.heardAt? bs earlier with
      | none => rfl
      | some c => exact unmarked c (earliest earlier lower c called)
    · have without : (place :: qs).filter (fun p => (s.heardAt? bs p).isSome) =
          qs.filter fun p => (s.heardAt? bs p).isSome := List.filter_cons_of_neg unheard
      rw [List.filter_append, without] at heard
      exact heard
    · intro p listed
      exact below p (List.mem_filter.mp listed).1
    · intro p listed
      exact above p (List.mem_filter.mp listed).1
    · have made := Enumerates.map_filterMap Call.heard? here
      simp only [heardAt?_silenced] at made
      rw [calls_eq]
      exact made

section Panic

variable {s bs} {place : List Nat} {message : String}

theorem FirstPanic.unique {other : List Nat} {text : String}
    (here : s.FirstPanic bs place message) (there : s.FirstPanic bs other text) :
    place = other := by
  rcases Std.lt_trichotomy place other with before | same | behind
  · have none := there.first place before
    rw [here.panics] at none
    cases none
  · exact same
  · have none := here.first other behind
    rw [there.panics] at none
    cases none

theorem FirstPanic.stops (here : s.FirstPanic bs place message) :
    (s.parse bs).result = .error message ∧
      ∃ before later, s.CallsBefore bs place before later := by
  rcases s.parse_cases bs with ⟨other, text, there, stops, calls⟩ | ⟨silent, -, -⟩
  · obtain rfl := here.unique there
    obtain rfl : message = text := Option.some.inj (here.panics.symm.trans there.panics)
    exact ⟨stops, calls⟩
  · have panics := here.panics
    rw [silent place] at panics
    cases panics

theorem exists_firstPanic (fails : (s.parse bs).result = .error message) :
    ∃ place, s.FirstPanic bs place message := by
  rcases s.parse_cases bs with ⟨place, text, first, stops, -⟩ | ⟨-, result_eq, -⟩
  · rw [stops] at fails
    cases fails
    exact ⟨place, first⟩
  · obtain ⟨-, outcome, ends⟩ := s.cut_parse bs
    rw [result_eq, ends] at fails
    cases fails

theorem exists_error (panics : s.panicAt? bs place = some message) :
    ∃ text, (s.parse bs).result = .error text := by
  rcases s.parse_cases bs with ⟨-, text, -, stops, -⟩ | ⟨silent, -, -⟩
  · exact ⟨text, stops⟩
  · rw [silent place] at panics
    cases panics

theorem parse_of_silent (silent : ∀ place, s.panicAt? bs place = none) :
    (s.parse bs).result = (s.withoutPanics.parse bs).result ∧
      (s.parse bs).calls = (s.withoutPanics.parse bs).calls := by
  have alike := s.alike_parse bs
  rcases s.parse_cases bs with ⟨place, message, first, -, -⟩ | ⟨-, result_eq, calls_eq⟩
  · have panics := first.panics
    rw [silent place] at panics
    cases panics
  · exact ⟨result_eq.trans alike.result_eq, calls_eq.trans alike.calls_eq⟩

end Panic

/-- A parse unwinds if and only if the root and all stages on the way to some panicking subscriber
accept what they get, and with the message of the first one. The calls up to there are those that
the tree makes before that place if its panicking subscribers are silent. If none is reached, the
parse is that of the tree without them. -/
theorem parse_unwinds :
    ((∃ message, (s.parse bs).result = .error message) ↔
      ∃ place, (s.panicAt? bs place).isSome) ∧
    (∀ message, (s.parse bs).result = .error message ↔
      ∃ place, s.FirstPanic bs place message) ∧
    (∀ place message, s.FirstPanic bs place message →
      ∃ before later, s.CallsBefore bs place before later) ∧
    ((∀ place, s.panicAt? bs place = none) →
      (s.parse bs).result = (s.withoutPanics.parse bs).result ∧
        (s.parse bs).calls = (s.withoutPanics.parse bs).calls) := by
  refine ⟨⟨?_, ?_⟩, fun message => ⟨exists_firstPanic, ?_⟩, fun _ _ first => first.stops.2,
    parse_of_silent⟩
  · rintro ⟨message, fails⟩
    obtain ⟨place, first⟩ := exists_firstPanic fails
    exact ⟨place, by rw [first.panics]; rfl⟩
  · rintro ⟨place, reached⟩
    obtain ⟨message, panics⟩ := Option.isSome_iff_exists.mp reached
    exact exists_error panics
  · rintro ⟨place, first⟩
    exact first.stops.1

def panicInside : Stage Nat where
  format := Sample.Outer.format
  subscribers := .callback 1 (.stage Sample.Inner.format Sample.Inner.inOuter.announces
    (.callback 2 (.panics "inside" (.callback 3 .done))) (.callback 4 .done))

def acceptedInside : Bytes := [0xA5, 0x01, 0x00, 0x02, 0x07, 0x00]

def refusedInside : Bytes := [0xA5, 0x01, 0x00, 0x02, 0x00, 0x00]

theorem firstPanic_panicInside : panicInside.FirstPanic acceptedInside [1, 1] "inside" where
  panics := rfl
  first earlier lower := by
    match earlier with
    | [] => rfl
    | 0 :: below => rfl
    | [1] => rfl
    | 1 :: 0 :: below => rfl
    | 1 :: (j + 1) :: below =>
      simp [List.cons_lt_cons_iff] at lower
    | (i + 2) :: below =>
      simp [List.cons_lt_cons_iff] at lower

theorem silent_panicInside (place : List Nat) :
    panicInside.panicAt? refusedInside place = none := by
  match place with
  | [] => rfl
  | 0 :: below => rfl
  | 1 :: below => rfl
  | 2 :: below => rfl
  | (i + 3) :: below => rfl

theorem labels_panicInside :
    (panicInside.parse acceptedInside).calls.map (·.label) = [1, 2] ∧
      (panicInside.parse refusedInside).calls.map (·.label) = [1, 4] := by
  decide +kernel

theorem parse_unwinds_inside :
    (panicInside.parse acceptedInside).result = .error "inside" ∧
      (∃ before later, panicInside.CallsBefore acceptedInside [1, 1] before later) ∧
      (panicInside.parse acceptedInside).calls.map (·.label) = [1, 2] ∧
      (panicInside.parse refusedInside).result =
        (panicInside.withoutPanics.parse refusedInside).result ∧
      (panicInside.parse refusedInside).calls.map (·.label) = [1, 4] := by
  obtain ⟨-, stops, calls, -⟩ := parse_unwinds panicInside acceptedInside
  obtain ⟨-, -, -, goes⟩ := parse_unwinds panicInside refusedInside
  exact ⟨(stops "inside").mpr ⟨_, firstPanic_panicInside⟩, calls _ _ firstPanic_panicInside,
    labels_panicInside.1, (goes silent_panicInside).1, labels_panicInside.2⟩

end Stage

end PacketLayers
