import PacketLayers.Proofs.Decode.Walk

/-!
The places of subscribers in a decode tree. A place is a list of registration numbers, one for
each stage on the way from the root; what happens in a walk is enumerated by the places at which it
happens. Main statement: a parse calls the callbacks whose place it can reach, each of them once
and in the lexicographic order of the places.
-/
namespace PacketLayers

/-- One registration at a stage. A chained stage is set up by registrations of its own. -/
inductive Registration (α : Type) where
  | callback (label : α)
  | chain (child : Format) (announces : (parent : Frame) → Bool) (setup : List (Registration α))

/-- What stands in one place of a stage. -/
inductive Subscriber (α : Type) where
  | callback (label : α)
  | panics (message : String)
  | stage (child : Format) (announces : (parent : Frame) → Bool) (inner : Subscribers α)

namespace Registration

variable {α : Type}

/-- The call that a frame makes at a place, if all stages on the way accept what they get. -/
def callAt? (setup : List (Registration α)) (f : Frame) : (place : List Nat) → Option (Call α)
  | [] => none
  | i :: below =>
    match setup[i]? with
    | some (.callback label) => if below = [] then some ⟨label, f⟩ else none
    | some (.chain child announces inner) =>
      (received? child announces f).bind fun g => callAt? inner g below
    | none => none

end Registration

/-- Places that account for calls: they are in order, they are all places with a call, and theirs
are the calls made. -/
structure Accounts {α : Type} (callAt? : List Nat → Option (Call α)) (places : List (List Nat))
    (calls : List (Call α)) : Prop where
  ordered : places.Pairwise (· < ·)
  complete : ∀ place, place ∈ places ↔ (callAt? place).isSome
  faithful : calls.map some = places.map callAt?

namespace Accounts

def advance : List Nat → List Nat
  | [] => []
  | i :: below => (i + 1) :: below

theorem advance_lt {p q : List Nat} (h : p < q) : advance p < advance q := by
  cases q with
  | nil => exact absurd h (List.not_lt_nil p)
  | cons j q =>
    cases p with
    | nil => exact List.nil_lt_cons _ _
    | cons i p =>
      rcases List.cons_lt_cons_iff.mp h with less | ⟨rfl, less⟩
      · exact List.cons_lt_cons_iff.mpr (.inl (Nat.succ_lt_succ less))
      · exact List.cons_lt_cons_iff.mpr (.inr ⟨rfl, less⟩)

end Accounts

/-- Places that enumerate items of any kind: they are in order, they are all places with an item,
and theirs are the items. -/
structure Enumerates {β : Type} (at? : List Nat → Option β) (places : List (List Nat))
    (items : List β) : Prop where
  ordered : places.Pairwise (· < ·)
  complete : ∀ place, place ∈ places ↔ (at? place).isSome
  faithful : items.map some = places.map at?

namespace Enumerates

open Accounts (advance advance_lt)

variable {β γ : Type} {at? here later : List Nat → Option β}

theorem silent : Enumerates (fun _ => (none : Option β)) [] [] where
  ordered := .nil
  complete := by simp
  faithful := rfl

theorem nil_notMem {places : List (List Nat)} {items : List β}
    (enumerates : Enumerates at? places items) (root : at? [] = none) : [] ∉ places := by
  intro listed
  simpa [root] using (enumerates.complete []).mp listed

theorem headed {places : List (List Nat)} {items : List β} (b : β) (root : at? [] = none)
    (below : Enumerates at? places items) :
    Enumerates (fun place => if place = [] then some b else at? place) ([] :: places)
      (b :: items) where
  ordered := by
    refine List.pairwise_cons.mpr ⟨fun place listed => ?_, below.ordered⟩
    cases place with
    | nil => exact absurd listed (below.nil_notMem root)
    | cons i place => exact List.nil_lt_cons _ _
  complete place := by
    cases place with
    | nil => simp
    | cons i place => simpa using below.complete (i :: place)
  faithful := by
    have longer : places.map (fun place => if place = [] then some b else at? place) =
        places.map at? := by
      refine List.map_congr_left fun place listed => if_neg ?_
      rintro rfl
      exact below.nil_notMem root listed
    rw [List.map_cons, List.map_cons, longer, below.faithful, if_pos rfl]

theorem single (b : β) : Enumerates (fun below => if below = [] then some b else none) [[]] [b] :=
  headed b rfl silent

section Behind

variable {ps qs : List (List Nat)}

theorem zero_cons_mem_behind_iff {below : List Nat} :
    0 :: below ∈ ps.map (0 :: ·) ++ qs.map advance ↔ below ∈ ps := by
  constructor
  · intro listed
    rcases List.mem_append.mp listed with first | rest
    · obtain ⟨p, hp, he⟩ := List.mem_map.mp first
      cases he
      exact hp
    · obtain ⟨q, -, he⟩ := List.mem_map.mp rest
      cases q <;> cases he
  · intro hp
    exact List.mem_append_left _ (List.mem_map.mpr ⟨below, hp, rfl⟩)

variable (inhabited : [] ∉ qs)
include inhabited

theorem ordered_behind (hs : ps.Pairwise (· < ·)) (ls : qs.Pairwise (· < ·)) :
    (ps.map (0 :: ·) ++ qs.map advance).Pairwise (· < ·) := by
  refine List.pairwise_append.mpr ⟨?_, ?_, ?_⟩
  · refine List.pairwise_map.mpr (hs.imp fun h => ?_)
    exact List.cons_lt_cons_iff.mpr (.inr ⟨rfl, h⟩)
  · exact List.pairwise_map.mpr (ls.imp advance_lt)
  · intro a ha b hb
    obtain ⟨p, -, rfl⟩ := List.mem_map.mp ha
    obtain ⟨q, hq, rfl⟩ := List.mem_map.mp hb
    cases q with
    | nil => exact absurd hq inhabited
    | cons i below => exact List.cons_lt_cons_iff.mpr (.inl (Nat.succ_pos i))

theorem nil_notMem_behind : [] ∉ ps.map (0 :: ·) ++ qs.map advance := by
  intro listed
  rcases List.mem_append.mp listed with first | rest
  · obtain ⟨p, -, hp⟩ := List.mem_map.mp first
    cases hp
  · obtain ⟨q, hq, he⟩ := List.mem_map.mp rest
    cases q with
    | nil => exact absurd hq inhabited
    | cons i below => cases he

theorem succ_cons_mem_behind_iff {i : Nat} {below : List Nat} :
    (i + 1) :: below ∈ ps.map (0 :: ·) ++ qs.map advance ↔ i :: below ∈ qs := by
  constructor
  · intro listed
    rcases List.mem_append.mp listed with first | rest
    · obtain ⟨p, -, he⟩ := List.mem_map.mp first
      cases he
    · obtain ⟨q, hq, he⟩ := List.mem_map.mp rest
      cases q with
      | nil => exact absurd hq inhabited
      | cons j below =>
        cases he
        exact hq
  · intro hq
    exact List.mem_append_right _ (List.mem_map.mpr ⟨i :: below, hq, rfl⟩)

end Behind

theorem behind {ps qs : List (List Nat)} {xs ys : List β} (root : at? [] = none)
    (first : ∀ below, at? (0 :: below) = here below)
    (rest : ∀ i below, at? ((i + 1) :: below) = later (i :: below)) (start : later [] = none)
    (hs : Enumerates here ps xs) (ls : Enumerates later qs ys) :
    Enumerates at? (ps.map (0 :: ·) ++ qs.map advance) (xs ++ ys) := by
  have inhabited : [] ∉ qs := ls.nil_notMem start
  -- A place is told by its first number: zero is the first registration, others are behind it.
  refine ⟨ordered_behind inhabited hs.ordered ls.ordered, fun place => ?_, ?_⟩
  · match place with
    | [] => simp [nil_notMem_behind inhabited, root]
    | 0 :: below => rw [zero_cons_mem_behind_iff, first, hs.complete]
    | (i + 1) :: below => rw [succ_cons_mem_behind_iff inhabited, rest, ls.complete]
  · simp only [List.map_append, List.map_map, hs.faithful, ls.faithful]
    congr 1
    · exact List.map_congr_left fun p _ => (first p).symm
    · refine List.map_congr_left fun q hq => ?_
      cases q with
      | nil => exact absurd hq inhabited
      | cons i below => exact (rest i below).symm

/-! ### Some of the items -/

theorem map_filterMap (keep : β → Option γ) {places : List (List Nat)} {items : List β}
    (faithful : items.map some = places.map at?) :
    (items.filterMap keep).map some =
      (places.filter fun p => ((at? p).bind keep).isSome).map fun p =>
        (at? p).bind keep := by
  induction items generalizing places with
  | nil =>
    cases places with
    | nil => rfl
    | cons p places => cases faithful
  | cons c items ih =>
    cases places with
    | nil => cases faithful
    | cons p places =>
      obtain ⟨here, later⟩ := List.cons.inj faithful
      have kept : (at? p).bind keep = keep c := by rw [← here, Option.bind_some]
      cases found : keep c with
      | none =>
        rw [List.filterMap_cons_none found, List.filter_cons_of_neg (by simp [kept, found])]
        exact ih later
      | some d =>
        rw [List.filterMap_cons_some found, List.filter_cons_of_pos (by simp [kept, found]),
          List.map_cons, List.map_cons, kept, found, ih later]

theorem filterMap (keep : β → Option γ) {places : List (List Nat)} {items : List β}
    (enumerates : Enumerates at? places items) :
    Enumerates (fun p => (at? p).bind keep)
      (places.filter fun p => ((at? p).bind keep).isSome) (items.filterMap keep) where
  ordered := enumerates.ordered.filter _
  complete p := by
    rw [List.mem_filter]
    constructor
    · exact And.right
    · intro kept
      refine ⟨(enumerates.complete p).mpr ?_, kept⟩
      cases called : at? p with
      | none =>
        rw [called] at kept
        cases kept
      | some c => rfl
  faithful := map_filterMap keep enumerates.faithful

end Enumerates

namespace Accounts

variable {α : Type} {callAt? here later : List Nat → Option (Call α)}
  {places ps qs : List (List Nat)} {calls cs ds : List (Call α)}

theorem iff_enumerates :
    Accounts callAt? places calls ↔ Enumerates callAt? places calls :=
  ⟨fun ⟨ordered, complete, faithful⟩ => ⟨ordered, complete, faithful⟩,
    fun ⟨ordered, complete, faithful⟩ => ⟨ordered, complete, faithful⟩⟩

theorem silent : Accounts (fun _ => (none : Option (Call α))) [] [] :=
  iff_enumerates.mpr .silent

theorem single (c : Call α) :
    Accounts (fun below => if below = [] then some c else none) [[]] [c] :=
  iff_enumerates.mpr (.single c)

theorem behind (root : callAt? [] = none) (first : ∀ below, callAt? (0 :: below) = here below)
    (rest : ∀ i below, callAt? ((i + 1) :: below) = later (i :: below)) (start : later [] = none)
    (hs : Accounts here ps cs) (ls : Accounts later qs ds) :
    Accounts callAt? (ps.map (0 :: ·) ++ qs.map advance) (cs ++ ds) :=
  iff_enumerates.mpr
    (.behind root first rest start (iff_enumerates.mp hs) (iff_enumerates.mp ls))

end Accounts

namespace Subscribers

variable {α : Type}

mutual

def register (s : Subscribers α) : List (Registration α) → Subscribers α
  | [] => s
  | r :: later => (s.accept r).register later

/-- Carries out one registration. A chained stage is complete before it takes its place. -/
def accept (s : Subscribers α) : Registration α → Subscribers α
  | .callback label => s.addCallback label
  | .chain child announces setup => s.chain child announces (register done setup)

end

def entries : Subscribers α → List (Subscriber α)
  | done => []
  | callback label next => .callback label :: next.entries
  | panics message next => .panics message :: next.entries
  | stage child announces inner next => .stage child announces inner :: next.entries

def callAt? (s : Subscribers α) (f : Frame) : (place : List Nat) → Option (Call α)
  | [] => none
  | i :: below =>
    match s.entries[i]? with
    | some (.callback label) => if below = [] then some ⟨label, f⟩ else none
    | some (.stage child announces inner) =>
      (received? child announces f).bind fun g => inner.callAt? g below
    | _ => none

theorem entries_append (s t : Subscribers α) : (s.append t).entries = s.entries ++ t.entries := by
  induction s with
  | done => rfl
  | callback label next ih => simp only [append, entries, ih, List.cons_append]
  | panics message next ih => simp only [append, entries, ih, List.cons_append]
  | stage child announces inner next _ ih => simp only [append, entries, ih, List.cons_append]

def subscriberOf : Registration α → Subscriber α
  | .callback label => .callback label
  | .chain child announces setup => .stage child announces (register done setup)

theorem entries_accept (s : Subscribers α) (r : Registration α) :
    (s.accept r).entries = s.entries ++ [subscriberOf r] := by
  cases r <;> exact entries_append _ _

theorem entries_register (s : Subscribers α) (setup : List (Registration α)) :
    (s.register setup).entries = s.entries ++ setup.map subscriberOf := by
  induction setup generalizing s with
  | nil => simp [register]
  | cons r later ih => simp [register, ih, entries_accept]

theorem callAt?_register (setup : List (Registration α)) (f : Frame) (place : List Nat) :
    (register done setup).callAt? f place = Registration.callAt? setup f place := by
  induction place generalizing setup f with
  | nil => rfl
  | cons i below ih =>
    simp only [callAt?, Registration.callAt?, entries_register, entries, List.nil_append,
      List.getElem?_map]
    cases setup[i]? with
    | none => rfl
    | some r =>
      cases r with
      | callback label => rfl
      | chain child announces inner => simp only [Option.map_some, subscriberOf, ih]

mutual

theorem Quiet.register {s : Subscribers α} (quiet : s.Quiet) :
    (setup : List (Registration α)) → (s.register setup).Quiet
  | [] => quiet
  | r :: later => (quiet.accept r).register later

theorem Quiet.accept {s : Subscribers α} (quiet : s.Quiet) :
    (r : Registration α) → (s.accept r).Quiet
  | .callback _ => quiet.append trivial
  | .chain _ _ setup =>
    quiet.append ⟨Quiet.register (s := done) trivial setup, trivial⟩

end

/-- A walk calls every callback that it can reach, once and in order. -/
theorem exists_accounts {s : Subscribers α} (quiet : s.Quiet) (f : Frame) :
    ∃ places, Accounts (s.callAt? f) places (s.deliver f).calls := by
  induction s generalizing f with
  | done =>
    refine ⟨[], .nil, fun place => ?_, rfl⟩
    cases place <;> simp [callAt?, entries]
  | callback label next ih =>
    obtain ⟨places, later⟩ := ih quiet f
    have all : Accounts ((callback label next).callAt? f) _ ([⟨label, f⟩] ++ _) :=
      .behind rfl (fun _ => rfl) (fun _ _ => rfl) rfl (.single ⟨label, f⟩) later
    exact ⟨_, all⟩
  | panics message next => exact quiet.elim
  | stage child announces inner next ihInner ih =>
    obtain ⟨places, later⟩ := ih quiet.2 f
    rw [calls_deliver_stage quiet.1]
    cases arrived : received? child announces f with
    | none =>
      refine ⟨_, .behind rfl (fun below => ?_) (fun _ _ => rfl) rfl .silent later⟩
      simp [callAt?, entries, arrived]
    | some g =>
      obtain ⟨below, here⟩ := ihInner quiet.1 g
      rw [Option.toList_some, List.flatMap_singleton]
      refine ⟨_, .behind rfl (fun below => ?_) (fun _ _ => rfl) rfl here later⟩
      simp [callAt?, entries, arrived]

end Subscribers

namespace Stage

variable {α : Type}

def callAt? (root : Format) (setup : List (Registration α)) (bs : Bytes) (place : List Nat) :
    Option (Call α) :=
  (Frame.parse root bs).toOption.bind fun f => Registration.callAt? setup f place

/-- A parse of a tree, however it was set up, calls a callback once if the root and all stages on
the way to it accept what they get, and not at all otherwise. The calls come in the order of the
places, and the outcome depends on the root alone. -/
theorem parse_accounts (root : Format) (setup : List (Registration α)) (bs : Bytes) :
    let run := (Stage.mk root (Subscribers.register .done setup)).parse bs
    (∃ places, Accounts (callAt? root setup bs) places run.calls) ∧
      run.result = .ok (.ofParse (Frame.parse root bs)) := by
  have quiet : (Subscribers.register .done setup).Quiet :=
    Subscribers.Quiet.register (s := .done) trivial setup
  refine ⟨?_, result_parse (s := ⟨root, _⟩) quiet bs⟩
  rw [calls_parse (s := ⟨root, _⟩) quiet bs]
  cases parsed : Frame.parse root bs with
  | error e =>
    have silent : callAt? root setup bs = fun _ => none := by
      funext place
      simp [callAt?, parsed, Except.toOption]
    rw [silent]
    exact ⟨[], .silent⟩
  | ok f =>
    have here : callAt? root setup bs = (Subscribers.register .done setup).callAt? f := by
      funext place
      simp [callAt?, parsed, Except.toOption, Subscribers.callAt?_register]
    rw [here]
    obtain ⟨places, h⟩ := Subscribers.exists_accounts quiet f
    exact ⟨places, by simpa [Except.toOption] using h⟩

end Stage

end PacketLayers
