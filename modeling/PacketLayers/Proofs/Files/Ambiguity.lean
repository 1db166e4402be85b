import PacketLayers.Proofs.Files.Matching

namespace PacketLayers

theorem Location.walk_onward (loc : Location) {pieces : List String}
    (onward : ∀ p ∈ pieces, p ≠ "..") :
    loc.walk pieces = loc ++ pieces.filter fun p => !Path.saysNothing p := by
  induction pieces generalizing loc with
  | nil => exact (List.append_nil loc).symm
  | cons piece pieces ih =>
    obtain ⟨forward, onward⟩ := List.forall_mem_cons.mp onward
    cases speaks : Path.saysNothing piece with
    | true =>
      have stays : loc.step piece = loc := if_pos speaks
      rw [walk, List.foldl_cons, stays, List.filter_cons_of_neg (by simp [speaks])]
      exact ih loc onward
    | false =>
      rw [walk, List.foldl_cons, step_name loc speaks forward,
        List.filter_cons_of_pos (by simp [speaks])]
      exact (ih (loc ++ [piece]) onward).trans (List.append_cons loc piece _).symm

namespace Glob

/-- Whether no dots lead back behind a wildcard: none that are written there, and none that a
wildcard may stand for. -/
def Straight : Bool → List (List Token) → Prop
  | _, [] => True
  | wild, tokens :: rest =>
    match literal? tokens with
    | some name => (wild = true → name ≠ "..") ∧ Straight wild rest
    | none => tokens.head? ≠ some (.char '.') ∧ Straight true rest

/-- How many times components are `**`. Adjacent ones count once. -/
def starRuns : Bool → List (List Token) → Nat
  | _, [] => 0
  | behind, tokens :: rest =>
    if isRecursive tokens then (if behind then 0 else 1) + starRuns true rest
    else starRuns false rest

variable {tokens : List Token} {rest components : List (List Token)} {way other : Way}
variable {behind : Bool} {piece : String}

theorem straight_literal {wild : Bool} {name : String} (literal : literal? tokens = some name) :
    Straight wild (tokens :: rest) ↔ (wild = true → name ≠ "..") ∧ Straight wild rest := by
  rw [Straight, literal]

theorem straight_wildcard {wild : Bool} (wildcard : literal? tokens = none) :
    Straight wild (tokens :: rest) ↔
      tokens.head? ≠ some (.char '.') ∧ Straight true rest := by
  rw [Straight, wildcard]

instance decidableStraight (wild : Bool) :
    (components : List (List Token)) → Decidable (Straight wild components)
  | [] => .isTrue trivial
  | tokens :: rest =>
    match literal : literal? tokens with
    | some _ =>
      have := decidableStraight wild rest
      decidable_of_iff _ (straight_literal literal).symm
    | none =>
      have := decidableStraight true rest
      decidable_of_iff _ (straight_wildcard literal).symm

theorem straight_recursive {wild : Bool} (recursive : isRecursive tokens = true) :
    Straight wild (tokens :: rest) ↔ Straight true rest := by
  obtain rfl : tokens = [.recursive] := by simpa [isRecursive] using recursive
  exact (straight_wildcard rfl).trans ⟨And.right, fun straight => ⟨by decide, straight⟩⟩

theorem Fits.speaks (fits : Fits tokens piece) (wildcard : literal? tokens = none)
    (undotted : tokens.head? ≠ some (Token.char '.')) :
    Path.saysNothing piece = false ∧ piece ≠ ".." := by
  have some : piece ≠ "" := fun none => by
    rw [fits.filled none] at wildcard
    cases wildcard
  have plain : Workspace.isDots piece = false :=
    Bool.eq_false_iff.mpr fun dots => undotted (fits.dotted dots)
  obtain ⟨dot, forward⟩ : piece ≠ "." ∧ piece ≠ ".." := by simpa [Workspace.isDots] using plain
  exact ⟨by simp [Path.saysNothing, some, dot], forward⟩

theorem StandsFor.onward (stands : StandsFor behind components way)
    (straight : Straight true components) : ∀ p ∈ way.flatten, p ≠ ".." := by
  induction stands with
  | done => exact fun _ member => by cases member
  | @one _ tokens _ piece later plain fits listed stands ih =>
    refine List.forall_mem_cons.mpr ?_
    cases literal : literal? tokens with
    | some name =>
      obtain ⟨forward, straight⟩ := (straight_literal literal).mp straight
      rw [(fits_literal_iff literal).mp fits]
      exact ⟨forward rfl, ih straight⟩
    | none =>
      obtain ⟨undotted, straight⟩ := (straight_wildcard literal).mp straight
      exact ⟨(fits.speaks literal undotted).2, ih straight⟩
  | many recursive names once stands ih =>
    intro p member
    rcases List.mem_append.mp member with member | member
    · exact (names p member).forward
    · exact ih ((straight_recursive recursive).mp straight) p member

def spoken (way : Way) : List String := way.flatten.filter fun p => !Path.saysNothing p

theorem spoken_cons (pieces : List String) (later : Way) :
    spoken (pieces :: later) = pieces.filter (fun p => !Path.saysNothing p) ++ spoken later := by
  rw [spoken, List.flatten_cons, List.filter_append]
  rfl

theorem spoken_names {pieces : List String} (names : ∀ p ∈ pieces, Path.IsName p) (later : Way) :
    spoken (pieces :: later) = pieces ++ spoken later := by
  rw [spoken_cons, List.filter_eq_self.mpr fun p member => by simp [(names p member).speaks]]

theorem length_spoken (first : StandsFor behind components way)
    (second : StandsFor behind components other) (straight : Straight true components)
    (none : starRuns behind components = 0) : (spoken way).length = (spoken other).length := by
  induction first generalizing other with
  | done =>
    cases second
    rfl
  | @one _ tokens rest piece later plain fits listed stands ih =>
    obtain ⟨piece', later', rfl, fits', -, stands'⟩ := second.of_plain plain
    have none : starRuns false rest = 0 := by simpa [starRuns, plain] using none
    rw [spoken_cons, spoken_cons, List.length_append, List.length_append]
    cases literal : literal? tokens with
    | some name =>
      obtain ⟨-, straight⟩ := (straight_literal literal).mp straight
      rw [(fits_literal_iff literal).mp fits, (fits_literal_iff literal).mp fits',
        ih stands' straight none]
    | none =>
      obtain ⟨undotted, straight⟩ := (straight_wildcard literal).mp straight
      simp [(fits.speaks literal undotted).1, (fits'.speaks literal undotted).1,
        ih stands' straight none]
  | @many behind _ rest pieces later recursive names once stands ih =>
    obtain ⟨pieces', later', rfl, -, once', stands'⟩ := second.of_recursive recursive
    rw [starRuns, if_pos recursive] at none
    cases behind with
    | false => simp at none
    | true =>
      rw [once rfl, once' rfl, spoken_cons, spoken_cons]
      have onward := (straight_recursive recursive).mp straight
      simpa using ih stands' onward (by simpa using none)

theorem eq_of_spoken (first : StandsFor behind components way)
    (second : StandsFor behind components other) (straight : Straight true components)
    (single : starRuns behind components ≤ 1) (same : spoken way = spoken other) : way = other := by
  induction first generalizing other with
  | done =>
    cases second
    rfl
  | @one _ tokens rest piece later plain fits listed stands ih =>
    obtain ⟨piece', later', rfl, fits', -, stands'⟩ := second.of_plain plain
    have single : starRuns false rest ≤ 1 := by simpa [starRuns, plain] using single
    rw [spoken_cons, spoken_cons] at same
    cases literal : literal? tokens with
    | some name =>
      obtain ⟨-, straight⟩ := (straight_literal literal).mp straight
      rw [(fits_literal_iff literal).mp fits, (fits_literal_iff literal).mp fits'] at same ⊢
      rw [ih stands' straight single (List.append_cancel_left same)]
    | none =>
      obtain ⟨undotted, straight⟩ := (straight_wildcard literal).mp straight
      simp only [List.filter_cons, (fits.speaks literal undotted).1,
        (fits'.speaks literal undotted).1, Bool.not_false, if_true, List.filter_nil,
        List.cons_append, List.nil_append, List.cons.injEq] at same
      rw [same.1, ih stands' straight single same.2]
  | @many behind _ rest pieces later recursive names once stands ih =>
    obtain ⟨pieces', later', rfl, names', once', stands'⟩ := second.of_recursive recursive
    have straight := (straight_recursive recursive).mp straight
    rw [starRuns, if_pos recursive] at single
    rw [spoken_names names, spoken_names names'] at same
    cases behind with
    | true =>
      rw [once rfl, once' rfl] at same ⊢
      rw [ih stands' straight (by simpa using single) (by simpa using same)]
    | false =>
      -- The only `**` is here, so what is behind it says as much on both ways.
      have none : starRuns true rest = 0 := by
        simp only [Bool.false_eq_true, if_false] at single
        omega
      have lengths := length_spoken stands stands' straight none
      obtain ⟨begins, ends⟩ := List.append_inj' same lengths
      rw [begins, ih stands' straight (by omega) ends]

/-- Behind the same directories ways to the same location are the same. What is written before the
first wildcard leads to one directory. -/
theorem eq_of_walk {loc : Location} (first : StandsFor behind components way)
    (second : StandsFor behind components other) (straight : Straight false components)
    (single : starRuns behind components ≤ 1)
    (same : loc.walk way.flatten = loc.walk other.flatten) : way = other := by
  induction components generalizing behind way other loc with
  | nil =>
    cases first
    cases second
    rfl
  | cons tokens rest ih =>
    cases literal : literal? tokens with
    | none =>
      have straight : Straight true (tokens :: rest) := (straight_wildcard literal).mpr
        ((straight_wildcard literal).mp straight)
      rw [Location.walk_onward loc (first.onward straight),
        Location.walk_onward loc (second.onward straight)] at same
      exact eq_of_spoken first second straight single (List.append_cancel_left same)
    | some name =>
      have plain := plain_of_literal literal
      obtain ⟨piece, later, rfl, fits, -, stands⟩ := first.of_plain plain
      obtain ⟨piece', later', rfl, fits', -, stands'⟩ := second.of_plain plain
      obtain rfl := (fits_literal_iff literal).mp fits
      obtain rfl := (fits_literal_iff literal).mp fits'
      obtain ⟨-, straight⟩ := (straight_literal literal).mp straight
      have single : starRuns false rest ≤ 1 := by simpa [starRuns, plain] using single
      rw [ih stands stands' straight single same]

/-- A pattern with one `**` at most, and without dots that lead back behind a wildcard, matches each
file in one way. -/
theorem Pattern.oneWay_of_straight {w : Workspace} (proper : w.Proper) {p : Pattern}
    (straight : Straight false p.components) (single : starRuns false p.components ≤ 1) :
    p.OneWay w := by
  intro way way' site site' first second same
  obtain ⟨located, short⟩ := p.located_origin proper.here
  have leads := (Search.located_of_along? proper located short first.stands first.leads).2.2
  have leads' := (Search.located_of_along? proper located short second.stands second.leads).2.2
  have walked : (p.origin w).location.walk way.flatten = (p.origin w).location.walk way'.flatten :=
    (Workspace.walk_of_follow leads).symm.trans (same.trans (Workspace.walk_of_follow leads'))
  exact eq_of_walk first.stands second.stands straight single walked

end Glob

end PacketLayers
