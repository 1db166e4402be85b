import PacketLayers.Proofs.Files.Names
import PacketLayers.Proofs.Files.Tree

namespace PacketLayers

def Location.step (loc : Location) (piece : String) : Location :=
  if Path.saysNothing piece then loc
  else if piece == ".." then loc.dropLast
  else loc ++ [piece]

/-- Where pieces lead, if everything on the way is a directory. -/
def Location.walk (loc : Location) (pieces : List String) : Location :=
  pieces.foldl Location.step loc

namespace Location

theorem walk_append (loc : Location) (ps qs : List String) :
    loc.walk (ps ++ qs) = (loc.walk ps).walk qs := List.foldl_append

theorem walk_silent (loc : Location) {ps : List String}
    (silence : ∀ p ∈ ps, Path.saysNothing p = true) : loc.walk ps = loc := by
  induction ps generalizing loc with
  | nil => rfl
  | cons p ps ih =>
    have stays : loc.step p = loc := if_pos (silence p List.mem_cons_self)
    rw [walk, List.foldl_cons, stays]
    exact ih loc fun q member => silence q (List.mem_cons_of_mem p member)

theorem step_name (loc : Location) {name : String} (speaks : Path.saysNothing name = false)
    (forward : name ≠ "..") : loc.step name = loc ++ [name] := by
  simp [step, speaks, forward]

end Location

namespace Workspace

variable {w : Workspace} {loc found : Location} {piece : String} {pieces : List String}

structure Passes (w : Workspace) (loc : Location) (piece : String) : Prop where
  inside : w.isDirectory loc = true
  onward : Path.saysNothing piece = true ∨ piece = ".." ∨
    Path.isLongName piece = false ∧ (w.entry? (loc ++ [piece])).isSome = true

theorem follow_cons (passes : w.Passes loc piece) (rest : List String) :
    w.follow loc (piece :: rest) = w.follow (loc.step piece) rest := by
  obtain ⟨inside, onward⟩ := passes
  rw [follow, inside, Location.step]
  by_cases silent : Path.saysNothing piece = true
  · simp [silent]
  · by_cases back : piece = ".."
    · simp [back, Path.saysNothing]
    · obtain ⟨short, there⟩ := (onward.resolve_left silent).resolve_left back
      simp [silent, back, short, there]

theorem passes_of_follow (h : w.follow loc (piece :: pieces) = .ok found) :
    w.Passes loc piece := by
  unfold follow at h
  split at h
  · cases h
  · rename_i inside
    refine ⟨by simpa using inside, ?_⟩
    split at h
    · rename_i silent
      exact .inl silent
    · split at h
      · rename_i back
        exact .inr (.inl (by simpa using back))
      · split at h
        · cases h
        · rename_i short
          split at h
          · rename_i there
            exact .inr (.inr ⟨by simpa using short, there⟩)
          · cases h

theorem walk_of_follow (h : w.follow loc pieces = .ok found) : found = loc.walk pieces := by
  induction pieces generalizing loc with
  | nil => exact (Except.ok.inj h).symm
  | cons piece pieces ih =>
    rw [follow_cons (passes_of_follow h)] at h
    exact ih h

theorem follow_append {ps qs : List String} :
    w.follow loc (ps ++ qs) = .ok found ↔
      w.follow loc ps = .ok (loc.walk ps) ∧ w.follow (loc.walk ps) qs = .ok found := by
  induction ps generalizing loc with
  | nil => simp [follow, Location.walk]
  | cons piece ps ih =>
    constructor
    · intro h
      have passes := passes_of_follow h
      rw [List.cons_append, follow_cons passes] at h
      rw [follow_cons passes]
      exact ih.mp h
    · rintro ⟨above, below⟩
      have passes := passes_of_follow above
      rw [follow_cons passes] at above
      rw [List.cons_append, follow_cons passes]
      exact ih.mpr ⟨above, below⟩

theorem follow_silent (inside : w.isDirectory loc = true)
    (silence : ∀ p ∈ pieces, Path.saysNothing p = true) : w.follow loc pieces = .ok loc := by
  induction pieces with
  | nil => rfl
  | cons piece pieces ih =>
    have silent := silence piece List.mem_cons_self
    have stays : loc.step piece = loc := if_pos silent
    rw [follow_cons ⟨inside, .inl silent⟩, stays]
    exact ih fun q member => silence q (List.mem_cons_of_mem piece member)

/-- What is wrong with a path as a whole is all that keeps its pieces from being followed. -/
theorem resolve_eq_ok_iff {path : String} :
    w.resolve path = .ok loc ↔
      wholeFault? path = none ∧ w.follow (w.start path) (Path.bodyPieces path) = .ok loc := by
  unfold resolve
  cases wholeFault? path <;> simp

/-! ### Names looked up from the root -/

/-- Whether every name that pieces go through can be looked up by its path from the root. -/
def Near (loc : Location) : List String → Prop
  | [] => True
  | piece :: rest =>
    ((!Path.saysNothing piece && piece != "..") && isFar (loc ++ [piece]) rest) = false ∧
      Near (loc.step piece) rest

/-- Pieces that can be followed are followed from the root as well, unless a path gets too long. -/
theorem followWhole_of_follow (follows : w.follow loc pieces = .ok found) :
    Near loc pieces ∧ w.followWhole loc pieces = .ok found ∨
      ¬ Near loc pieces ∧ w.followWhole loc pieces = .error .nameTooLong := by
  induction pieces generalizing loc with
  | nil => exact .inl ⟨trivial, follows⟩
  | cons piece rest ih =>
    have passes := passes_of_follow follows
    rw [follow_cons passes] at follows
    rw [followWhole, follow_cons passes, follow, Near]
    cases far : (!Path.saysNothing piece && piece != "..") && isFar (loc ++ [piece]) rest with
    | true => exact .inr ⟨fun near => absurd near.1 (by decide), rfl⟩
    | false =>
      rcases ih follows with ⟨near, found⟩ | ⟨far, fails⟩
      · exact .inl ⟨⟨rfl, near⟩, found⟩
      · exact .inr ⟨fun near => far near.2, fails⟩

theorem follow_of_followWhole (located : w.followWhole loc pieces = .ok found) :
    w.follow loc pieces = .ok found := by
  induction pieces generalizing loc with
  | nil => exact located
  | cons piece rest ih =>
    unfold followWhole at located
    dsimp only at located
    split at located
    · cases located
    · split at located
      · cases located
      · rename_i next step
        have passes := passes_of_follow step
        rw [follow_cons passes] at step ⊢
        obtain rfl : loc.step piece = next := Except.ok.inj step
        exact ih located

/-- Whether the pieces of a path lead to a location, however long it is. -/
def Leads (w : Workspace) (path : String) (loc : Location) : Prop :=
  fault? path = none ∧ w.follow (w.start path) (Path.bodyPieces path) = .ok loc

theorem locate_eq_ok_iff {path : String} :
    w.locate path = .ok loc ↔ w.Leads path loc ∧ Near (w.start path) (Path.bodyPieces path) := by
  unfold locate Leads
  cases fault? path with
  | some e => simp
  | none =>
    constructor
    · intro located
      have follows := follow_of_followWhole located
      rcases followWhole_of_follow follows with ⟨near, -⟩ | ⟨-, fails⟩
      · exact ⟨⟨rfl, follows⟩, near⟩
      · cases fails.symm.trans located
    · rintro ⟨⟨-, follows⟩, near⟩
      rcases followWhole_of_follow follows with ⟨-, located⟩ | ⟨far, -⟩
      · exact located
      · exact absurd near far

theorem leads_of_resolve {path : String} (resolved : w.resolve path = .ok loc) :
    w.Leads path loc := by
  obtain ⟨sound, follows⟩ := resolve_eq_ok_iff.mp resolved
  unfold wholeFault? at sound
  split at sound
  · cases sound
  · rename_i clean
    exact ⟨clean, follows⟩

theorem eq_of_locate {path : String} (leads : w.Leads path loc)
    (located : w.locate path = .ok found) : found = loc :=
  Except.ok.inj ((locate_eq_ok_iff.mp located).1.2.symm.trans leads.2)

/-- What can be resolved is located, unless it is too far from the root. -/
theorem locate_of_leads {path : String} (leads : w.Leads path loc) :
    w.locate path = .ok loc ∨ w.locate path = .error .nameTooLong := by
  obtain ⟨clean, follows⟩ := leads
  unfold locate
  rw [clean]
  exact (followWhole_of_follow follows).imp And.right And.right

section Content

variable {path : String} {content : Bytes} (resolved : w.resolve path = .ok loc)
variable (file : w.content? loc = some content)
include resolved file

theorem stat_of_resolve : w.stat path = .ok (.file content) := by
  unfold content? at file
  split at file
  · rename_i entry
    obtain rfl := Option.some.inj file
    simp [stat, resolved, entry, bind, Except.bind]
  · cases file

theorem read_of_resolve : w.read path = .ok content := by
  simp [read, stat_of_resolve resolved file, bind, Except.bind]

end Content

theorem size_le_of_wholeFault? {path : String} (sound : wholeFault? path = none) :
    path.utf8ByteSize ≤ 4095 := by
  unfold wholeFault? at sound
  split at sound
  · cases sound
  · split at sound
    · cases sound
    · rename_i short
      exact Nat.not_lt.mp fun long => short (decide_eq_true long)

theorem not_isDirectory_of_file (file : (w.content? loc).isSome = true) :
    w.isDirectory loc = false := by
  unfold content? at file
  unfold isDirectory
  split at file
  · rename_i entry
    rw [entry]
  · cases file

theorem exists_name_of_file (filled : pieces ≠ []) (follows : w.follow loc pieces = .ok found)
    (file : (w.content? found).isSome = true) :
    ∃ init name, pieces = init ++ [name] ∧ Path.saysNothing name = false ∧ name ≠ ".." ∧
      found.getLast? = some name := by
  obtain ⟨init, name, rfl⟩ : ∃ init name, pieces = init ++ [name] :=
    ⟨_, _, (List.dropLast_concat_getLast filled).symm⟩
  obtain ⟨-, onward⟩ := follow_append.mp follows
  have passes := passes_of_follow onward
  rw [follow_cons passes] at onward
  have leads : (loc.walk init).step name = found := Except.ok.inj onward
  have flat := not_isDirectory_of_file file
  have speaks : Path.saysNothing name = false := by
    refine Bool.eq_false_iff.mpr fun silent => ?_
    have stays : (loc.walk init).step name = loc.walk init := if_pos silent
    rw [← leads, stays, passes.inside] at flat
    cases flat
  have forward : name ≠ ".." := by
    rintro rfl
    rw [← leads] at flat
    exact Bool.false_ne_true (flat.symm.trans (isDirectory_dropLast passes.inside))
  refine ⟨init, name, rfl, speaks, forward, ?_⟩
  rw [← leads, Location.step_name _ speaks forward]
  exact List.getLast?_concat

theorem isDirectory_start (here : w.isDirectory w.here = true) (path : String) :
    w.isDirectory (w.start path) = true := by
  unfold start
  split
  · rfl
  · exact here

/-- What making directories does to a tree. -/
structure Grown (before after : Workspace) : Prop where
  here : after.here = before.here
  content : ∀ loc, after.content? loc = before.content? loc
  directory : ∀ loc, before.isDirectory loc = true → after.isDirectory loc = true

namespace Grown

theorem refl (w : Workspace) : Grown w w := ⟨rfl, fun _ => rfl, fun _ h => h⟩

theorem trans {before between after : Workspace} (first : Grown before between)
    (second : Grown between after) : Grown before after where
  here := second.here.trans first.here
  content loc := (second.content loc).trans (first.content loc)
  directory loc h := second.directory loc (first.directory loc h)

theorem start {before after : Workspace} (h : Grown before after) (path : String) :
    after.start path = before.start path := by
  unfold Workspace.start
  rw [h.here]

end Grown

theorem grown_put (inside : w.isDirectory loc = true) (free : w.entry? (loc ++ [piece]) = none) :
    Grown w (w.put (loc ++ [piece]) (.directory .empty)) where
  here := rfl
  content other := by
    rw [content?_eq, content?_eq, shape_put_directory inside free]
    split
    · rename_i new
      rw [new, free]
      rfl
    · rfl
  directory other h := by
    rw [isDirectory_eq] at h ⊢
    rw [shape_put_directory inside free]
    split
    · rfl
    · exact h

theorem isDirectory_put (inside : w.isDirectory loc = true) :
    (w.put (loc ++ [piece]) (.directory .empty)).isDirectory (loc ++ [piece]) = true := by
  rw [isDirectory, entry?_put inside]

/-- Directories made along pieces from a directory, of which those that are made before an error
stay. -/
structure Made (before after : Workspace) (loc : Location) (pieces : List String)
    (result : Except FileError Unit) : Prop where
  grown : Grown before after
  reached : result = .ok () →
    after.follow loc pieces = .ok (loc.walk pieces) ∧ after.isDirectory (loc.walk pieces) = true

theorem Made.cons {before between after : Workspace} {result : Except FileError Unit}
    (grown : Grown before between) (passes : after.Passes loc piece)
    (behind : Made between after (loc.step piece) pieces result) :
    Made before after loc (piece :: pieces) result where
  grown := grown.trans behind.grown
  reached done := by
    rw [follow_cons passes]
    exact behind.reached done

theorem made_makeAlong (inside : w.isDirectory loc = true) (made : Bool) :
    Made w (w.makeAlong loc made pieces).1 loc pieces (w.makeAlong loc made pieces).2 := by
  induction pieces generalizing w loc made with
  | nil => exact ⟨.refl w, fun _ => ⟨rfl, inside⟩⟩
  | cons piece rest ih =>
    unfold makeAlong
    split
    · rename_i silent
      have stays : loc.step piece = loc := if_pos silent
      have behind := ih inside made
      refine .cons (.refl w) ⟨behind.grown.directory loc inside, .inl silent⟩ ?_
      rw [stays]
      exact behind
    · rename_i speaks
      split
      · rename_i back
        have behind := ih (isDirectory_dropLast inside) made
        have back : piece = ".." := by simpa using back
        have leads : loc.step piece = loc.dropLast := by
          simp [Location.step, back, Path.saysNothing]
        refine .cons (.refl w) ⟨behind.grown.directory loc inside, .inr (.inl back)⟩ ?_
        rw [leads]
        exact behind
      · rename_i forward
        have leads := loc.step_name (by simpa using speaks) (by simpa using forward)
        split
        · exact ⟨.refl w, fun done => by cases done⟩
        · rename_i short
          -- The directory below is there, or is made: either way it stays.
          have onward {between : Workspace} (grown : Grown w between)
              (there : between.isDirectory (loc ++ [piece]) = true) (flag : Bool) :
              Made w (between.makeAlong (loc ++ [piece]) flag rest).1 loc (piece :: rest)
                (between.makeAlong (loc ++ [piece]) flag rest).2 := by
            have behind := ih there flag
            have stays := behind.grown.directory _ there
            have named : ( entry? (between.makeAlong (loc ++ [piece]) flag rest).1
                (loc ++ [piece])).isSome = true := by
              obtain ⟨d, eq⟩ := exists_of_isDirectory stays
              rw [Workspace.entry?, eq]
              rfl
            refine .cons grown ⟨(grown.trans behind.grown).directory loc inside,
              .inr (.inr ⟨by simpa using short, named⟩)⟩ ?_
            rw [leads]
            exact behind
          dsimp only
          cases entry : w.entry? (loc ++ [piece]) with
          | none => exact onward (grown_put inside entry) (isDirectory_put inside) true
          | some e =>
            cases e with
            | file content => exact ⟨.refl w, fun done => by cases done⟩
            | directory d => exact onward (.refl w) (by rw [isDirectory, entry]) made

end Workspace

end PacketLayers
