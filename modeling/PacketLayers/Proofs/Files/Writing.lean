import PacketLayers.Proofs.Files.Steps

namespace PacketLayers

/-- A path that a file can be written under, as far as the path alone says: the pieces before its
last one, and that one as a name. -/
structure Path.Named (path : String) (above : List String) (name : String) : Prop where
  body : Path.bodyPieces path = above ++ [name]
  speaks : Path.saysNothing name = false
  forward : name ≠ ".."
  short : Path.isLongName name = false
  whole : Workspace.wholeFault? path = none

def Workspace.place (w : Workspace) (path : String) : Location :=
  (w.start path).walk (Path.bodyPieces path)

theorem Path.Named.place_eq {path name : String} {above : List String}
    (named : Path.Named path above name) (w : Workspace) :
    w.place path = (w.start path).walk above ++ [name] := by
  rw [Workspace.place, named.body, Location.walk_append]
  exact Location.step_name _ named.speaks named.forward

namespace Workspace

variable {w after : Workspace} {path name : String} {above : List String} {content : Bytes}

theorem Grown.place {before : Workspace} (h : Grown before after) (path : String) :
    after.place path = before.place path := by
  rw [Workspace.place, Workspace.place, h.start]

theorem target_concat (body : Path.bodyPieces path = above ++ [name]) (some : name ≠ "")
    (whole : wholeFault? path = none) :
    w.target path =
      match w.follow (w.start path) above with
      | .error e => .error e
      | .ok loc => if w.isDirectory loc then .ok ⟨loc, name, false⟩ else .error .notDirectory := by
  have kept : ((above ++ [name]).reverse.dropWhile (· == "")).reverse = above ++ [name] :=
    Path.dropWhile_reverse_concat (· == "") (beq_false_of_ne some) above
  unfold target
  rw [whole]
  dsimp only
  rw [body, kept, List.dropLast_concat, List.getLast?_concat, bne_self_eq_false]
  rfl

theorem slashed_of_target {t : Target} (body : Path.bodyPieces path = above ++ [""])
    (h : w.target path = .ok t) : t.slashed = true := by
  have shorter := (List.dropWhile_sublist (p := (· == "")) (l := above.reverse)).length_le
  have trimmed : (above ++ [""]).reverse.dropWhile (· == "") =
      above.reverse.dropWhile (· == "") := by
    simp
  unfold target at h
  split at h
  · cases h
  dsimp only at h
  rw [body, trimmed] at h
  split at h
  · cases h
  · split at h
    · cases h
      simp only [bne_iff_ne, ne_eq, List.length_append, List.length_reverse,
        List.length_singleton] at shorter ⊢
      omega
    · cases h

theorem named_of_target {t : Target} (h : w.target path = .ok t) (unslashed : t.slashed = false)
    (plain : isDots t.last = false) (short : Path.isLongName t.last = false) :
    ∃ above, Path.Named path above t.last ∧ w.follow (w.start path) above = .ok t.directory ∧
      w.isDirectory t.directory = true := by
  have whole : wholeFault? path = none := by
    unfold target at h
    split at h
    · cases h
    · assumption
  have some := List.dropLast_concat_getLast (Path.bodyPieces_ne_nil path)
  generalize (Path.bodyPieces path).dropLast = above at some
  generalize (Path.bodyPieces path).getLast _ = name at some
  have body := some.symm
  by_cases empty : name = ""
  · subst empty
    rw [slashed_of_target body h] at unslashed
    cases unslashed
  · rw [target_concat body empty whole] at h
    split at h
    · cases h
    · rename_i found
      split at h
      · rename_i inside
        cases h
        simp only [isDots, Bool.or_eq_false_iff, beq_eq_false_iff_ne] at plain
        refine ⟨above, ⟨body, ?_, plain.2, short, whole⟩, found, inside⟩
        simp [Path.saysNothing, empty, plain.1]
      · cases h

/-- A file is written exactly if its path ends in a name, the pieces before that can be followed
to a directory, and no directory has the name there. -/
theorem write_eq_ok_iff :
    w.write path content = .ok after ↔
      ∃ above name, Path.Named path above name ∧
        w.follow (w.start path) above = .ok ((w.start path).walk above) ∧
        w.isDirectory ((w.start path).walk above) = true ∧
        w.isDirectory (w.place path) = false ∧ after = w.put (w.place path) (.file content) := by
  constructor
  · intro h
    unfold write at h
    cases aim : w.target path with
    | error e => rw [aim] at h; cases h
    | ok t =>
      simp only [aim, bind, Except.bind] at h
      split at h
      · cases h
      rename_i accepted
      obtain ⟨plain, unslashed⟩ := Bool.or_eq_false_iff.mp (Bool.eq_false_iff.mpr accepted)
      split at h
      · cases h
      rename_i short
      split at h
      · cases h
      rename_i free
      obtain ⟨above, named, found, inside⟩ :=
        named_of_target aim unslashed plain (Bool.eq_false_iff.mpr short)
      -- Each check that was passed is one part of the right side.
      have leads := walk_of_follow found
      have there : w.place path = t.directory ++ [t.last] := by
        rw [named.place_eq, ← leads]
      refine ⟨above, t.last, named, ?_, ?_, ?_, ?_⟩
      · rw [← leads]
        exact found
      · rw [← leads]
        exact inside
      · rw [there]
        exact Bool.eq_false_iff.mpr free
      · rw [there]
        exact (Except.ok.inj h).symm
  · rintro ⟨above, name, named, found, inside, free, rfl⟩
    have some : name ≠ "" := by
      rintro rfl
      exact absurd named.speaks (by decide)
    have plain : name ≠ "." := by
      rintro rfl
      exact absurd named.speaks (by decide)
    rw [named.place_eq w] at free ⊢
    simp [write, target_concat named.body some named.whole, found, inside, bind, Except.bind,
      isDots, plain, named.forward, named.short, free]

section Put

variable {directory loc found : Location} {pieces : List String}
  (inside : w.isDirectory directory = true) (free : w.isDirectory (directory ++ [name]) = false)

include free in
theorem eq_of_behind (there : (w.entry? loc).isSome = true) (behind : directory ++ [name] <+: loc) :
    loc = directory ++ [name] := by
  obtain ⟨below, rfl⟩ := behind
  by_cases further : below = []
  · rw [further, List.append_nil]
  · rw [entry?_append_of_not_directory free further] at there
    cases there

include free in
theorem isDirectory_put_file (above : w.isDirectory loc = true) :
    (w.put (directory ++ [name]) (.file content)).isDirectory loc = true := by
  have apart : ¬ directory ++ [name] <+: loc := by
    intro behind
    obtain ⟨d, eq⟩ := exists_of_isDirectory above
    have there : (w.entry? loc).isSome = true := by
      rw [Workspace.entry?, eq]
      rfl
    rw [eq_of_behind free there behind, free] at above
    cases above
  rw [isDirectory_eq] at above ⊢
  exact (congrArg (· == some none) (Directory.shape_put _ apart _)).trans above

include inside free

theorem isSome_entry?_put_file (there : (w.entry? loc).isSome = true) :
    ( entry? (w.put (directory ++ [name]) (.file content)) loc).isSome = true := by
  by_cases behind : directory ++ [name] <+: loc
  · rw [eq_of_behind free there behind, entry?_put inside]
    rfl
  · have same := congrArg Option.isSome (Directory.shape_put w.root behind (.file content))
    rw [Option.isSome_map, Option.isSome_map] at same
    exact same.trans there

theorem follow_put_file (follows : w.follow loc pieces = .ok found) :
    (w.put (directory ++ [name]) (.file content)).follow loc pieces = .ok found := by
  induction pieces generalizing loc with
  | nil => exact follows
  | cons piece pieces ih =>
    have passes := passes_of_follow follows
    have still : (w.put (directory ++ [name]) (.file content)).Passes loc piece :=
      ⟨isDirectory_put_file free passes.inside, passes.onward.imp_right
        (Or.imp_right (And.imp_right (isSome_entry?_put_file inside free)))⟩
    rw [follow_cons passes] at follows
    rw [follow_cons still]
    exact ih follows

end Put

theorem read_of_write (h : w.write path content = .ok after) :
    after.resolve path = .ok (w.place path) ∧ after.read path = .ok content := by
  obtain ⟨above, name, named, found, inside, free, rfl⟩ := write_eq_ok_iff.mp h
  have place := named.place_eq w
  rw [place] at free ⊢
  have written : entry? (w.put ((w.start path).walk above ++ [name]) (.file content))
      ((w.start path).walk above ++ [name]) = some (.file content) :=
    entry?_put inside (.file content)
  have resolved : resolve (w.put ((w.start path).walk above ++ [name]) (.file content)) path =
      .ok ((w.start path).walk above ++ [name]) := by
    have last : (w.put ((w.start path).walk above ++ [name]) (.file content)).follow
        ((w.start path).walk above) [name] = .ok ((w.start path).walk above ++ [name]) := by
      rw [follow_cons ⟨isDirectory_put_file free inside,
        .inr (.inr ⟨named.short, by rw [written]; rfl⟩)⟩,
        Location.step_name _ named.speaks named.forward]
      rfl
    unfold resolve
    rw [named.whole]
    dsimp only
    rw [named.body]
    exact follow_append.mpr ⟨follow_put_file inside free found, last⟩
  refine ⟨resolved, ?_⟩
  simp only [read, stat, resolved, written, bind, Except.bind]

section Parent

variable {parent : String} (of : Path.ParentOf path above parent)
include of

theorem start_parent (w : Workspace) : w.start parent = w.start path := by
  unfold start
  rw [of.rooted]

theorem place_parent (w : Workspace) : w.place parent = (w.start path).walk above := by
  obtain ⟨kept, silent, rfl, silence, body⟩ := of.body
  rw [place, start_parent of, body, Location.walk_append, Location.walk_silent _ silence]
  split
  · rename_i none
    subst none
    exact Location.walk_silent _ (by decide)
  · rfl

theorem follow_above
    (found : w.follow (w.start parent) (Path.bodyPieces parent) = .ok (w.place parent))
    (inside : w.isDirectory (w.place parent) = true) :
    w.follow (w.start path) above = .ok ((w.start path).walk above) := by
  have leads := place_parent of w
  obtain ⟨kept, silent, rfl, silence, body⟩ := of.body
  rw [start_parent of, body] at found
  rw [leads] at found inside
  have onward : w.follow _ silent = .ok _ := follow_silent inside silence
  rw [Location.walk_append] at found onward ⊢
  rw [Location.walk_silent _ silence] at found onward ⊢
  refine follow_append.mpr ⟨?_, onward⟩
  split at found
  · rename_i none
    subst none
    rfl
  · exact found

end Parent

theorem made_makeAllDirectories (here : w.isDirectory w.here = true) (path : String) :
    Made w (w.makeAllDirectories path).1 (w.start path) (Path.bodyPieces path)
      (w.makeAllDirectories path).2 := by
  unfold makeAllDirectories
  split
  · rename_i empty
    obtain rfl : path = "" := by simpa using empty
    have silence : ∀ p ∈ Path.bodyPieces "", Path.saysNothing p = true := by decide
    refine ⟨.refl w, fun _ => ?_⟩
    rw [Location.walk_silent _ silence]
    exact ⟨follow_silent here silence, here⟩
  · split
    · exact ⟨.refl w, fun done => by cases done⟩
    · exact made_makeAlong (isDirectory_start here path) false

end Workspace

end PacketLayers
