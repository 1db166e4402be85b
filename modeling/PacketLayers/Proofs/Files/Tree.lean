import PacketLayers.Files.Workspace

namespace PacketLayers

/-- What is seen of an entry without looking inside: the octets of a file. -/
def Entry.shape : Entry → Option Bytes
  | .file content => some content
  | .directory _ => none

namespace Directory

theorem at?_cons_directory {d inside : Directory} {name : String}
    (h : d.find? name = some (.directory inside)) (rest : Location) :
    d.at? (name :: rest) = inside.at? rest := by
  simp only [at?, h]

theorem at?_append (d : Directory) (above below : Location) :
    d.at? (above ++ below) =
      match d.at? above with
      | some (.directory inside) => inside.at? below
      | some (.file content) => if below = [] then some (.file content) else none
      | none => none := by
  induction above generalizing d with
  | nil => rfl
  | cons name above ih =>
    rw [List.cons_append]
    cases h : d.find? name with
    | none => simp only [at?, h]
    | some e =>
      cases e with
      | directory inside => rw [at?_cons_directory h, at?_cons_directory h, ih]
      | file content =>
        by_cases here : above = []
        · subst here
          simp [at?, h]
        · simp [at?, h, here]

theorem at?_put (d : Directory) {above : Location} {inside : Directory}
    (h : d.at? above = some (.directory inside)) (name : String) (e : Entry) :
    (d.put (above ++ [name]) e).at? (above ++ [name]) = some e := by
  induction above generalizing d with
  | nil => cases e <;> simp [put, at?, find?_set]
  | cons outer above ih =>
    cases found : d.find? outer with
    | none => simp [at?, found] at h
    | some below =>
      cases below with
      | file content =>
        simp only [at?, found] at h
        split at h <;> cases h
      | directory inner =>
        rw [at?_cons_directory found] at h
        have put_eq : d.put (outer :: above ++ [name]) e =
            d.set outer (.directory (inner.put (above ++ [name]) e)) := by
          cases above <;> simp [put, found]
        have here : (d.set outer (.directory (inner.put (above ++ [name]) e))).find? outer =
            some (.directory (inner.put (above ++ [name]) e)) := by
          simp [find?_set]
        rw [put_eq, List.cons_append, at?_cons_directory here]
        exact ih inner h

/-- A location that does not lie behind the one written to shows what it showed. -/
theorem shape_put (d : Directory) {loc other : Location} (apart : ¬ loc <+: other) (e : Entry) :
    ((d.put loc e).at? other).map Entry.shape = (d.at? other).map Entry.shape := by
  -- Down the written location, as long as the other one goes the same way.
  induction loc generalizing d other with
  | nil => exact absurd (List.nil_prefix) apart
  | cons name rest ih =>
    cases other with
    | nil => rfl
    | cons first others =>
      cases rest with
      | nil =>
        have elsewhere : name ≠ first := by
          rintro rfl
          exact apart (List.cons_prefix_cons.mpr ⟨rfl, List.nil_prefix⟩)
        simp only [put, at?, find?_set, if_neg elsewhere]
      | cons second rest =>
        cases found : d.find? name with
        | none => simp only [put, found]
        | some below =>
          cases below with
          | file content => simp only [put, found]
          | directory inside =>
            have put_eq : d.put (name :: second :: rest) e =
                d.set name (.directory (inside.put (second :: rest) e)) := by
              simp only [put, found]
            rw [put_eq]
            by_cases here : name = first
            · subst here
              have there : (d.set name (.directory (inside.put (second :: rest) e))).find? name =
                  some (.directory (inside.put (second :: rest) e)) := by
                simp [find?_set]
              rw [at?_cons_directory there, at?_cons_directory found]
              exact ih inside fun h => apart (List.cons_prefix_cons.mpr ⟨rfl, h⟩)
            · simp only [at?, find?_set, if_neg here]

end Directory

namespace Workspace

variable {w : Workspace} {loc other : Location}

theorem content?_eq (w : Workspace) (loc : Location) :
    w.content? loc = ((w.entry? loc).map Entry.shape).join := by
  unfold content?
  cases w.entry? loc with
  | none => rfl
  | some e => cases e <;> rfl

theorem isDirectory_eq (w : Workspace) (loc : Location) :
    w.isDirectory loc = ((w.entry? loc).map Entry.shape == some none) := by
  unfold isDirectory
  cases w.entry? loc with
  | none => rfl
  | some e => cases e <;> rfl

theorem exists_of_isDirectory (h : w.isDirectory loc = true) :
    ∃ inside, w.root.at? loc = some (.directory inside) := by
  unfold isDirectory entry? at h
  split at h
  · rename_i inside found
    exact ⟨inside, found⟩
  · cases h

theorem entry?_append_of_not_directory (h : w.isDirectory loc = false) {below : Location}
    (further : below ≠ []) : w.entry? (loc ++ below) = none := by
  unfold isDirectory entry? at *
  rw [Directory.at?_append]
  cases found : w.root.at? loc with
  | none => rfl
  | some e =>
    cases e with
    | file content => exact if_neg further
    | directory inside => simp [found] at h

theorem isDirectory_dropLast (h : w.isDirectory loc = true) :
    w.isDirectory loc.dropLast = true := by
  by_cases root : loc = []
  · subst root
    exact h
  · cases outer : w.isDirectory loc.dropLast with
    | true => rfl
    | false =>
      have gone := entry?_append_of_not_directory outer (List.cons_ne_nil (loc.getLast root) [])
      rw [List.dropLast_concat_getLast root] at gone
      simp [isDirectory, gone] at h

section Put

variable {above : Location} {name : String} (inside : w.isDirectory above = true)
include inside

theorem entry?_put (e : Entry) :
    entry? (w.put (above ++ [name]) e) (above ++ [name]) = some e := by
  obtain ⟨d, found⟩ := exists_of_isDirectory inside
  exact Directory.at?_put _ found name e

theorem content?_put_file (free : w.isDirectory (above ++ [name]) = false) (content : Bytes) :
    (w.put (above ++ [name]) (.file content)).content? other =
      if other = above ++ [name] then some content else w.content? other := by
  have written : entry? (w.put (above ++ [name]) (.file content)) (above ++ [name]) =
      some (.file content) := entry?_put inside _
  by_cases here : other = above ++ [name]
  · subst here
    rw [if_pos rfl, content?, written]
  · rw [if_neg here, content?_eq, content?_eq]
    by_cases behind : above ++ [name] <+: other
    · obtain ⟨below, rfl⟩ := behind
      have further : below ≠ [] := by
        rintro rfl
        exact here (List.append_nil _)
      have flat :
          (w.put (above ++ [name]) (.file content)).isDirectory (above ++ [name]) = false := by
        rw [isDirectory, written]
      rw [entry?_append_of_not_directory flat further, entry?_append_of_not_directory free further]
    · exact congrArg Option.join (Directory.shape_put _ behind _)

theorem shape_put_directory (free : w.entry? (above ++ [name]) = none) :
    ( entry? (w.put (above ++ [name]) (.directory .empty)) other).map Entry.shape =
      if other = above ++ [name] then some none else (w.entry? other).map Entry.shape := by
  have made : entry? (w.put (above ++ [name]) (.directory .empty)) (above ++ [name]) =
      some (.directory .empty) := entry?_put inside _
  by_cases here : other = above ++ [name]
  · subst here
    rw [if_pos rfl, made]
    rfl
  · rw [if_neg here]
    by_cases behind : above ++ [name] <+: other
    · obtain ⟨below, rfl⟩ := behind
      have further : below ≠ [] := by
        rintro rfl
        exact here (List.append_nil _)
      have flat : w.isDirectory (above ++ [name]) = false := by
        rw [isDirectory, free]
      rw [entry?_append_of_not_directory flat further]
      have inner : entry? (w.put (above ++ [name]) (.directory .empty))
          (above ++ [name] ++ below) = Directory.empty.at? below := by
        rw [Workspace.entry?, Directory.at?_append]
        rw [Workspace.entry?] at made
        rw [made]
      rw [inner]
      cases below with
      | nil => exact absurd rfl further
      | cons first rest => rfl
    · exact Directory.shape_put _ behind _

end Put

end Workspace

end PacketLayers
