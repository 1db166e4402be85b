import PacketLayers.Proofs.Files.Steps

namespace PacketLayers

structure Path.IsName (name : String) : Prop where
  speaks : saysNothing name = false
  forward : name ≠ ".."
  whole : '/' ∉ name.toList
  clean : '\x00' ∉ name.toList
  short : isLongName name = false

instance (name : String) : Decidable (Path.IsName name) :=
  decidable_of_iff (Path.saysNothing name = false ∧ name ≠ ".." ∧ '/' ∉ name.toList ∧
      '\x00' ∉ name.toList ∧ Path.isLongName name = false)
    ⟨fun ⟨speaks, forward, whole, clean, short⟩ => ⟨speaks, forward, whole, clean, short⟩,
      fun ⟨speaks, forward, whole, clean, short⟩ => ⟨speaks, forward, whole, clean, short⟩⟩

namespace Path

theorem IsName.ne_empty {name : String} (h : IsName name) : name ≠ "" := by
  rintro rfl
  exact absurd h.speaks (by decide)

theorem IsName.not_dots {name : String} (h : IsName name) : Workspace.isDots name = false := by
  have plain : name ≠ "." := by
    rintro rfl
    exact absurd h.speaks (by decide)
  simp [Workspace.isDots, plain, h.forward]

end Path

namespace Directory

/-- Whether entries have names of their own, here and in all directories further down. -/
def Proper : Directory → Prop
  | empty => True
  | file name _ others => Path.IsName name ∧ others.find? name = none ∧ others.Proper
  | directory name inside others =>
    Path.IsName name ∧ others.find? name = none ∧ inside.Proper ∧ others.Proper

instance decidableProper : (d : Directory) → Decidable d.Proper
  | empty => .isTrue trivial
  | file name _ others =>
    have := decidableProper others
    inferInstanceAs (Decidable (Path.IsName name ∧ others.find? name = none ∧ others.Proper))
  | directory name inside others =>
    have := decidableProper inside
    have := decidableProper others
    inferInstanceAs (Decidable
      (Path.IsName name ∧ others.find? name = none ∧ inside.Proper ∧ others.Proper))

variable {d inside : Directory} {name : String} {loc : Location}

theorem mem_names_iff : name ∈ d.names ↔ (d.find? name).isSome = true := by
  induction d with
  | empty => simp [names, find?]
  | file n content others ih =>
    rw [names, List.mem_cons, ih, find?, eq_comm]
    split <;> simp [*]
  | directory n inside others _ ih =>
    rw [names, List.mem_cons, ih, find?, eq_comm]
    split <;> simp [*]

namespace Proper

theorem isName (proper : d.Proper) (there : name ∈ d.names) : Path.IsName name := by
  induction d with
  | empty => cases there
  | file n content others ih =>
    obtain ⟨named, -, proper⟩ := proper
    rcases List.mem_cons.mp there with rfl | there
    · exact named
    · exact ih proper there
  | directory n inside others _ ih =>
    obtain ⟨named, -, -, proper⟩ := proper
    rcases List.mem_cons.mp there with rfl | there
    · exact named
    · exact ih proper there

theorem nodup_names (proper : d.Proper) : d.names.Nodup := by
  have fresh {others : Directory} {n : String} (free : others.find? n = none) :
      n ∉ others.names := by
    rw [mem_names_iff, free]
    decide
  induction d with
  | empty => exact List.nodup_nil
  | file n content others ih =>
    obtain ⟨-, free, proper⟩ := proper
    exact List.nodup_cons.mpr ⟨fresh free, ih proper⟩
  | directory n inside others _ ih =>
    obtain ⟨-, free, -, proper⟩ := proper
    exact List.nodup_cons.mpr ⟨fresh free, ih proper⟩

theorem of_find? (proper : d.Proper) (found : d.find? name = some (.directory inside)) :
    inside.Proper := by
  induction d with
  | empty => cases found
  | file n content others ih =>
    obtain ⟨-, -, proper⟩ := proper
    rw [find?] at found
    split at found
    · cases found
    · exact ih proper found
  | directory n inner others _ ih =>
    obtain ⟨-, -, inner, proper⟩ := proper
    rw [find?] at found
    split at found
    · cases found
      exact inner
    · exact ih proper found

theorem of_at? (proper : d.Proper) (found : d.at? loc = some (.directory inside)) :
    inside.Proper := by
  induction loc generalizing d with
  | nil =>
    cases found
    exact proper
  | cons outer loc ih =>
    rw [at?] at found
    split at found
    · rename_i inner below
      exact ih (proper.of_find? below) found
    · split at found <;> cases found
    · cases found

end Proper

theorem lt_height_of_find? (found : d.find? name = some (.directory inside)) :
    inside.height < d.height := by
  induction d with
  | empty => cases found
  | file n content others ih =>
    rw [find?] at found
    split at found
    · cases found
    · exact Nat.lt_of_lt_of_le (ih found) (Nat.le_max_right 1 _)
  | directory n inner others _ ih =>
    rw [find?] at found
    split at found
    · cases found
      exact Nat.le_max_left _ _
    · exact Nat.lt_of_lt_of_le (ih found) (Nat.le_max_right _ _)

theorem length_le_height (found : d.at? loc = some (.directory inside)) :
    loc.length ≤ d.height := by
  induction loc generalizing d with
  | nil => exact Nat.zero_le _
  | cons outer loc ih =>
    rw [at?] at found
    split at found
    · rename_i inner below
      exact Nat.lt_of_le_of_lt (ih found) (lt_height_of_find? below)
    · split at found <;> cases found
    · cases found

end Directory

namespace Workspace

variable {w : Workspace} {loc found : Location} {name piece : String}

/-- A tree as a file system keeps it, seen from one of its directories. -/
structure Proper (w : Workspace) : Prop where
  named : w.root.Proper
  here : w.isDirectory w.here = true

theorem mem_names_iff :
    name ∈ w.names loc ↔ w.isDirectory loc = true ∧ (w.entry? (loc ++ [name])).isSome = true := by
  unfold names isDirectory
  rw [Workspace.entry?, Workspace.entry?, Directory.at?_append]
  cases w.root.at? loc with
  | none => simp
  | some e =>
    cases e with
    | file content => simp
    | directory inside =>
      simp only [Directory.mem_names_iff, Directory.at?, true_and]
      cases inside.find? name with
      | none => rfl
      | some e => cases e <;> rfl

theorem length_le_of_isDirectory (h : w.isDirectory loc = true) : loc.length ≤ w.root.height := by
  obtain ⟨inside, found⟩ := exists_of_isDirectory h
  exact Directory.length_le_height found

theorem follow_one_iff :
    w.follow loc [piece] = .ok found ↔ w.Passes loc piece ∧ found = loc.step piece := by
  constructor
  · intro h
    have passes := passes_of_follow h
    rw [follow_cons passes] at h
    exact ⟨passes, (Except.ok.inj h).symm⟩
  · rintro ⟨passes, rfl⟩
    exact follow_cons passes []

theorem cases_of_follow (h : w.follow loc [piece] = .ok found) :
    Path.saysNothing piece = true ∨ piece = ".." ∨ piece ∈ w.names loc := by
  obtain ⟨⟨inside, onward⟩, -⟩ := follow_one_iff.mp h
  exact onward.imp_right (Or.imp_right fun there => mem_names_iff.mpr ⟨inside, there.2⟩)

namespace Proper

variable (proper : w.Proper)
include proper

theorem isName (there : name ∈ w.names loc) : Path.IsName name := by
  unfold names at there
  split at there
  · rename_i inside found
    exact (proper.named.of_at? found).isName there
  · cases there

theorem nodup_names (loc : Location) : (w.names loc).Nodup := by
  unfold names
  split
  · rename_i inside found
    exact (proper.named.of_at? found).nodup_names
  · exact List.nodup_nil

theorem follow_name (there : name ∈ w.names loc) :
    w.follow loc [name] = .ok (loc ++ [name]) := by
  have named := proper.isName there
  obtain ⟨inside, entry⟩ := mem_names_iff.mp there
  exact follow_one_iff.mpr ⟨⟨inside, .inr (.inr ⟨named.short, entry⟩)⟩,
    (Location.step_name loc named.speaks named.forward).symm⟩

theorem plain_of_follow (h : w.follow loc [piece] = .ok found) :
    '/' ∉ piece.toList ∧ '\x00' ∉ piece.toList := by
  rcases cases_of_follow h with silent | rfl | there
  · have either : piece = "" ∨ piece = "." := by simpa [Path.saysNothing] using silent
    rcases either with rfl | rfl <;> decide
  · decide
  · have named := proper.isName there
    exact ⟨named.whole, named.clean⟩

end Proper

end Workspace

namespace Path

theorem cut_append_slash (first second : List Char) :
    cut (first ++ '/' :: second) = cut first ++ cut second := by
  induction first with
  | nil => exact cut_slash second
  | cons c first ih =>
    by_cases slash : c = '/'
    · subst slash
      rw [List.cons_append, cut_slash, cut_slash, ih]
      rfl
    · obtain ⟨piece, others, eq⟩ := List.exists_cons_of_ne_nil (cut_ne_nil first)
      rw [eq] at ih
      rw [List.cons_append, cut_plain slash ih, cut_plain slash eq]
      rfl

variable {path piece : String}

theorem bodyPieces_of_pieces {ps qs : List String} (h : pieces path = ps ++ qs) (some : ps ≠ []) :
    bodyPieces path = (if isRooted path then ps.drop 1 else ps) ++ qs := by
  unfold bodyPieces
  rw [h]
  split
  · exact List.drop_append_of_le_length (List.length_pos_iff.mpr some)
  · rfl

theorem not_isRooted_of_not_mem (whole : '/' ∉ piece.toList) : isRooted piece = false := by
  refine Bool.eq_false_iff.mpr fun rooted => ?_
  obtain ⟨text, eq⟩ := toList_of_isRooted rooted
  exact whole (by simp [eq])

theorem bodyPieces_of_not_mem (whole : '/' ∉ piece.toList) : bodyPieces piece = [piece] := by
  rw [bodyPieces, not_isRooted_of_not_mem whole]
  exact pieces_eq_of_toList (cut_of_not_mem whole)

theorem pieces_behind_slash {front last : List Char} (text : path.toList = front ++ '/' :: last)
    (whole : '/' ∉ last) :
    pieces path = (cut front).map String.ofList ++ [String.ofList last] := by
  rw [pieces, text, cut_append_slash, cut_of_not_mem whole, List.map_append]
  rfl

/-- A piece put behind a path comes behind the path's pieces, in the place of the empty one behind
a slash at its end. -/
theorem bodyPieces_join (some : path ≠ "") (whole : '/' ∉ piece.toList) :
    isRooted (join path piece) = isRooted path ∧
      ∃ init, bodyPieces (join path piece) = init ++ [piece] ∧
        (bodyPieces path = init ∨ bodyPieces path = init ++ [""]) := by
  have first : path.toList ≠ [] := fun none => some (String.toList_eq_nil_iff.mp none)
  have keeps (text : List Char) : (path.toList ++ text).head? = path.toList.head? := by
    obtain ⟨c, rest, eq⟩ := List.exists_cons_of_ne_nil first
    rw [eq]
    rfl
  unfold join
  rw [not_isRooted_of_not_mem whole]
  simp only [Bool.false_eq_true, if_false]
  -- With a slash at the end of the path, the piece takes the place of the empty one behind it.
  split
  · rename_i ends
    have slashed : path.toList.getLast? = Option.some '/' := by
      simpa [some] using ends
    obtain ⟨front, eq⟩ := List.getLast?_eq_some_iff.mp slashed
    have shorter := pieces_behind_slash eq List.not_mem_nil
    have longer : pieces (path ++ piece) = (cut front).map String.ofList ++ [piece] := by
      have text : (path ++ piece).toList = front ++ '/' :: piece.toList := by simp [eq]
      rw [pieces_behind_slash text whole, String.ofList_toList]
    have rooted : isRooted (path ++ piece) = isRooted path := by
      rw [isRooted, String.toList_append, keeps]
      rfl
    refine ⟨rooted, _, bodyPieces_of_pieces longer (map_cut_ne_nil front), .inr ?_⟩
    rw [rooted]
    exact bodyPieces_of_pieces shorter (map_cut_ne_nil front)
  · have longer : pieces (path ++ "/" ++ piece) = pieces path ++ [piece] := by
      have text : (path ++ "/" ++ piece).toList = path.toList ++ '/' :: piece.toList := by simp
      rw [pieces_behind_slash text whole, String.ofList_toList]
      rfl
    have rooted : isRooted (path ++ "/" ++ piece) = isRooted path := by
      rw [isRooted, String.append_assoc, String.toList_append, keeps]
      rfl
    refine ⟨rooted, _, bodyPieces_of_pieces longer (pieces_ne_nil path), .inl ?_⟩
    rw [rooted]
    rfl

theorem isLong_join (whole : '/' ∉ piece.toList) (long : isLong path = true) :
    isLong (join path piece) = true := by
  unfold isLong at long ⊢
  unfold join
  rw [not_isRooted_of_not_mem whole]
  simp only [Bool.false_eq_true, if_false, decide_eq_true_eq] at long ⊢
  split
  · rw [String.utf8ByteSize_append]
    omega
  · rw [String.utf8ByteSize_append, String.utf8ByteSize_append]
    omega

theorem silent_of_components (dot : components path = ["."]) :
    isRooted path = false ∧ ∀ p ∈ bodyPieces path, saysNothing p = true := by
  unfold components at dot
  cases rooted : isRooted path with
  | true =>
    rw [rooted] at dot
    exact absurd (List.cons.inj dot).1 (by decide)
  | false =>
    rw [rooted] at dot
    refine ⟨rfl, ?_⟩
    dsimp only at dot
    split at dot
    · rename_i none
      cases none
    · rename_i body _ eq
      have quiet : body.filter (fun p => !saysNothing p) = [] := (List.cons.inj dot).2
      rw [eq]
      intro p member
      rcases List.mem_cons.mp member with rfl | member
      · decide
      · simpa using List.filter_eq_nil_iff.mp quiet p member
    · have member : "." ∈ (bodyPieces path).filter fun p => !saysNothing p := by
        rw [dot]
        exact List.mem_singleton.mpr rfl
      exact absurd (List.mem_filter.mp member).2 (by decide)

theorem components_of_silent (some : path ≠ "") (unrooted : isRooted path = false)
    (silence : ∀ p ∈ bodyPieces path, saysNothing p = true) : components path = ["."] := by
  obtain ⟨first, others, eq⟩ := List.exists_cons_of_ne_nil (bodyPieces_ne_nil path)
  rw [eq] at silence
  obtain ⟨silent, quiet⟩ := List.forall_mem_cons.mp silence
  have filled := head_of_filled (by simp [unrooted]) eq some
  obtain rfl : first = "." := by
    have either : first = "" ∨ first = "." := by simpa [saysNothing] using silent
    refine either.resolve_left ?_
    rintro rfl
    exact filled rfl
  have none : others.filter (fun p => !saysNothing p) = [] :=
    List.filter_eq_nil_iff.mpr fun p member => by simp [quiet p member]
  unfold components
  rw [unrooted, eq]
  exact congrArg (List.cons ".") none

theorem components_ne_dot {name : String} {init : List String}
    (body : bodyPieces path = init ++ [name]) (named : IsName name) : components path ≠ ["."] := by
  intro dot
  have silent := (silent_of_components dot).2 name (by simp [body])
  rw [named.speaks] at silent
  cases silent

end Path

namespace Workspace

variable {w : Workspace} {loc found : Location} {path piece : String}

theorem start_join (some : path ≠ "") (whole : '/' ∉ piece.toList) (w : Workspace) :
    w.start (Path.join path piece) = w.start path := by
  unfold start
  rw [(Path.bodyPieces_join some whole).1]

theorem follow_join (some : path ≠ "") (whole : '/' ∉ piece.toList)
    (leads : w.follow (w.start path) (Path.bodyPieces path) = .ok loc)
    (onward : w.follow loc [piece] = .ok found) :
    w.follow (w.start (Path.join path piece)) (Path.bodyPieces (Path.join path piece)) =
      .ok found := by
  obtain ⟨-, init, body, either⟩ := Path.bodyPieces_join some whole
  rw [start_join some whole, body]
  have init_leads : w.follow (w.start path) init = .ok loc := by
    rcases either with same | slashed
    · exact same ▸ leads
    · rw [slashed] at leads
      obtain ⟨there, silent⟩ := follow_append.mp leads
      have stays := (follow_one_iff.mp silent).2
      rw [stays]
      exact there
  have here := walk_of_follow init_leads
  rw [here] at init_leads onward
  exact follow_append.mpr ⟨init_leads, onward⟩

end Workspace

end PacketLayers
