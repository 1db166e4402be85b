import PacketLayers.Files.Path

namespace PacketLayers.Path

theorem cut_ne_nil (text : List Char) : cut text ≠ [] := by
  cases text with
  | nil => exact List.cons_ne_nil _ _
  | cons c rest =>
    unfold cut
    split
    · exact List.cons_ne_nil _ _
    · split
      · exact List.cons_ne_nil _ _
      · exact List.cons_ne_nil _ _

theorem map_cut_ne_nil (text : List Char) : (cut text).map String.ofList ≠ [] := fun none =>
  cut_ne_nil text (List.map_eq_nil_iff.mp none)

theorem pieces_ne_nil (path : String) : pieces path ≠ [] := map_cut_ne_nil _

theorem cut_slash (rest : List Char) : cut ('/' :: rest) = [] :: cut rest := by
  obtain ⟨piece, others, eq⟩ := List.exists_cons_of_ne_nil (cut_ne_nil rest)
  simp only [cut, eq, if_true]

theorem cut_plain {c : Char} (plain : c ≠ '/') {rest piece : List Char} {others : List (List Char)}
    (eq : cut rest = piece :: others) : cut (c :: rest) = (c :: piece) :: others := by
  simp only [cut, eq, if_neg plain]

theorem slash_not_mem_of_mem_cut {text piece : List Char} (h : piece ∈ cut text) : '/' ∉ piece := by
  induction text generalizing piece with
  | nil =>
    rw [List.mem_singleton.mp h]
    exact List.not_mem_nil
  | cons c rest ih =>
    by_cases slash : c = '/'
    · subst slash
      rw [cut_slash] at h
      rcases List.mem_cons.mp h with rfl | h
      · exact List.not_mem_nil
      · exact ih h
    · obtain ⟨first, others, eq⟩ := List.exists_cons_of_ne_nil (cut_ne_nil rest)
      rw [cut_plain slash eq] at h
      rw [eq] at ih
      rcases List.mem_cons.mp h with rfl | h
      · intro inside
        rcases List.mem_cons.mp inside with here | inside
        · exact slash here.symm
        · exact ih List.mem_cons_self inside
      · exact ih (List.mem_cons_of_mem _ h)

theorem cut_append {piece : List Char} (whole : '/' ∉ piece) (rest : List Char) :
    cut (piece ++ '/' :: rest) = piece :: cut rest := by
  induction piece with
  | nil => exact cut_slash rest
  | cons c piece ih =>
    obtain ⟨plain, whole⟩ := not_or.mp (fun h => whole (List.mem_cons.mpr h))
    exact cut_plain (Ne.symm plain) (ih whole)

theorem cut_of_not_mem {piece : List Char} (whole : '/' ∉ piece) : cut piece = [piece] := by
  induction piece with
  | nil => rfl
  | cons c piece ih =>
    obtain ⟨plain, whole⟩ := not_or.mp (fun h => whole (List.mem_cons.mpr h))
    exact cut_plain (Ne.symm plain) (ih whole)

theorem exists_mem_cut {text : List Char} {c : Char} (member : c ∈ text) (plain : c ≠ '/') :
    ∃ piece ∈ cut text, c ∈ piece := by
  induction text with
  | nil => cases member
  | cons d rest ih =>
    by_cases slash : d = '/'
    · subst slash
      obtain ⟨piece, inside, there⟩ := ih ((List.mem_cons.mp member).resolve_left plain)
      rw [cut_slash]
      exact ⟨piece, List.mem_cons_of_mem _ inside, there⟩
    · obtain ⟨first, others, eq⟩ := List.exists_cons_of_ne_nil (cut_ne_nil rest)
      rw [cut_plain slash eq]
      rcases List.mem_cons.mp member with rfl | member
      · exact ⟨_, List.mem_cons_self, List.mem_cons_self⟩
      · obtain ⟨piece, inside, there⟩ := ih member
        rw [eq] at inside
        rcases List.mem_cons.mp inside with rfl | inside
        · exact ⟨_, List.mem_cons_self, List.mem_cons_of_mem _ there⟩
        · exact ⟨piece, List.mem_cons_of_mem _ inside, there⟩

theorem cut_intercalate {ps : List (List Char)} (some : ps ≠ []) (whole : ∀ p ∈ ps, '/' ∉ p) :
    cut (['/'].intercalate ps) = ps := by
  induction ps with
  | nil => exact absurd rfl some
  | cons p ps ih =>
    have first := whole p List.mem_cons_self
    have others : ∀ r ∈ ps, '/' ∉ r := fun r member => whole r (List.mem_cons_of_mem p member)
    rcases ps with _ | ⟨q, qs⟩
    · rw [List.intercalate_singleton]
      exact cut_of_not_mem first
    · have joined : ['/'].intercalate (p :: q :: qs) = p ++ '/' :: ['/'].intercalate (q :: qs) := by
        rw [List.intercalate_cons_cons, List.append_assoc, List.singleton_append]
      rw [joined, cut_append first, ih (List.cons_ne_nil q qs) others]

def Whole (ps : List String) : Prop := ∀ p ∈ ps, '/' ∉ p.toList

theorem whole_pieces (path : String) : Whole (pieces path) := by
  intro p member
  obtain ⟨text, cutOff, rfl⟩ := List.mem_map.mp member
  rw [String.toList_ofList]
  exact slash_not_mem_of_mem_cut cutOff

theorem pieces_eq_of_toList {path : String} {ps : List String}
    (h : cut path.toList = ps.map String.toList) : pieces path = ps := by
  rw [pieces, h, List.map_map]
  simp [Function.comp_def]

theorem cut_toList_intercalate {ps : List String} (some : ps ≠ []) (whole : Whole ps) :
    cut ("/".intercalate ps).toList = ps.map String.toList := by
  have texts : ∀ text ∈ ps.map String.toList, '/' ∉ text := by
    intro text member
    obtain ⟨p, inside, rfl⟩ := List.mem_map.mp member
    exact whole p inside
  rw [String.toList_intercalate]
  exact cut_intercalate (fun none => some (List.map_eq_nil_iff.mp none)) texts

theorem bodyPieces_rooted {path : String} {text : List Char} (h : path.toList = '/' :: text) :
    isRooted path = true ∧ bodyPieces path = (cut text).map String.ofList := by
  have rooted : isRooted path = true := by
    rw [isRooted, h]
    rfl
  refine ⟨rooted, ?_⟩
  rw [bodyPieces, if_pos rooted, pieces, h, cut_slash]
  rfl

theorem toList_of_isRooted {path : String} (h : isRooted path = true) :
    ∃ text, path.toList = '/' :: text := by
  unfold isRooted at h
  cases eq : path.toList with
  | nil => simp [eq] at h
  | cons c text =>
    simp [eq] at h
    exact ⟨text, by rw [h]⟩

theorem bodyPieces_ne_nil (path : String) : bodyPieces path ≠ [] := by
  by_cases rooted : isRooted path = true
  · obtain ⟨text, eq⟩ := toList_of_isRooted rooted
    rw [(bodyPieces_rooted eq).2]
    exact map_cut_ne_nil text
  · rw [bodyPieces, if_neg rooted]
    exact pieces_ne_nil path

theorem whole_bodyPieces (path : String) : Whole (bodyPieces path) := by
  intro p member
  unfold bodyPieces at member
  split at member
  · exact whole_pieces path p (List.mem_of_mem_drop member)
  · exact whole_pieces path p member

theorem exists_mem_bodyPieces {path : String} {c : Char} (member : c ∈ path.toList)
    (plain : c ≠ '/') : ∃ piece ∈ bodyPieces path, c ∈ piece.toList := by
  have lift {text : List Char} (member : c ∈ text) :
      ∃ piece ∈ (cut text).map String.ofList, c ∈ piece.toList := by
    obtain ⟨piece, inside, there⟩ := exists_mem_cut member plain
    exact ⟨_, List.mem_map_of_mem inside, by simpa using there⟩
  by_cases rooted : isRooted path = true
  · obtain ⟨text, eq⟩ := toList_of_isRooted rooted
    rw [(bodyPieces_rooted eq).2]
    rw [eq] at member
    exact lift ((List.mem_cons.mp member).resolve_left plain)
  · rw [bodyPieces, if_neg rooted]
    exact lift member

theorem head_of_filled {path first : String} {others : List String}
    (unrooted : ¬ isRooted path = true) (eq : bodyPieces path = first :: others)
    (some : path ≠ "") : first.toList ≠ [] := by
  rw [bodyPieces, if_neg unrooted, pieces] at eq
  cases text : path.toList with
  | nil => exact absurd (String.toList_eq_nil_iff.mp text) some
  | cons c rest =>
    have plain : c ≠ '/' := by
      rintro rfl
      exact unrooted (bodyPieces_rooted text).1
    obtain ⟨piece, pieces, cutOff⟩ := List.exists_cons_of_ne_nil (cut_ne_nil rest)
    rw [text, cut_plain plain cutOff] at eq
    rw [← (List.cons.inj eq).1, String.toList_ofList]
    exact List.cons_ne_nil c piece

theorem head_of_not_isRooted {path first : String} {others : List String}
    (unrooted : ¬ isRooted path = true) (eq : bodyPieces path = first :: others)
    (further : others ≠ []) : first.toList ≠ [] := by
  refine head_of_filled unrooted eq ?_
  rintro rfl
  exact further (List.cons.inj eq).2.symm

theorem ofPieces_rooted {ps : List String} (whole : Whole ps) :
    isRooted (ofPieces true ps) = true ∧
      bodyPieces (ofPieces true ps) = if ps = [] then [""] else ps := by
  have text : (ofPieces true ps).toList = '/' :: ("/".intercalate ps).toList := by
    simp [ofPieces]
  obtain ⟨rooted, body⟩ := bodyPieces_rooted text
  refine ⟨rooted, ?_⟩
  rw [body]
  split
  · rename_i none
    subst none
    rfl
  · rename_i some
    rw [cut_toList_intercalate some whole, List.map_map]
    simp [Function.comp_def]

theorem ofPieces_unrooted {ps : List String} (whole : Whole ps)
    (plain : ∀ first others, ps = first :: others → first.toList ≠ []) :
    ¬ isRooted (ofPieces false ps) = true ∧
      bodyPieces (ofPieces false ps) = if ps = [] then [""] else ps := by
  have joined : ofPieces false ps = "/".intercalate ps := by
    simp [ofPieces]
  rw [joined]
  cases ps with
  | nil => exact ⟨by decide, rfl⟩
  | cons first others =>
    have cutOff := cut_toList_intercalate (List.cons_ne_nil first others) whole
    have unrooted : ¬ isRooted ("/".intercalate (first :: others)) = true := by
      intro rooted
      obtain ⟨text, eq⟩ := toList_of_isRooted rooted
      rw [eq, cut_slash, List.map_cons] at cutOff
      exact plain first others rfl (List.cons.inj cutOff).1.symm
    refine ⟨unrooted, ?_⟩
    rw [bodyPieces, if_neg unrooted, if_neg (List.cons_ne_nil _ _)]
    exact pieces_eq_of_toList cutOff

theorem dropWhile_reverse_concat (drops : String → Bool) {last : String}
    (stays : drops last = false) (ps : List String) :
    ((ps ++ [last]).reverse.dropWhile drops).reverse = ps ++ [last] := by
  rw [List.reverse_append, List.reverse_singleton, List.singleton_append,
    List.dropWhile_cons_of_neg (by simp [stays]), List.reverse_cons, List.reverse_reverse]

section Trim

variable (rooted : Bool) (init : List String)

theorem exists_trimEnd : ∃ silent, init = trimEnd rooted init ++ silent ∧
    ∀ p ∈ silent, saysNothing p = true := by
  have trimmed (ps : List String) : ∃ silent,
      ps = (ps.reverse.dropWhile saysNothing).reverse ++ silent ∧
        ∀ p ∈ silent, saysNothing p = true := by
    refine ⟨(ps.reverse.takeWhile saysNothing).reverse, ?_, ?_⟩
    · rw [← List.reverse_append, List.takeWhile_append_dropWhile, List.reverse_reverse]
    · intro p member
      exact List.all_eq_true.mp List.all_takeWhile p (List.mem_reverse.mp member)
  unfold trimEnd
  split
  · rename_i rest
    obtain ⟨silent, eq, silence⟩ := trimmed rest
    exact ⟨silent, by rw [List.cons_append, ← eq], silence⟩
  · exact trimmed init

theorem trimEnd_concat {last : String} (speaks : saysNothing last = false) :
    trimEnd rooted (init ++ [last]) = init ++ [last] := by
  unfold trimEnd
  split
  · rename_i rest eq
    cases init with
    | nil =>
      rw [(List.cons.inj eq).1] at speaks
      exact absurd speaks (by decide)
    | cons first init =>
      obtain ⟨dot, tail⟩ := List.cons.inj eq
      rw [← tail, dot]
      exact congrArg (List.cons ".") (dropWhile_reverse_concat saysNothing speaks init)
  · exact dropWhile_reverse_concat saysNothing speaks init

end Trim

variable {path last : String} {init : List String}

theorem fileName?_eq (body : bodyPieces path = init ++ [last])
    (speaks : saysNothing last = false) (forward : last ≠ "..") : fileName? path = some last := by
  have plain : last ≠ "." := by
    rintro rfl
    exact absurd speaks (by decide)
  simp [fileName?, body, trimEnd_concat _ init speaks, plain, forward]

/-- The parent of a path is written with the pieces before its last one, up to those at the end
that say nothing. -/
structure ParentOf (path : String) (init : List String) (parent : String) : Prop where
  rooted : isRooted parent = isRooted path
  body : ∃ kept silent, init = kept ++ silent ∧ (∀ p ∈ silent, saysNothing p = true) ∧
    bodyPieces parent = if kept = [] then [""] else kept

theorem exists_parent (body : bodyPieces path = init ++ [last])
    (speaks : saysNothing last = false) :
    ∃ parent, parent? path = some parent ∧ ParentOf path init parent := by
  obtain ⟨silent, eq, silence⟩ := exists_trimEnd (isRooted path) init
  have whole : Whole (trimEnd (isRooted path) init) := by
    intro p member
    apply whole_bodyPieces path
    rw [body, eq]
    simp [member]
  refine ⟨ofPieces (isRooted path) (trimEnd (isRooted path) init), ?_, ?_⟩
  · have some : init ++ [last] ≠ [] := List.append_ne_nil_of_right_ne_nil _ (List.cons_ne_nil _ _)
    simp [parent?, body, trimEnd_concat _ init speaks]
  · cases rooted : isRooted path with
    | true =>
      rw [rooted] at whole eq
      obtain ⟨same, cutOff⟩ := ofPieces_rooted whole
      exact ⟨same.trans rooted.symm, _, silent, eq, silence, cutOff⟩
    | false =>
      rw [rooted] at whole eq
      have plain : ∀ first others, trimEnd false init = first :: others → first.toList ≠ [] := by
        intro first others begins
        have cutOff : bodyPieces path = first :: (others ++ silent ++ [last]) := by
          rw [body, eq, begins]
          rfl
        exact head_of_not_isRooted (by simp [rooted]) cutOff (by simp)
      obtain ⟨same, cutOff⟩ := ofPieces_unrooted whole plain
      have unrooted := Bool.eq_false_iff.mpr same
      exact ⟨unrooted.trans rooted.symm, _, silent, eq, silence, cutOff⟩

end PacketLayers.Path
