import PacketLayers.Proofs.Files.Matching

/-!
Paths that match themselves when they are read as patterns. Without brackets and without stars side
by side each character becomes a token that stands for the character itself, so the path of a file
is one of those that the search comes to. What can keep it away is how the search writes paths: the
working directory is left out of them, and an empty piece right behind it leaves nothing to look up.
-/
namespace PacketLayers

namespace Path

variable {path piece : String}

theorem isPrefix_of_cut {text first : List Char} {others : List (List Char)}
    (eq : cut text = first :: others) : first <+: text := by
  induction text generalizing first others with
  | nil =>
    obtain ⟨rfl, -⟩ := List.cons.inj eq
    exact List.prefix_rfl
  | cons c rest ih =>
    by_cases slash : c = '/'
    · subst slash
      rw [cut_slash] at eq
      obtain ⟨rfl, -⟩ := List.cons.inj eq
      exact List.nil_prefix
    · obtain ⟨piece, others', below⟩ := List.exists_cons_of_ne_nil (cut_ne_nil rest)
      rw [cut_plain slash below] at eq
      obtain ⟨rfl, -⟩ := List.cons.inj eq
      exact List.cons_prefix_cons.mpr ⟨rfl, ih below⟩

theorem isInfix_of_mem_cut {text piece : List Char} (member : piece ∈ cut text) :
    piece <:+: text := by
  induction text with
  | nil =>
    obtain rfl := List.mem_singleton.mp member
    exact List.infix_rfl
  | cons c rest ih =>
    have onward {piece : List Char} (below : piece <:+: rest) : piece <:+: c :: rest :=
      below.trans (List.suffix_cons c rest).isInfix
    by_cases slash : c = '/'
    · subst slash
      rw [cut_slash] at member
      rcases List.mem_cons.mp member with rfl | member
      · exact List.nil_infix
      · exact onward (ih member)
    · obtain ⟨first, others, eq⟩ := List.exists_cons_of_ne_nil (cut_ne_nil rest)
      have whole := cut_plain slash eq
      rw [whole] at member
      rcases List.mem_cons.mp member with rfl | member
      · exact (isPrefix_of_cut whole).isInfix
      · exact onward (ih (eq ▸ List.mem_cons_of_mem _ member))

theorem isInfix_of_mem_bodyPieces (member : piece ∈ bodyPieces path) :
    piece.toList <:+: path.toList := by
  have inside : piece ∈ pieces path := by
    unfold bodyPieces at member
    split at member
    · exact List.mem_of_mem_drop member
    · exact member
  obtain ⟨text, cutOff, rfl⟩ := List.mem_map.mp inside
  rw [String.toList_ofList]
  exact isInfix_of_mem_cut cutOff

theorem getLast?_ne_slash {init : List String} (body : bodyPieces path = init ++ [piece])
    (filled : piece ≠ "") : path.toList.getLast? ≠ some '/' := by
  intro slashed
  obtain ⟨front, eq⟩ := List.getLast?_eq_some_iff.mp slashed
  have cutOff := bodyPieces_of_pieces (pieces_behind_slash eq List.not_mem_nil)
    (map_cut_ne_nil front)
  have same := List.append_inj_right' (body.symm.trans cutOff) rfl
  exact filled (List.cons.inj same).1

def extent : List String → Nat
  | [] => 0
  | piece :: rest => piece.utf8ByteSize + 1 + extent rest

theorem extent_cut (text : List Char) :
    extent ((cut text).map String.ofList) = (String.ofList text).utf8ByteSize + 1 := by
  have size (c : Char) (cs : List Char) : (String.ofList (c :: cs)).utf8ByteSize =
      c.utf8Size + (String.ofList cs).utf8ByteSize := by
    rw [String.ofList_cons, String.utf8ByteSize_append, String.utf8ByteSize_singleton]
  induction text with
  | nil => rfl
  | cons c rest ih =>
    obtain ⟨first, others, eq⟩ := List.exists_cons_of_ne_nil (cut_ne_nil rest)
    rw [size]
    by_cases slash : c = '/'
    · subst slash
      rw [cut_slash, List.map_cons, extent, ih]
      have one : '/'.utf8Size = 1 := rfl
      have none : (String.ofList []).utf8ByteSize = 0 := rfl
      omega
    · rw [eq, List.map_cons, extent] at ih
      rw [cut_plain slash eq, List.map_cons, extent, size]
      omega

theorem extent_pieces (path : String) : extent (pieces path) = path.utf8ByteSize + 1 := by
  rw [pieces, extent_cut, String.ofList_toList]

theorem extent_bodyPieces (path : String) :
    (if isRooted path then 1 else 0) + extent (bodyPieces path) ≤ path.utf8ByteSize + 1 := by
  obtain ⟨first, others, eq⟩ := List.exists_cons_of_ne_nil (pieces_ne_nil path)
  rw [← extent_pieces, bodyPieces, eq, List.drop_one, List.tail_cons, extent]
  split
  · omega
  · rw [extent]
    omega

/-- Whether no empty piece comes right behind the dots that a path without a root begins with. -/
def Tight (path : String) : Prop :=
  isRooted path = false → ((bodyPieces path).dropWhile (· == ".")).head? ≠ some ""

instance (path : String) : Decidable (Tight path) :=
  inferInstanceAs (Decidable (isRooted path = false → _))

end Path

namespace Glob

/-! ### Texts that match themselves -/

/-- Whether each character of a text makes a token of its own. -/
def Single (text : List Char) : Prop := '[' ∉ text ∧ ¬ ['*', '*'] <:+: text

instance (text : List Char) : Decidable (Single text) :=
  inferInstanceAs (Decidable ('[' ∉ text ∧ ¬ ['*', '*'] <:+: text))

def tokenOf (c : Char) : Token :=
  if c = '*' then .anyRun else if c = '?' then .anyChar else .char c

variable {text : List Char} {path piece : String}

theorem Single.of_isInfix {part : List Char} (single : Single text) (inside : part <:+: text) :
    Single part :=
  ⟨fun bracket => single.1 (inside.subset bracket), fun stars => single.2 (stars.trans inside)⟩

theorem compile_of_single (single : Single text) (fresh : Bool) :
    compile fresh text = .ok (text.map tokenOf) := by
  induction text generalizing fresh with
  | nil =>
    unfold compile
    rfl
  | cons c rest ih =>
    have below := ih (single.of_isInfix (List.suffix_cons c rest).isInfix)
    have stars : ∀ more, c :: rest ≠ '*' :: '*' :: more := fun more eq =>
      single.2 (eq ▸ ⟨[], more, rfl⟩)
    have bracket : c ≠ '[' := by
      rintro rfl
      exact single.1 List.mem_cons_self
    -- Brackets and stars side by side are all that tokens of several characters begin with.
    unfold compile
    split
    · rename_i none
      cases none
    · rename_i more eq
      exact absurd eq (stars _)
    · rename_i more _ eq
      exact absurd eq (stars _)
    · rename_i more _ _ eq
      obtain ⟨rfl, rfl⟩ := List.cons.inj eq
      rw [below]
      rfl
    · rename_i more eq
      obtain ⟨rfl, rfl⟩ := List.cons.inj eq
      rw [below]
      rfl
    · rename_i more eq
      exact absurd (List.cons.inj eq).1 bracket
    · rename_i star mark _ eq
      obtain ⟨rfl, rfl⟩ := List.cons.inj eq
      have plain : tokenOf c = .char c := by
        rw [tokenOf, if_neg star, if_neg mark]
      rw [below, List.map_cons, plain]
      rfl

theorem matchesName_behind_run {t : Token} (run : isRun t = true) {ts : List Token}
    (behind : matchesName ts text = true) : matchesName (t :: ts) text = true := by
  cases text with
  | nil =>
    rw [matchesName_run_nil run]
    exact behind
  | cons c cs =>
    rw [matchesName_run run, behind]
    rfl

theorem matchesName_self (text : List Char) : matchesName (text.map tokenOf) text = true := by
  induction text with
  | nil => rfl
  | cons c rest ih =>
    rw [List.map_cons]
    by_cases star : c = '*'
    · subst star
      have run : isRun (tokenOf '*') = true := rfl
      rw [matchesName_run run, matchesName_behind_run run ih, Bool.or_true]
    · have one : ¬ isRun (tokenOf c) = true ∧ (tokenOf c).accepts c = true := by
        rw [tokenOf, if_neg star]
        split
        · exact ⟨by decide, rfl⟩
        · exact ⟨Bool.false_ne_true, beq_self_eq_true c⟩
      rw [matchesName_one one.1, one.2, ih]
      rfl

theorem fits_self (piece : String) : Fits (piece.toList.map tokenOf) piece := by
  refine ⟨matchesName_self _, ?_, ?_⟩
  · rintro rfl
    rfl
  · intro dots
    have either : piece = "." ∨ piece = ".." := by simpa [Workspace.isDots] using dots
    rcases either with rfl | rfl <;> rfl

theorem plain_self (text : List Char) : isRecursive (text.map tokenOf) = false := by
  refine Bool.eq_false_iff.mpr fun recursive => ?_
  have same : text.map tokenOf = [.recursive] := by simpa [isRecursive] using recursive
  obtain ⟨c, -, eq⟩ := List.map_eq_singleton_iff.mp same
  unfold tokenOf at eq
  split at eq
  · cases eq
  · split at eq
    · cases eq
    · cases eq

def Pattern.ofPath (path : String) : Pattern :=
  ⟨Path.isRooted path, (Path.bodyPieces path).map fun piece => piece.toList.map tokenOf, false⟩

theorem parse_of_single {init : List String} (single : Single path.toList)
    (body : Path.bodyPieces path = init ++ [piece]) (filled : piece ≠ "") :
    parse path = .ok (Pattern.ofPath path) := by
  have each {ps : List String} (inside : ∀ p ∈ ps, p ∈ Path.bodyPieces path) :
      ps.mapM (fun p => compile true p.toList) = .ok (ps.map fun p => p.toList.map tokenOf) := by
    induction ps with
    | nil => rfl
    | cons p ps ih =>
      obtain ⟨first, others⟩ := List.forall_mem_cons.mp inside
      have part := single.of_isInfix (Path.isInfix_of_mem_bodyPieces first)
      rw [List.mapM_cons, compile_of_single part, ih others]
      rfl
  have ends : ((Path.bodyPieces path).getLast? == some "") = false := by
    simp [body, filled]
  have open_ended : (path.toList.getLast? == some '/') = false := by
    simpa using Path.getLast?_ne_slash body filled
  unfold parse
  rw [compile_of_single single]
  dsimp only [bind, Except.bind]
  rw [ends, open_ended]
  simp only [Bool.false_eq_true, if_false, each fun _ member => member]
  rfl

namespace Search

/-! ### The way along a path -/

variable {s : Search} {site next : Site} {loc : Location} {ps : List String}

def lead (path : String) : Nat :=
  if isCurrent path then 0 else (Path.join path "").utf8ByteSize

theorem size_inside (site : Site) (whole : '/' ∉ piece.toList) :
    (inside site piece).utf8ByteSize = lead site.path + piece.utf8ByteSize := by
  have empty : Path.isRooted "" = false := rfl
  unfold inside lead
  split
  · rw [Nat.zero_add]
  · unfold Path.join
    rw [Path.not_isRooted_of_not_mem whole, empty]
    simp only [Bool.false_eq_true, if_false]
    split
    · simp [String.utf8ByteSize_append]
    · simp [String.utf8ByteSize_append]

theorem lead_le (path : String) : lead path ≤ path.utf8ByteSize + 1 := by
  have empty : Path.isRooted "" = false := rfl
  have slash : "/".utf8ByteSize = 1 := rfl
  unfold lead Path.join
  rw [empty]
  simp only [Bool.false_eq_true, if_false]
  split
  · exact Nat.zero_le _
  · split
    · simp
    · simp [slash]

theorem isCurrent_iff {path : String} (some : path ≠ "") :
    isCurrent path = true ↔
      Path.isRooted path = false ∧ ∀ p ∈ Path.bodyPieces path, Path.saysNothing p = true := by
  rw [isCurrent, beq_iff_eq]
  constructor
  · exact Path.silent_of_components
  · rintro ⟨unrooted, silence⟩
    exact Path.components_of_silent some unrooted silence

theorem isCurrent_of_join (some : path ≠ "") (whole : '/' ∉ piece.toList)
    (current : isCurrent (Path.join path piece) = true) : isCurrent path = true := by
  obtain ⟨rooted, init, body, either⟩ := Path.bodyPieces_join some whole
  obtain ⟨unrooted, silence⟩ := Path.silent_of_components (beq_iff_eq.mp current)
  rw [body] at silence
  refine (isCurrent_iff some).mpr ⟨rooted ▸ unrooted, ?_⟩
  rcases either with eq | eq
  · intro p member
    exact silence p (List.mem_append_left _ (eq ▸ member))
  · intro p member
    rw [eq] at member
    rcases List.mem_append.mp member with member | member
    · exact silence p (List.mem_append_left _ member)
    · obtain rfl := List.mem_singleton.mp member
      rfl

def Clear (path : String) (ps : List String) : Prop :=
  isCurrent path = true → (ps.dropWhile (· == ".")).head? ≠ some ""

theorem Clear.filled (clear : Clear path (piece :: ps)) (current : isCurrent path = true) :
    piece ≠ "" := by
  rintro rfl
  exact clear current rfl

theorem Clear.onward (some : site.path ≠ "") (whole : '/' ∉ piece.toList)
    (clear : Clear site.path (piece :: ps)) : Clear (inside site piece) ps := by
  intro stays
  unfold inside at stays
  split at stays
  · rename_i current
    have filled := clear.filled current
    have silent : Path.saysNothing piece = true := by
      refine (Path.silent_of_components (beq_iff_eq.mp stays)).2 piece ?_
      rw [Path.bodyPieces_of_not_mem whole]
      exact List.mem_singleton.mpr rfl
    obtain rfl : piece = "." := by
      have either : piece = "" ∨ piece = "." := by simpa [Path.saysNothing] using silent
      exact either.resolve_left filled
    exact clear current
  · rename_i elsewhere
    exact absurd (isCurrent_of_join some whole stays) elsewhere

theorem enter?_self (proper : s.workspace.Proper) (located : site.Located s.workspace)
    (clear : Clear site.path (piece :: ps)) (room : lead site.path + piece.utf8ByteSize ≤ 4095)
    (onward : s.workspace.follow site.location [piece] = .ok loc) :
    s.enter? (piece.toList.map tokenOf) site piece = some ⟨inside site piece, piece, loc⟩ := by
  obtain ⟨whole, -⟩ := proper.plain_of_follow onward
  have undotted : ((literal? (piece.toList.map tokenOf)).isNone && Workspace.isDots piece) =
      false := by
    cases dots : Workspace.isDots piece with
    | false => exact Bool.and_false _
    | true =>
      have either : piece = "." ∨ piece = ".." := by simpa [Workspace.isDots] using dots
      rcases either with rfl | rfl <;> rfl
  have some : inside site piece ≠ "" := by
    unfold inside
    split
    · rename_i current
      exact clear.filled current
    · exact (located.join proper onward).some
  have there := located.inside proper onward some
  have short : Path.isLong (inside site piece) = false := by
    rw [Path.isLong, size_inside site whole]
    exact decide_eq_false (by omega)
  unfold enter?
  rw [undotted]
  exact step?_eq_some_iff.mpr ⟨there.wholeFault?_eq_none_iff.mpr short, loc, onward, rfl⟩

theorem exists_hits (proper : s.workspace.Proper) (any : s.directoriesOnly = false)
    (file : (s.workspace.content? loc).isSome = true) (located : site.Located s.workspace)
    (clear : Clear site.path ps) (room : lead site.path + Path.extent ps ≤ 4096)
    (follows : s.workspace.follow site.location ps = .ok loc) :
    ∃ last, last.location = loc ∧
      s.Hits false (ps.map fun p => p.toList.map tokenOf) site (ps.map ([·])) last := by
  induction ps generalizing site with
  | nil =>
    obtain rfl := Except.ok.inj follows
    exact ⟨site, rfl, hits_nil_iff.mpr ⟨rfl, rfl, file, any⟩⟩
  | cons piece ps ih =>
    have passes := Workspace.passes_of_follow follows
    have onward := Workspace.follow_one_iff.mpr ⟨passes, rfl⟩
    obtain ⟨whole, -⟩ := proper.plain_of_follow onward
    rw [Path.extent] at room
    rw [Workspace.follow_cons passes] at follows
    have entered := enter?_self proper located clear (by omega) onward
    obtain ⟨there, -, -⟩ := located_of_enter? proper located entered
    have size := size_inside site whole
    have after := lead_le (inside site piece)
    obtain ⟨last, ends, hits⟩ :=
      ih there (clear.onward located.some whole) (by dsimp only; omega) follows
    exact ⟨last, ends, (hits_one_iff (plain_self _)).mpr
      ⟨piece, _, _, rfl, fits_self piece, nofun, entered, hits⟩⟩

end Search

theorem Pattern.origin_ofPath (w : Workspace) (tight : Path.Tight path) :
    ((ofPath path).origin w).location = w.start path ∧
      Search.Clear ((ofPath path).origin w).path (Path.bodyPieces path) ∧
      Search.lead ((ofPath path).origin w).path = if Path.isRooted path then 1 else 0 := by
  have origin (begins : String) (eq : (if Path.isRooted path then "/" else ".") = begins) :
      (ofPath path).origin w = ⟨begins, "", w.start begins⟩ := eq ▸ rfl
  have atRoot : Path.isRooted "/" = true ∧ ¬ Search.isCurrent "/" = true ∧
    Search.lead "/" = 1 := by decide
  have atDot : Path.isRooted "." = false ∧ Search.lead "." = 0 := by decide
  cases rooted : Path.isRooted path with
  | true =>
    rw [origin "/" (if_pos rooted)]
    refine ⟨?_, fun current => absurd current atRoot.2.1, atRoot.2.2⟩
    simp [Workspace.start, rooted, atRoot.1]
  | false =>
    rw [origin "." (if_neg (by simp [rooted]))]
    refine ⟨?_, fun _ => tight rooted, atDot.2⟩
    simp [Workspace.start, rooted, atDot.1]

/-- The path of a file matches itself, unless an empty piece comes right behind the dots that it
begins with. -/
theorem matchesFile_self {w : Workspace} {loc : Location} (proper : w.Proper)
    (single : Single path.toList) (tight : Path.Tight path) (resolved : w.resolve path = .ok loc)
    (file : (w.content? loc).isSome = true) :
    parse path = .ok (.ofPath path) ∧ (Pattern.ofPath path).MatchesFile w loc := by
  obtain ⟨short, follows⟩ := Workspace.resolve_eq_ok_iff.mp resolved
  obtain ⟨init, name, body, speaks, -, -⟩ :=
    Workspace.exists_name_of_file (Path.bodyPieces_ne_nil path) follows file
  have filled : name ≠ "" := by
    rintro rfl
    cases speaks
  obtain ⟨located, -⟩ := (Pattern.ofPath path).located_origin proper.here
  obtain ⟨starts, clear, lead⟩ := Pattern.origin_ofPath w tight
  have extent := Path.extent_bodyPieces path
  have size := Workspace.size_le_of_wholeFault? short
  rw [← starts] at follows
  obtain ⟨last, ends, hits⟩ := Search.exists_hits (s := (Pattern.ofPath path).searchIn w) proper
    rfl file located clear (by omega) follows
  exact ⟨parse_of_single single body filled, _, last, hits, ends⟩

example : Path.Tight "./a//b?.pcap" ∧ ¬ Path.Tight ".//b?.pcap" := by decide

end Glob

end PacketLayers
