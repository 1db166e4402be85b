import PacketLayers.Files.Workspace

/-!
Patterns of paths. `?` stands for one character, `*` for any number, brackets for one of a class,
and a component `**` for any number of directories. Components without these are looked up and
not compared. What matches comes in alphabetical order in each directory, what the rest of a
pattern finds at a directory before what `**` finds below it.
-/
namespace PacketLayers.Glob

inductive PatternFault where
  | manyStars
  | partialRecursive
  | badClass
deriving DecidableEq, Repr

def PatternFault.message : PatternFault → String
  | .manyStars => "wildcards are either regular `*` or recursive `**`"
  | .partialRecursive => "recursive wildcards must form a single path component"
  | .badClass => "invalid range pattern"

structure CharRange where
  low : Char
  high : Char
deriving DecidableEq, Repr

inductive Token where
  | char (c : Char)
  | anyChar
  | anyRun
  | recursive
  | within (ranges : List CharRange)
  | except (ranges : List CharRange)
deriving DecidableEq, Repr

/-- The items of a class. A dash between two characters makes a range of them. -/
def ranges : List Char → List CharRange
  | a :: '-' :: b :: rest => ⟨a, b⟩ :: ranges rest
  | a :: rest => ⟨a, a⟩ :: ranges rest
  | [] => []

/-- The class behind an opening bracket and what follows it. Its first character never closes
it. -/
def classBody : List Char → Option (List Char × List Char)
  | [] => none
  | first :: more =>
    match more.dropWhile (· != ']') with
    | [] => none
    | _ :: rest => some (first :: more.takeWhile (· != ']'), rest)

/-- A class, negated by an exclamation mark, behind its opening bracket. -/
def classToken (text : List Char) : Except PatternFault (Token × List Char) :=
  match text with
  | '!' :: body =>
    match classBody body with
    | some (items, rest) => .ok (.except (ranges items), rest)
    | none => .error .badClass
  | body =>
    match classBody body with
    | some (items, rest) => .ok (.within (ranges items), rest)
    | none => .error .badClass

theorem length_of_classBody {text items rest : List Char}
    (h : classBody text = some (items, rest)) : rest.length < text.length := by
  unfold classBody at h
  split at h
  · cases h
  · rename_i first more
    split at h
    · cases h
    · rename_i c tail stopped
      cases h
      have suffix := (List.dropWhile_sublist (p := (· != ']')) (l := more)).length_le
      rw [stopped] at suffix
      simp only [List.length_cons] at suffix ⊢
      omega

theorem length_of_classToken {text rest : List Char} {token : Token}
    (h : classToken text = .ok (token, rest)) : rest.length < text.length := by
  unfold classToken at h
  split at h
  · split at h
    · rename_i found
      cases h
      have := length_of_classBody found
      simp only [List.length_cons]
      omega
    · cases h
  · split at h
    · rename_i found
      cases h
      exact length_of_classBody found
    · cases h

/-- The tokens of a pattern. `fresh` says whether a component begins here. -/
def compile (fresh : Bool) (text : List Char) : Except PatternFault (List Token) :=
  match text with
  | [] => .ok []
  | '*' :: '*' :: '*' :: _ => .error .manyStars
  | '*' :: '*' :: rest =>
    if fresh then
      match rest with
      | [] => .ok [.recursive]
      | '/' :: more => (compile true more).map (.recursive :: ·)
      | _ => .error .partialRecursive
    else .error .partialRecursive
  | '*' :: rest => (compile false rest).map (.anyRun :: ·)
  | '?' :: rest => (compile false rest).map (.anyChar :: ·)
  | '[' :: rest =>
    match _ : classToken rest with
    | .ok (token, more) => (compile false more).map (token :: ·)
    | .error e => .error e
  | c :: rest => (compile (c == '/') rest).map (.char c :: ·)
termination_by text.length
decreasing_by
  all_goals simp only [List.length_cons]
  all_goals first
    | omega
    | exact Nat.lt_succ_of_lt (length_of_classToken ‹_›)

def inRanges (rs : List CharRange) (c : Char) : Bool :=
  rs.any fun r => r.low ≤ c && c ≤ r.high

/-- Whether a token other than a run of characters stands for a character. -/
def Token.accepts : Token → Char → Bool
  | .char d, c => c == d
  | .anyChar, _ => true
  | .within rs, c => inRanges rs c
  | .except rs, c => !inRanges rs c
  | .anyRun, _ => false
  | .recursive, _ => false

def isRun : Token → Bool
  | .anyRun => true
  | .recursive => true
  | _ => false

/-- Where one of the verdicts from there on holds. -/
def heldLater (verdicts : List Bool) : List Bool :=
  verdicts.foldr (fun v later => (v || later.headD false) :: later) []

/-- Where a token stands for the next character and the verdict behind that one holds. -/
def heldBehind (t : Token) : List Char → List Bool → List Bool
  | c :: cs, _ :: later => (t.accepts c && later.headD false) :: heldBehind t cs later
  | _, _ => [false]

/-- Whether tokens stand for a name, and then for every tail of it. A token is tried once for each
tail, however many runs there are. -/
def tailVerdicts : List Token → List Char → List Bool
  | [], cs => cs.foldr (fun _ later => false :: later) [true]
  | t :: ts, cs =>
    if isRun t then heldLater (tailVerdicts ts cs) else heldBehind t cs (tailVerdicts ts cs)

def matchesName (tokens : List Token) (name : List Char) : Bool :=
  (tailVerdicts tokens name).headD false

theorem tailVerdicts_cons (tokens : List Token) (c : Char) (cs : List Char) :
    tailVerdicts tokens (c :: cs) = matchesName tokens (c :: cs) :: tailVerdicts tokens cs := by
  have begins : ∃ v, tailVerdicts tokens (c :: cs) = v :: tailVerdicts tokens cs := by
    induction tokens with
    | nil => exact ⟨false, rfl⟩
    | cons t ts ih =>
      obtain ⟨v, ih⟩ := ih
      by_cases run : isRun t
      · simp only [tailVerdicts, if_pos run, ih]
        exact ⟨_, rfl⟩
      · simp only [tailVerdicts, if_neg run, ih]
        exact ⟨_, rfl⟩
  obtain ⟨v, begins⟩ := begins
  rw [matchesName, begins]
  rfl

theorem tailVerdicts_nil (tokens : List Token) :
    tailVerdicts tokens [] = [matchesName tokens []] := by
  have single : ∃ v, tailVerdicts tokens [] = [v] := by
    induction tokens with
    | nil => exact ⟨true, rfl⟩
    | cons t ts ih =>
      obtain ⟨v, ih⟩ := ih
      by_cases run : isRun t
      · simp only [tailVerdicts, if_pos run, ih]
        exact ⟨_, rfl⟩
      · simp only [tailVerdicts, if_neg run, ih]
        exact ⟨_, rfl⟩
  obtain ⟨v, single⟩ := single
  rw [matchesName, single]
  rfl

theorem matchesName_nil (name : List Char) : matchesName [] name = name.isEmpty := by
  cases name <;> rfl

theorem matchesName_run {t : Token} (run : isRun t = true) (ts : List Token) (c : Char)
    (cs : List Char) :
    matchesName (t :: ts) (c :: cs) = (matchesName ts (c :: cs) || matchesName (t :: ts) cs) := by
  rw [matchesName, tailVerdicts, if_pos run, tailVerdicts_cons]
  conv => rhs; rw [matchesName.eq_1 (t :: ts), tailVerdicts, if_pos run]
  rfl

theorem matchesName_run_nil {t : Token} (run : isRun t = true) (ts : List Token) :
    matchesName (t :: ts) [] = matchesName ts [] := by
  rw [matchesName, tailVerdicts, if_pos run, tailVerdicts_nil]
  exact Bool.or_false _

theorem matchesName_one {t : Token} (one : ¬ isRun t = true) (ts : List Token) (c : Char)
    (cs : List Char) :
    matchesName (t :: ts) (c :: cs) = (t.accepts c && matchesName ts cs) := by
  rw [matchesName, tailVerdicts, if_neg one, tailVerdicts_cons]
  rfl

theorem matchesName_one_nil {t : Token} (one : ¬ isRun t = true) (ts : List Token) :
    matchesName (t :: ts) [] = false := by
  rw [matchesName, tailVerdicts, if_neg one]
  rfl

/-- The text of a component that has nothing but plain characters. -/
def literal? (tokens : List Token) : Option String :=
  (tokens.mapM fun (t : Token) =>
    match t with
    | .char c => some c
    | _ => none).map String.ofList

def isRecursive (tokens : List Token) : Bool := tokens == [.recursive]

structure Pattern where
  rooted : Bool
  components : List (List Token)
  /-- Whether a slash ends the pattern, so that only directories match. -/
  directoriesOnly : Bool

/-- Compiles a pattern as a whole, and then each of its components. -/
def parse (pattern : String) : Except PatternFault Pattern := do
  let _ ← compile true pattern.toList
  let body := Path.bodyPieces pattern
  let slashed := body.getLast? == some ""
  let pieces := if slashed then body.dropLast else body
  let components ← pieces.mapM fun piece => compile true piece.toList
  return ⟨Path.isRooted pattern, components, pattern.toList.getLast? == some '/'⟩

/-- A path found so far, its last name, and the location that it names. -/
structure Site where
  path : String
  name : String
  location : Location

inductive Found where
  | path (p : String)
  /-- A directory whose path is too long to list it. -/
  | unreadable (path : String)
deriving DecidableEq, Repr

/-- A search in a tree: whether only directories count, and how deep the tree is. -/
structure Search where
  workspace : Workspace
  directoriesOnly : Bool
  height : Nat

namespace Search

def isDirectory (s : Search) (found : Site) : Bool := s.workspace.isDirectory found.location

def isCurrent (path : String) : Bool := Path.components path == ["."]

/-- A name in a directory; the working directory is left out of the path. -/
def inside (directory : Site) (name : String) : String :=
  if isCurrent directory.path then name else Path.join directory.path name

/-- What one piece names in a directory, under a path that can be looked up. -/
def step? (s : Search) (directory : Site) (piece path : String) : Option Site :=
  match Workspace.wholeFault? path, s.workspace.follow directory.location [piece] with
  | none, .ok location => some ⟨path, piece, location⟩
  | _, _ => none

def children (s : Search) (directory : Site) : List Site :=
  ((s.workspace.names directory.location).mergeSort (fun a b => decide (a ≤ b))).map fun name =>
    ⟨inside directory name, name, directory.location ++ [name]⟩

def accept (s : Search) (found : Site) : List Found :=
  if s.directoriesOnly && !s.isDirectory found then [] else [.path found.path]

/-- The dots that a component may stand for, if it begins with one. -/
def dots (tokens : List Token) : List String :=
  match tokens with
  | .char '.' :: _ => ["..", "."].filter fun d => matchesName tokens d.toList
  | _ => []

theorem length_dropWhile_le {β : Type} (p : β → Bool) (xs : List β) :
    (xs.dropWhile p).length ≤ xs.length :=
  (List.dropWhile_sublist p).length_le

/-- The paths that components find from a directory on. `descent` bounds how much deeper `**`
may still look. -/
def expand (s : Search) (components : List (List Token)) (descent : Nat) (directory : Site) :
    List Found :=
  match components with
  | [] => []
  | tokens :: rest =>
    let arrive (found : Site) : List Found :=
      if rest.isEmpty then s.accept found else s.expand rest s.height found
    match literal? tokens with
    | some name => ((s.step? directory name (inside directory name)).map arrive).getD []
    | none =>
      if !s.isDirectory directory then []
      else if Path.isLong directory.path then [.unreadable directory.path]
      else
        let dotted := (dots tokens).flatMap fun d =>
          ((s.step? directory d (Path.join directory.path d)).map arrive).getD []
        let listed := (s.children directory).flatMap fun child =>
          if isRecursive tokens then
            let deeper := match descent with
              | 0 => []
              | left + 1 =>
                if s.isDirectory child then
                  s.expand (tokens :: rest.dropWhile isRecursive) left child
                else []
            match _ : rest.dropWhile isRecursive with
            | [] => (if s.isDirectory child then [.path child.path] else []) ++ deeper
            | next :: last =>
              let here :=
                if !matchesName next child.name.toList then []
                else if last.isEmpty then s.accept child
                else s.expand last s.height child
              here ++ deeper
          else if matchesName tokens child.name.toList then arrive child
          else []
        dotted ++ listed
termination_by (components.length, descent)
decreasing_by
  all_goals
    have shorter := length_dropWhile_le isRecursive rest
    simp only [Prod.lex_def, List.length_cons]
  · omega
  · omega
  · simp only [*, List.length_cons] at shorter
    omega

end Search

/-- All paths of a tree that match a pattern, one for each way in which they do, and the
directories that could not be listed on the way. -/
def search (w : Workspace) (p : Pattern) : List Found :=
  let s : Search := ⟨w, p.directoriesOnly, w.root.height + 1⟩
  let path := if p.rooted then "/" else "."
  s.expand p.components s.height ⟨path, "", w.start path⟩

def find (w : Workspace) (p : Pattern) : Except String (List String) :=
  (search w p).mapM fun
    | .path path => .ok path
    | .unreadable path => .error path

end PacketLayers.Glob
