import Mathlib.Data.List.Dedup
import PacketLayers.Proofs.Command.Overwrite
import PacketLayers.Proofs.Files.Ambiguity
import PacketLayers.Proofs.Files.Search

/-!
The file that a pattern stands for. The command counts the ways in which the pattern matches files,
so it answers for the files themselves exactly if each of them is matched in one way. Main
statement: this characterization, with a condition on patterns that is enough for it.
-/
namespace PacketLayers

namespace Command

variable {w : Workspace} {input : String} {p : Glob.Pattern}

theorem exists_filled_piece (pattern : isPattern input = true) :
    ∃ piece ∈ Path.bodyPieces input, piece ≠ "" := by
  obtain ⟨c, member, special⟩ := List.any_eq_true.mp pattern
  have plain : c ≠ '/' := by
    rintro rfl
    exact absurd special (by decide)
  obtain ⟨piece, inside, there⟩ := Path.exists_mem_bodyPieces member plain
  refine ⟨piece, inside, ?_⟩
  rintro rfl
  cases there

theorem components_ne_nil (pattern : isPattern input = true) (valid : Glob.parse input = .ok p) :
    p.components ≠ [] := by
  obtain ⟨piece, inside, filled⟩ := exists_filled_piece pattern
  have pieces : (if (Path.bodyPieces input).getLast? == some "" then
      (Path.bodyPieces input).dropLast else Path.bodyPieces input) ≠ [] := by
    split
    · rename_i slashed
      obtain ⟨front, eq⟩ := List.getLast?_eq_some_iff.mp (by simpa using slashed)
      rw [eq] at inside ⊢
      rw [List.dropLast_concat]
      rintro rfl
      exact filled (List.mem_singleton.mp inside)
    · exact List.ne_nil_of_mem inside
  obtain ⟨first, others, eq⟩ := List.exists_cons_of_ne_nil pieces
  unfold Glob.parse at valid
  simp only [eq, List.mapM_cons, bind, Except.bind] at valid
  split at valid
  · cases valid
  · split at valid
    · cases valid
    · rename_i components found
      cases valid
      split at found
      · cases found
      · split at found
        · cases found
        · cases found
          exact List.cons_ne_nil _ _

/-- Whether the command answers for a list of files: with the path of the only one, or else with
their number. -/
def Answers (w : Workspace) (input : String) : List Location → Prop
  | [] => ∃ hint, inputPath w input = .error ⟨"no files match pattern '" ++ input ++ "'", hint⟩
  | [loc] => ∃ path, inputPath w input = .ok path ∧ w.resolve path = .ok loc
  | files => ∃ listing hint, inputPath w input =
      .error ⟨"multiple files match pattern '" ++ input ++ "' (" ++ toString files.length ++
        " matches); matches: " ++ listing, hint⟩

theorem count_injective {before after after' : String} {n m : Nat}
    (same : before ++ toString n ++ " matches); matches: " ++ after =
      before ++ toString m ++ " matches); matches: " ++ after') : n = m := by
  have text (k : Nat) (rest : String) :
      (before ++ toString k ++ " matches); matches: " ++ rest).toList =
        before.toList ++ (Nat.toDigits 10 k ++
          ' ' :: ("matches); matches: ".toList ++ rest.toList)) := by
    simp
  have read (k : Nat) (rest : List Char) :
      (Nat.toDigits 10 k ++ ' ' :: rest).takeWhile Char.isDigit = Nat.toDigits 10 k := by
    rw [List.takeWhile_append_of_pos fun c member =>
      Nat.isDigit_of_mem_toDigits (by decide) (by decide) member]
    exact List.append_nil _
  have behind := congrArg String.toList same
  rw [text, text] at behind
  have digits := congrArg (List.takeWhile Char.isDigit) (List.append_cancel_left behind)
  rw [read, read] at digits
  have value (k : Nat) : Nat.ofDigitChars 10 (Nat.toDigits 10 k) 0 = k :=
    Nat.ofDigitChars_toDigits (by decide) (by decide)
  rw [← value n, digits, value]

def initial? : Except Failure String → Option Char
  | .ok _ => none
  | .error f => f.message.toList.head?

theorem Answers.initial_eq {files : List Location} (answers : Answers w input files) :
    initial? (inputPath w input) =
      match files.length with
      | 0 => some 'n'
      | 1 => none
      | _ => some 'm' := by
  rcases files with _ | ⟨first, _ | ⟨second, others⟩⟩
  · obtain ⟨hint, eq⟩ := answers
    simp [initial?, eq]
  · obtain ⟨path, eq, -⟩ := answers
    simp [initial?, eq]
  · obtain ⟨listing, hint, eq⟩ := answers
    simp [initial?, eq]

theorem Answers.length_eq {files others : List Location} (first : Answers w input files)
    (second : Answers w input others) : files.length = others.length := by
  have same := first.initial_eq.symm.trans second.initial_eq
  rcases files with _ | ⟨a, _ | ⟨a', files⟩⟩ <;> rcases others with _ | ⟨b, _ | ⟨b', others⟩⟩
  any_goals first | rfl | (simp at same; done)
  obtain ⟨listing, hint, eq⟩ := first
  obtain ⟨listing', hint', eq'⟩ := second
  have texts := congrArg Failure.message (Except.error.inj (eq.symm.trans eq'))
  exact count_injective texts

theorem Answers.perm {files others : List Location} (answers : Answers w input files)
    (same : files.Perm others) : Answers w input others := by
  have lengths := same.length_eq
  rcases files with _ | ⟨a, _ | ⟨a', files⟩⟩
  · obtain rfl := same.nil_eq
    exact answers
  · obtain rfl := List.singleton_perm.mp same
    exact answers
  · rcases others with _ | ⟨b, _ | ⟨b', others⟩⟩
    · cases lengths
    · cases lengths
    · obtain ⟨listing, hint, eq⟩ := answers
      exact ⟨listing, hint, lengths ▸ eq⟩

theorem answers_oneFile {sites : List Glob.Site}
    (answer : inputPath w input = oneFile input (sites.map Glob.Site.path))
    (resolved : ∀ site ∈ sites, w.resolve site.path = .ok site.location) :
    Answers w input (sites.map Glob.Site.location) := by
  rcases sites with _ | ⟨first, _ | ⟨second, others⟩⟩
  · exact ⟨_, answer⟩
  · exact ⟨first.path, answer, resolved first List.mem_cons_self⟩
  · refine ⟨listed ((first :: second :: others).map Glob.Site.path),
      some "pass a single capture file, or run once per file", ?_⟩
    rw [answer]
    simp [oneFile]

theorem inputPath_cases (pattern : isPattern input = true) (valid : Glob.parse input = .ok p) :
    (∃ path, .unreadable path ∈ Glob.search w p ∧
      inputPath w input = .error (badPattern input (unlisted path))) ∨
    (∀ path, .unreadable path ∉ Glob.search w p) ∧
      inputPath w input = oneFile input (Glob.filesOf w (Glob.search w p)) := by
  unfold inputPath
  simp only [pattern, valid, Bool.not_true, Bool.false_eq_true, if_false]
  rcases Glob.find_cases w p with ⟨path, member, fails⟩ | ⟨readable, paths, finds, files⟩
  · exact .inl ⟨path, member, by rw [fails]⟩
  · refine .inr ⟨readable, ?_⟩
    rw [finds, ← files]

theorem oneWay_iff_nodup {ends : List (Glob.Way × Glob.Site)} (nodup : (ends.map Prod.fst).Nodup)
    (mem : ∀ way site, (way, site) ∈ ends ↔ p.Matches w way site) :
    p.OneWay w ↔ (ends.map fun e => e.2.location).Nodup := by
  constructor
  · intro oneWay
    refine List.Nodup.map_on ?_ nodup.of_map
    rintro ⟨way, site⟩ first ⟨way', site'⟩ second same
    have matched := (mem way site).mp first
    have matched' := (mem way' site').mp second
    obtain rfl := oneWay way way' site site' matched matched' same
    obtain rfl := Option.some.inj (matched.leads.symm.trans matched'.leads)
    rfl
  · intro distinct way way' site site' matched matched' same
    have pair := List.inj_on_of_nodup_map distinct ((mem way site).mpr matched)
      ((mem way' site').mpr matched') same
    exact congrArg Prod.fst pair

/-- Unless the search comes to a directory whose path is too long, the command answers for the ways
in which a pattern matches files. It answers for the files themselves exactly if each of them is
matched in one way, as it is by patterns with one `**` at most and no dots that lead back behind a
wildcard. -/
theorem answers_of_pattern (proper : w.Proper) (pattern : isPattern input = true)
    (valid : Glob.parse input = .ok p) :
    (∃ path, .unreadable path ∈ Glob.search w p ∧ Glob.TooDeep w path ∧
      inputPath w input = .error (badPattern input (unlisted path))) ∨
    (∀ path, .unreadable path ∉ Glob.search w p) ∧
      ∃ (ends : List (Glob.Way × Glob.Site)) (files : List Location),
        (ends.map Prod.fst).Nodup ∧ (∀ way site, (way, site) ∈ ends ↔ p.Matches w way site) ∧
        files.Nodup ∧ (∀ loc, loc ∈ files ↔ p.MatchesFile w loc) ∧
        Answers w input (ends.map fun e => e.2.location) ∧
        (Answers w input files ↔ p.OneWay w) ∧
        (Glob.Straight false p.components → Glob.starRuns false p.components ≤ 1 →
          Answers w input files) := by
  obtain ⟨⟨ends, nodup, mem, eq⟩, stuck⟩ :=
    Glob.accounts_search proper (components_ne_nil pattern valid)
  rcases inputPath_cases (w := w) pattern valid with ⟨path, member, fails⟩ | ⟨readable, answer⟩
  · exact .inl ⟨path, member, stuck path member, fails⟩
  have counted : Answers w input (ends.map fun e => e.2.location) := by
    have found : inputPath w input = oneFile input ((ends.map Prod.snd).map Glob.Site.path) := by
      rw [answer, eq, List.map_map]
      rfl
    have answers := answers_oneFile found fun site member => by
      obtain ⟨⟨way, site⟩, inside, rfl⟩ := List.mem_map.mp member
      exact (((mem way site).mp inside).located proper).1
    rw [List.map_map] at answers
    exact answers
  -- The answer tells the number of files, which is less without the repetitions if there are any.
  have answers_iff : Answers w input (ends.map fun e => e.2.location).dedup ↔ p.OneWay w := by
    rw [oneWay_iff_nodup nodup mem]
    constructor
    · intro answers
      have whole := (List.dedup_sublist _).eq_of_length (answers.length_eq counted)
      exact List.dedup_eq_self.mp whole
    · intro distinct
      rw [distinct.dedup]
      exact counted
  refine .inr ⟨readable, ends, _, nodup, mem, List.nodup_dedup _, fun loc => ?_, counted,
    answers_iff, fun straight single => ?_⟩
  · rw [List.mem_dedup, List.mem_map]
    constructor
    · rintro ⟨⟨way, site⟩, inside, rfl⟩
      exact ⟨way, site, (mem way site).mp inside, rfl⟩
    · rintro ⟨way, site, matched, rfl⟩
      exact ⟨(way, site), (mem way site).mpr matched, rfl⟩
  · exact answers_iff.mpr (Glob.Pattern.oneWay_of_straight proper straight single)

/-- A tree that holds one file, in a directory that lies in another one of the same name. -/
def nested : Workspace :=
  ⟨.directory "a" (.directory "a" (.file "x.pcap" emptyCapture .empty) .empty) .empty, []⟩

def anywhere : Glob.Pattern := ⟨false, [[.recursive], "x.pcap".toList.map .char], false⟩

def insideA : Glob.Pattern :=
  ⟨false, [[.recursive], [.char 'a'], [.recursive], "x.pcap".toList.map .char], false⟩

theorem parse_eq_of_fields (same : (Glob.parse input).toOption.map
    (fun q => (q.rooted, q.components, q.directoriesOnly)) =
      some (p.rooted, p.components, p.directoriesOnly)) : Glob.parse input = .ok p := by
  cases parsed : Glob.parse input with
  | error e => simp [parsed, Except.toOption] at same
  | ok q =>
    obtain ⟨rooted, components, directoriesOnly⟩ := q
    simp only [parsed, Except.toOption, Option.map_some, Option.some.injEq, Prod.mk.injEq] at same
    obtain ⟨rfl, rfl, rfl⟩ := same
    rfl

theorem proper_nested : nested.Proper := ⟨by decide, by decide⟩

def nestedSearch : Glob.Search := ⟨nested, false, 4⟩

def outerSite : Glob.Site := ⟨"a", "a", ["a"]⟩

def innerSite : Glob.Site := ⟨"a/a", "a", ["a", "a"]⟩

theorem search_nested : Glob.search nested anywhere = [.path "a/a/x.pcap"] ∧
    Glob.search nested insideA = [.path "a/a/x.pcap", .path "a/a/x.pcap"] := by
  have inInner : nested.names ["a", "a"] = ["x.pcap"] := rfl
  have inOuter : nested.names ["a"] = ["a"] := rfl
  have inRoot : nested.names [] = ["a"] := rfl
  have fromInner (d : Nat) : nestedSearch.expand anywhere.components (d + 1) innerSite =
      [.path "a/a/x.pcap"] :=
    (Glob.Search.expand_only rfl rfl rfl inInner).trans rfl
  have fromOuter (d : Nat) : nestedSearch.expand anywhere.components (d + 2) outerSite =
      [.path "a/a/x.pcap"] := by
    refine (Glob.Search.expand_only rfl rfl rfl inOuter).trans ?_
    exact fromInner d
  have noneInner (d : Nat) : nestedSearch.expand insideA.components (d + 1) innerSite = [] :=
    (Glob.Search.expand_only rfl rfl rfl inInner).trans rfl
  -- The inner directory is found for the `a` of the pattern, and nothing behind it for `**`.
  have againOuter (d : Nat) : nestedSearch.expand insideA.components (d + 2) outerSite =
      [.path "a/a/x.pcap"] := by
    refine (Glob.Search.expand_only rfl rfl rfl inOuter).trans ?_
    exact congrArg₂ List.append (fromInner 3) (noneInner d)
  constructor
  · refine (Glob.Search.expand_only rfl rfl rfl inRoot).trans ?_
    exact fromOuter 1
  · refine (Glob.Search.expand_only rfl rfl rfl inRoot).trans ?_
    exact congrArg₂ List.append (fromOuter 2) (againOuter 1)

theorem content?_nested {loc : Location} (file : (nested.content? loc).isSome = true) :
    loc = ["a", "a", "x.pcap"] := by
  unfold Workspace.content? Workspace.entry? nested at file
  rcases loc with _ | ⟨x, loc⟩
  · simp [Directory.at?] at file
  by_cases outer : "a" = x
  · subst outer
    rcases loc with _ | ⟨y, loc⟩
    · simp [Directory.at?, Directory.find?] at file
    by_cases inner : "a" = y
    · subst inner
      rcases loc with _ | ⟨z, loc⟩
      · simp [Directory.at?, Directory.find?] at file
      by_cases last : "x.pcap" = z
      · subst last
        cases loc with
        | nil => rfl
        | cons more loc => simp [Directory.at?, Directory.find?] at file
      · simp [Directory.at?, Directory.find?, last] at file
    · simp [Directory.at?, Directory.find?, inner] at file
  · simp [Directory.at?, Directory.find?, outer] at file

theorem matchesFile_nested_iff (some : p.components ≠ [])
    (found : Glob.filesOf nested (Glob.search nested p) ≠ []) {loc : Location} :
    p.MatchesFile nested loc ↔ loc = ["a", "a", "x.pcap"] := by
  constructor
  · rintro ⟨way, site, matched, rfl⟩
    exact content?_nested matched.file
  · rintro rfl
    obtain ⟨⟨ends, -, mem, eq⟩, -⟩ := Glob.accounts_search proper_nested some
    rw [eq] at found
    obtain ⟨⟨way, site⟩, others, rfl⟩ :=
      List.exists_cons_of_ne_nil fun none => found (List.map_eq_nil_iff.mpr none)
    have matched := (mem way site).mp List.mem_cons_self
    exact ⟨way, site, matched, content?_nested matched.file⟩

theorem answers_of_pattern_nested :
    nested.Proper ∧ isPattern "**/x.pcap" = true ∧ Glob.parse "**/x.pcap" = .ok anywhere ∧
      (∀ loc, anywhere.MatchesFile nested loc ↔ loc = ["a", "a", "x.pcap"]) ∧
      Answers nested "**/x.pcap" [["a", "a", "x.pcap"]] := by
  have pattern : isPattern "**/x.pcap" = true := by decide
  have valid : Glob.parse "**/x.pcap" = .ok anywhere := parse_eq_of_fields (by decide +kernel)
  have only (loc : Location) : anywhere.MatchesFile nested loc ↔ loc = ["a", "a", "x.pcap"] := by
    refine matchesFile_nested_iff (components_ne_nil pattern valid) ?_
    rw [search_nested.1]
    decide
  refine ⟨proper_nested, pattern, valid, only, ?_⟩
  rcases answers_of_pattern proper_nested pattern valid with ⟨path, member, -⟩ |
    ⟨-, -, files, -, -, nodup, all, -, -, plain⟩
  · rw [search_nested.1] at member
    simp at member
  · have same : files.Perm [["a", "a", "x.pcap"]] :=
      (List.perm_ext_iff_of_nodup nodup (List.nodup_singleton _)).mpr fun loc => by
        rw [all, only, List.mem_singleton]
    exact (plain (by decide) (by decide)).perm same

/-- The only file of a tree is matched in two ways, and counted twice. -/
theorem counted_twice :
    nested.Proper ∧ isPattern "**/a/**/x.pcap" = true ∧
      Glob.parse "**/a/**/x.pcap" = .ok insideA ∧
      (∀ loc, insideA.MatchesFile nested loc ↔ loc = ["a", "a", "x.pcap"]) ∧
      (∃ hint, inputPath nested "**/a/**/x.pcap" =
        .error ⟨"multiple files match pattern '**/a/**/x.pcap' (2 matches); " ++
          "matches: a/a/x.pcap, a/a/x.pcap", hint⟩) ∧
      ¬ Answers nested "**/a/**/x.pcap" [["a", "a", "x.pcap"]] := by
  have pattern : isPattern "**/a/**/x.pcap" = true := by decide
  have valid : Glob.parse "**/a/**/x.pcap" = .ok insideA := parse_eq_of_fields (by decide +kernel)
  have found : Glob.filesOf nested (Glob.search nested insideA) = ["a/a/x.pcap", "a/a/x.pcap"] := by
    rw [search_nested.2]
    rfl
  have refused : ∃ hint, inputPath nested "**/a/**/x.pcap" =
      .error ⟨"multiple files match pattern '**/a/**/x.pcap' (2 matches); " ++
        "matches: a/a/x.pcap, a/a/x.pcap", hint⟩ := by
    rcases inputPath_cases (w := nested) pattern valid with ⟨path, member, -⟩ | ⟨-, answer⟩
    · rw [search_nested.2] at member
      simp at member
    · rw [found] at answer
      exact ⟨_, answer⟩
  refine ⟨proper_nested, pattern, valid, fun loc => ?_, refused, ?_⟩
  · refine matchesFile_nested_iff (components_ne_nil pattern valid) ?_
    rw [found]
    decide
  · rintro ⟨path, answer, -⟩
    obtain ⟨hint, refused⟩ := refused
    rw [refused] at answer
    cases answer

end Command

end PacketLayers
