import PacketLayers.Proofs.Command.Patterns
import PacketLayers.Proofs.Files.SelfMatch

/-!
What a run dissects that is given the path of a capture. A path with special characters is read as a
pattern and never tried as it stands, so the run dissects whatever the pattern matches alone. Main
statement: what that is for every path, and that paths without brackets and without stars side by
side still find their own file, or are refused as ambiguous.
-/
namespace PacketLayers

namespace Command

variable {w : Workspace} {o : Options} {input path : String} {p : Glob.Pattern}
variable {loc found : Location}

theorem inputPath_eq_ok_iff (pattern : isPattern input = true) (valid : Glob.parse input = .ok p) :
    inputPath w input = .ok path ↔
      (∀ other, .unreadable other ∉ Glob.search w p) ∧
        Glob.filesOf w (Glob.search w p) = [path] := by
  rcases inputPath_cases (w := w) pattern valid with ⟨other, member, fails⟩ | ⟨readable, answer⟩
  · rw [fails]
    exact ⟨nofun, fun ⟨readable, _⟩ => absurd member (readable other)⟩
  · rw [answer]
    constructor
    · intro one
      refine ⟨readable, ?_⟩
      unfold oneFile at one
      split at one
      · cases one
      · rename_i other files
        rw [files, Except.ok.inj one]
      · cases one
    · rintro ⟨-, files⟩
      rw [files]
      rfl

/-! ### What a run dissects -/

/-- Whether a run dissects the file at a location: the path that it is left with leads there, and
the octets that it reads are those of the file. -/
def Dissects (w : Workspace) (o : Options) (loc : Location) : Prop :=
  ∃ path content, prepare w o = .ok path ∧ w.resolve path = .ok loc ∧
    w.content? loc = some content ∧ w.read path = .ok content

/-- Whether the path of the report, if there is one, is let through beside an input. -/
def ReportApart (w : Workspace) (o : Options) (loc : Location) : Prop :=
  ∀ report, o.report = some report → checkReport w report loc = .ok ()

def isCapture (loc : Location) : Bool := isCaptureName (loc.getLast?.getD "")

theorem isCaptureName_eq (resolved : w.resolve path = .ok loc)
    (file : (w.content? loc).isSome = true) : isCaptureName path = isCapture loc := by
  obtain ⟨-, follows⟩ := Workspace.resolve_eq_ok_iff.mp resolved
  obtain ⟨init, name, body, speaks, forward, last⟩ :=
    Workspace.exists_name_of_file (Path.bodyPieces_ne_nil path) follows file
  have whole : '/' ∉ name.toList := Path.whole_bodyPieces path name (by simp [body])
  have alone : Path.bodyPieces name = [] ++ [name] := Path.bodyPieces_of_not_mem whole
  have same : Path.fileName? path = Path.fileName? name :=
    (Path.fileName?_eq body speaks forward).trans (Path.fileName?_eq alone speaks forward).symm
  rw [isCapture, last, Option.getD_some]
  unfold isCaptureName Path.extension?
  rw [same]

theorem checkInput_eq_ok_iff (resolved : w.resolve path = .ok loc)
    (file : (w.content? loc).isSome = true) :
    checkInput w path = .ok () ↔ isCapture loc = true := by
  obtain ⟨content, entry⟩ := Option.isSome_iff_exists.mp file
  unfold checkInput
  rw [isCaptureName_eq resolved file]
  simp [Workspace.exists?, Workspace.isFile, Workspace.stat_of_resolve resolved entry]

theorem dissects_iff :
    Dissects w o loc ↔ ∃ path, inputPath w o.input = .ok path ∧ w.resolve path = .ok loc ∧
      w.locate path = .ok loc ∧ (w.content? loc).isSome = true ∧ isCapture loc = true ∧
      ReportApart w o loc := by
  constructor
  · rintro ⟨path, content, prepared, resolved, entry, -⟩
    have file : (w.content? loc).isSome = true := Option.isSome_iff_exists.mpr ⟨content, entry⟩
    obtain ⟨input, accepted, capture, located, apart⟩ := prepare_iff.mp prepared
    obtain rfl := Workspace.eq_of_locate (Workspace.leads_of_resolve resolved) located
    exact ⟨path, input, resolved, located, file, (checkInput_eq_ok_iff resolved file).mp accepted,
      apart⟩
  · rintro ⟨path, input, resolved, located, file, capture, apart⟩
    obtain ⟨content, entry⟩ := Option.isSome_iff_exists.mp file
    have accepted := (checkInput_eq_ok_iff resolved file).mpr capture
    have prepared := prepare_iff.mpr ⟨input, accepted, loc, located, apart⟩
    exact ⟨path, content, prepared, resolved, entry, Workspace.read_of_resolve resolved entry⟩

/-- Whether a run fails because the path that it is left with leads to a file through names that
are too far from the root. -/
def TooFar (w : Workspace) (o : Options) (loc : Location) : Prop :=
  ∃ path, inputPath w o.input = .ok path ∧ w.resolve path = .ok loc ∧
    ¬ Workspace.Near (w.start path) (Path.bodyPieces path) ∧
    run w (.dissect o) = failed w "" "" (unresolved path .nameTooLong)

/-- Whether a run goes for a file: it dissects it, or fails because it is too far from the root, or
because its report has no place beside it. -/
def GoesFor (w : Workspace) (o : Options) (loc : Location) : Prop :=
  Dissects w o loc ∨ TooFar w o loc ∨
    ∃ report f, o.report = some report ∧ checkReport w report loc = .error f ∧
      run w (.dissect o) = failed w "" "" f

theorem run_of_prepare {f : Failure} (fails : prepare w o = .error f) :
    run w (.dissect o) = failed w "" "" f := by
  simp only [run, dissect, fails]

theorem goesFor_of_inputPath (input : inputPath w o.input = .ok path)
    (resolved : w.resolve path = .ok loc) (file : (w.content? loc).isSome = true)
    (capture : isCapture loc = true) : GoesFor w o loc := by
  have accepted := (checkInput_eq_ok_iff resolved file).mpr capture
  rcases Workspace.locate_of_leads (Workspace.leads_of_resolve resolved) with located | fails
  · by_cases apart : ReportApart w o loc
    · exact .inl (dissects_iff.mpr ⟨path, input, resolved, located, file, capture, apart⟩)
    · simp only [ReportApart, not_forall] at apart
      obtain ⟨report, goes, refused⟩ := apart
      cases checked : checkReport w report loc with
      | ok _ => exact absurd checked refused
      | error f =>
        refine .inr (.inr ⟨report, f, goes, checked, run_of_prepare ?_⟩)
        simp only [prepare, input, accepted, located, goes, checked, bind, Except.bind]
  · refine .inr (.inl ⟨path, input, resolved, fun near => ?_, run_of_prepare ?_⟩)
    · have located := Workspace.locate_eq_ok_iff.mpr ⟨Workspace.leads_of_resolve resolved, near⟩
      cases fails.symm.trans located
    · simp only [prepare, input, accepted, fails, bind, Except.bind]

/-- A failure that leaves open which file was meant: files are matched in several ways, or the path
of a directory is too long to list it. -/
inductive Undecided (w : Workspace) (input : String) : Failure → Prop
  | several (count : Nat) (listing : String) (hint : Option String) (more : 2 ≤ count) :
      Undecided w input ⟨"multiple files match pattern '" ++ input ++ "' (" ++ toString count ++
        " matches); matches: " ++ listing, hint⟩
  | tooDeep {path : String} (deep : Glob.TooDeep w path) :
      Undecided w input (badPattern input (unlisted path))

theorem dissects_pattern_iff (proper : w.Proper) (pattern : isPattern o.input = true) :
    Dissects w o found ↔ (∃ p way site, Glob.parse o.input = .ok p ∧ p.Sole w found ∧
        p.Matches w way site ∧ w.locate site.path = .ok found) ∧
      isCapture found = true ∧ ReportApart w o found := by
  rw [dissects_iff]
  constructor
  · rintro ⟨path, input, resolved, located, file, capture, apart⟩
    cases valid : Glob.parse o.input with
    | error e =>
      simp [inputPath, pattern, valid] at input
    | ok p =>
      have some := components_ne_nil pattern valid
      obtain ⟨readable, files⟩ := (inputPath_eq_ok_iff pattern valid).mp input
      have sole := (Glob.Pattern.sole_iff proper some).mpr ⟨readable, path, files, resolved⟩
      obtain ⟨way, site, matched, -⟩ := sole.matched
      have same := (sole.filesOf_eq proper some matched).symm.trans files
      obtain rfl : site.path = path := List.singleton_inj.mp same
      exact ⟨⟨p, way, site, rfl, sole, matched, located⟩, capture, apart⟩
  · rintro ⟨⟨p, way, site, valid, sole, matched, located⟩, capture, apart⟩
    have files := sole.filesOf_eq proper (components_ne_nil pattern valid) matched
    have input := (inputPath_eq_ok_iff pattern valid).mpr ⟨sole.readable, files⟩
    obtain ⟨resolved, -⟩ := matched.located proper
    obtain rfl := Workspace.eq_of_locate (Workspace.leads_of_resolve resolved) located
    exact ⟨site.path, input, resolved, located, matched.file, capture, apart⟩

theorem run_of_inputPath {f : Failure} (fails : inputPath w o.input = .error f) :
    run w (.dissect o) = failed w "" "" f :=
  run_of_prepare (by simp only [prepare, fails, bind, Except.bind])

section Named

variable (proper : w.Proper) (named : w.resolve o.input = .ok loc)
variable (file : (w.content? loc).isSome = true)
include proper named file

/-- A pattern that matches the path that it is leads to the file, or is refused as undecided. -/
theorem goesFor_or_undecided (pattern : isPattern o.input = true)
    (single : Glob.Single o.input.toList) (tight : Path.Tight o.input)
    (capture : isCapture loc = true) :
    GoesFor w o loc ∨ ∃ f, Undecided w o.input f ∧ run w (.dissect o) = failed w "" "" f := by
  obtain ⟨valid, way, site, matched, leads⟩ :=
    Glob.matchesFile_self proper single tight named file
  obtain ⟨⟨ends, -, mem, eq⟩, stuck⟩ :=
    Glob.accounts_search proper (components_ne_nil pattern valid)
  have there := (mem way site).mpr matched
  rcases inputPath_cases (w := w) pattern valid with ⟨path, member, fails⟩ | ⟨-, answer⟩
  · exact .inr ⟨_, .tooDeep (stuck path member), run_of_inputPath fails⟩
  · rw [eq] at answer
    rcases ends with _ | ⟨first, _ | ⟨second, others⟩⟩
    · cases there
    · obtain rfl := List.mem_singleton.mp there
      have resolved := (matched.located proper).1
      rw [leads] at resolved
      exact .inl (goesFor_of_inputPath answer resolved file capture)
    · refine .inr ⟨_, .several (others.length + 2)
        (listed ((first :: second :: others).map fun e => e.2.path))
        (some "pass a single capture file, or run once per file") (Nat.le_add_left 2 _), ?_⟩
      refine run_of_inputPath (answer.trans ?_)
      simp [oneFile]

theorem eq_of_dissects (pattern : isPattern o.input = true)
    (single : Glob.Single o.input.toList) (tight : Path.Tight o.input)
    (dissects : Dissects w o found) : found = loc := by
  obtain ⟨valid, way, site, matched, rfl⟩ :=
    Glob.matchesFile_self proper single tight named file
  obtain ⟨⟨p, -, -, same, sole, -⟩, -, -⟩ := (dissects_pattern_iff proper pattern).mp dissects
  obtain rfl := Except.ok.inj (valid.symm.trans same)
  obtain ⟨way', site', matched', rfl⟩ := sole.matched
  obtain rfl := sole.only way' way site' site matched' matched
  exact congrArg Glob.Site.location (Option.some.inj (matched'.leads.symm.trans matched.leads))

end Named

/-- What a run dissects that is given the path of a capture. Without special characters it goes for
the file. Otherwise the path is a pattern, and whatever file it matches alone is dissected, if that
can be located. That is the file itself or none if the path matches itself, for which no brackets,
no stars side by side and no empty piece at its beginning are enough. -/
theorem dissects_named (proper : w.Proper) (named : w.resolve o.input = .ok loc)
    (file : (w.content? loc).isSome = true) (capture : isCaptureName o.input = true) :
    (isPattern o.input = false →
      GoesFor w o loc ∧ ∀ found, Dissects w o found → found = loc) ∧
    (isPattern o.input = true → ∀ found, Dissects w o found ↔
      (∃ p way site, Glob.parse o.input = .ok p ∧ p.Sole w found ∧ p.Matches w way site ∧
        w.locate site.path = .ok found) ∧ isCapture found = true ∧ ReportApart w o found) ∧
    (isPattern o.input = true → Glob.Single o.input.toList → Path.Tight o.input →
      (GoesFor w o loc ∨
        ∃ f, Undecided w o.input f ∧ run w (.dissect o) = failed w "" "" f) ∧
      ∀ found, Dissects w o found → found = loc) := by
  rw [isCaptureName_eq named file] at capture
  refine ⟨fun plain => ?_, fun pattern found => dissects_pattern_iff proper pattern,
    fun pattern single tight => ?_⟩
  · have input : inputPath w o.input = .ok o.input := by
      simp [inputPath, plain]
    refine ⟨goesFor_of_inputPath input named file capture, fun found dissects => ?_⟩
    obtain ⟨path, chosen, resolved, -⟩ := dissects_iff.mp dissects
    obtain rfl := Except.ok.inj (input.symm.trans chosen)
    exact Except.ok.inj (resolved.symm.trans named)
  · exact ⟨goesFor_or_undecided proper named file pattern single tight capture,
      fun found dissects => eq_of_dissects proper named file pattern single tight dissects⟩

/-! ### Names that are patterns -/

def component (tokens : List Glob.Token) : Glob.Pattern := ⟨false, [tokens], false⟩

theorem search_component {tokens : List Glob.Token} (wild : Glob.literal? tokens = none)
    (plain : Glob.isRecursive tokens = false) (undotted : Glob.Search.dots tokens = [])
    (here : w.isDirectory w.here = true)
    (sorted : (w.names w.here).Pairwise fun a b => decide (a ≤ b) = true) :
    Glob.search w (component tokens) =
      ((w.names w.here).filter fun name => Glob.matchesName tokens name.toList).map .path := by
  have dot : Path.isRooted "." = false ∧ Glob.Search.isCurrent "." = true ∧
    Path.isLong "." = false := by decide
  have origin : (component tokens).origin w = ⟨".", "", w.here⟩ := by
    simp [Glob.Pattern.origin, component, Workspace.start, dot]
  have inside : ((component tokens).searchIn w).isDirectory ⟨".", "", w.here⟩ = true := here
  have names : ((component tokens).searchIn w).sorted ⟨".", "", w.here⟩ = w.names w.here :=
    List.mergeSort_of_pairwise sorted
  have arrives (name : String) : ((component tokens).searchIn w).arrive []
      (Glob.Search.child ⟨".", "", w.here⟩ name) = [.path name] := by
    simp [Glob.Search.arrive, Glob.Search.accept, Glob.Search.child, Glob.Search.inside,
      Glob.Pattern.searchIn, component, dot]
  have begins : Glob.search w (component tokens) = ((component tokens).searchIn w).expand [tokens]
      ((component tokens).searchIn w).height ((component tokens).origin w) := rfl
  rw [begins, origin, Glob.Search.expand_wildcard wild plain inside dot.2.2, undotted, names,
    List.flatMap_nil, List.nil_append]
  simp only [arrives]
  induction w.names w.here with
  | nil => rfl
  | cons name names ih =>
    rw [List.flatMap_cons, List.filter_cons, ih]
    cases Glob.matchesName tokens name.toList <;> rfl

/-- A tree with a capture under the name `a[1].pcap`, one that this name matches, and one whose
name matches itself. -/
def lettered : Workspace :=
  ⟨.file "a1.pcap" emptyCapture (.file "a[1].pcap" emptyCapture
    (.file "b?.pcap" emptyCapture .empty)), []⟩

def bracketed : Workspace := ⟨.file "a[1].pcap" emptyCapture .empty, []⟩

def bracketOne : List Glob.Token :=
  .char 'a' :: .within [⟨'1', '1'⟩] :: ".pcap".toList.map .char

def markAny : List Glob.Token := .char 'b' :: .anyChar :: ".pcap".toList.map .char

theorem proper_lettered : lettered.Proper := ⟨by decide, by decide⟩

theorem sorted_lettered :
    (lettered.names lettered.here).Pairwise fun a b => decide (a ≤ b) = true := by
  decide

theorem dissects_named_lettered :
    Dissects lettered { input := "a1.pcap" } ["a1.pcap"] ∧
      Dissects lettered { input := "b?.pcap" } ["b?.pcap"] ∧
      ∀ found, Dissects lettered { input := "b?.pcap" } found → found = ["b?.pcap"] := by
  have capture : isCaptureName "a1.pcap" = true ∧ isCaptureName "b?.pcap" = true := by
    decide +kernel
  have single : Glob.Single "b?.pcap".toList ∧ Path.Tight "b?.pcap" := by decide +kernel
  have pattern : isPattern "b?.pcap" = true := by decide
  have valid : Glob.parse "b?.pcap" = .ok (component markAny) :=
    parse_eq_of_fields (by decide +kernel)
  have leads : lettered.resolve "a1.pcap" = .ok ["a1.pcap"] ∧
    lettered.resolve "b?.pcap" = .ok ["b?.pcap"] := ⟨rfl, rfl⟩
  have wild : Glob.literal? markAny = none := rfl
  obtain ⟨plain, -, -⟩ :=
    dissects_named (o := { input := "a1.pcap" }) proper_lettered leads.1 rfl capture.1
  obtain ⟨-, alone, self⟩ :=
    dissects_named (o := { input := "b?.pcap" }) proper_lettered leads.2 rfl capture.2
  have some := components_ne_nil pattern valid
  have found := search_component wild rfl rfl (by decide) sorted_lettered
  have files : Glob.filesOf lettered (Glob.search lettered (component markAny)) = ["b?.pcap"] := by
    rw [found]
    rfl
  have sole : (component markAny).Sole lettered ["b?.pcap"] := by
    refine (Glob.Pattern.sole_iff proper_lettered some).mpr ⟨fun path => ?_, _, files, leads.2⟩
    rw [found]
    simp
  obtain ⟨way, site, matched, -⟩ := sole.matched
  have same : ["b?.pcap"] = [site.path] :=
    files.symm.trans (sole.filesOf_eq proper_lettered some matched)
  have located : lettered.locate site.path = .ok ["b?.pcap"] := by
    rw [← List.singleton_inj.mp same]
    rfl
  refine ⟨?_, (alone pattern _).mpr
    ⟨⟨_, way, site, valid, sole, matched, located⟩, by decide +kernel, nofun⟩,
    (self pattern single.1 single.2).2⟩
  rcases (plain (by decide)).1 with dissects | ⟨path, input, -, far, -⟩ | ⟨report, f, goes, -⟩
  · exact dissects
  · obtain rfl := Except.ok.inj input
    exact absurd ⟨rfl, trivial⟩ far
  · cases goes

/-- The name `a[1].pcap` leads to another file, or to none, though there is a file of that name. -/
theorem neighbour_dissected :
    ∃ o, request? ["pcap", "dissect", "a[1].pcap", "--stdout"] = some (.dissect o) ∧
      isCaptureName o.input = true ∧
      lettered.Proper ∧ lettered.resolve o.input = .ok ["a[1].pcap"] ∧
      lettered.content? ["a[1].pcap"] = some emptyCapture ∧
      Dissects lettered o ["a1.pcap"] ∧ ¬ Dissects lettered o ["a[1].pcap"] ∧
      bracketed.Proper ∧ bracketed.resolve o.input = .ok ["a[1].pcap"] ∧
      bracketed.content? ["a[1].pcap"] = some emptyCapture ∧
      (∃ hint, inputPath bracketed o.input =
        .error ⟨"no files match pattern 'a[1].pcap'", hint⟩) ∧
      ∀ loc, ¬ Dissects bracketed o loc := by
  have pattern : isPattern "a[1].pcap" = true := by decide
  have valid : Glob.parse "a[1].pcap" = .ok (component bracketOne) :=
    parse_eq_of_fields (by decide +kernel)
  have wild : Glob.literal? bracketOne = none := rfl
  have neighbour : inputPath lettered "a[1].pcap" = .ok "a1.pcap" := by
    refine (inputPath_eq_ok_iff pattern valid).mpr ?_
    rw [search_component wild rfl rfl (by decide) sorted_lettered]
    exact ⟨fun path => by simp, rfl⟩
  have nothing : ∃ hint, inputPath bracketed "a[1].pcap" =
      .error ⟨"no files match pattern 'a[1].pcap'", hint⟩ := by
    have found := search_component (w := bracketed) wild rfl rfl (by decide) (by decide)
    rcases inputPath_cases (w := bracketed) pattern valid with ⟨path, member, -⟩ | ⟨-, answer⟩
    · rw [found] at member
      simp at member
    · rw [found] at answer
      exact ⟨_, answer⟩
  refine ⟨{ input := "a[1].pcap", stdout := true }, by decide, by decide +kernel, proper_lettered,
    rfl, rfl, dissects_iff.mpr ⟨_, neighbour, rfl, rfl, rfl, by decide +kernel, nofun⟩, ?_,
    ⟨by decide, by decide⟩, rfl, rfl, nothing, ?_⟩
  · intro dissects
    obtain ⟨path, input, resolved, -⟩ := dissects_iff.mp dissects
    obtain rfl := Except.ok.inj (neighbour.symm.trans input)
    have leads : lettered.resolve "a1.pcap" = .ok ["a1.pcap"] := rfl
    exact absurd (Except.ok.inj (leads.symm.trans resolved)) (by decide)
  · intro loc dissects
    obtain ⟨path, input, -⟩ := dissects_iff.mp dissects
    obtain ⟨hint, fails⟩ := nothing
    cases fails.symm.trans input

end Command

end PacketLayers
