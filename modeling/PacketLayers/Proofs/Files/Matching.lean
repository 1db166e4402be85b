import PacketLayers.Files.Glob
import PacketLayers.Proofs.Files.Proper

/-!
The ways in which a pattern matches a file. A way tells for each component the pieces of a path that
it stands for: one, or any number of names for `**`. A way leads from directory to directory, along
paths that can be looked up, and what it arrives at lies where the pieces lead.
-/
namespace PacketLayers.Glob

/-- The pieces that each component of a pattern stands for. -/
abbrev Way := List (List String)

/-- Whether a component other than `**` may stand for a piece. Nothing is stood for by a component
without text only, dots by those that begin with one. -/
structure Fits (tokens : List Token) (piece : String) : Prop where
  reads : matchesName tokens piece.toList = true
  filled : piece = "" → tokens = []
  dotted : Workspace.isDots piece = true → tokens.head? = some (.char '.')

/-- The ways in which components may stand for pieces that end at a file. What follows `**` at once,
as the flag tells, stands for the name of an entry; another `**` there stands for nothing more, and
so there is none at the end. -/
inductive StandsFor : Bool → List (List Token) → Way → Prop
  | done : StandsFor false [] []
  | one {behind : Bool} {tokens : List Token} {rest : List (List Token)} {piece : String}
      {later : Way} (plain : isRecursive tokens = false) (fits : Fits tokens piece)
      (listed : behind = true → Path.IsName piece) (onward : StandsFor false rest later) :
      StandsFor behind (tokens :: rest) ([piece] :: later)
  | many {behind : Bool} {tokens : List Token} {rest : List (List Token)} {pieces : List String}
      {later : Way} (recursive : isRecursive tokens = true)
      (names : ∀ piece ∈ pieces, Path.IsName piece) (once : behind = true → pieces = [])
      (onward : StandsFor true rest later) : StandsFor behind (tokens :: rest) (pieces :: later)

variable {tokens : List Token} {name piece : String}

theorem literal?_char (c : Char) (ts : List Token) :
    literal? (.char c :: ts) = (literal? ts).map fun text => String.ofList (c :: text.toList) := by
  simp only [literal?, List.mapM_cons]
  generalize (ts.mapM _ : Option (List Char)) = read
  cases read <;> simp

theorem literal?_eq_some_iff : literal? tokens = some name ↔ tokens = name.toList.map .char := by
  induction tokens generalizing name with
  | nil =>
    have empty : literal? [] = some "" := rfl
    rw [empty, Option.some.injEq, eq_comm, eq_comm (a := []), List.map_eq_nil_iff,
      String.toList_eq_nil_iff]
  | cons t ts ih =>
    cases t with
    | char c =>
      rw [literal?_char, Option.map_eq_some_iff]
      constructor
      · rintro ⟨text, read, rfl⟩
        rw [String.toList_ofList, List.map_cons, ← ih.mp read]
      · intro same
        cases text : name.toList with
        | nil =>
          rw [text] at same
          cases same
        | cons d cs =>
          rw [text] at same
          obtain ⟨first, others⟩ := List.cons.inj same
          obtain rfl := Token.char.inj first
          refine ⟨String.ofList cs, ih.mpr (by simpa using others), ?_⟩
          rw [String.toList_ofList, ← text, String.ofList_toList]
    | _ => cases text : name.toList <;> simp [literal?]

theorem matchesName_literal (cs text : List Char) :
    matchesName (cs.map .char) text = true ↔ text = cs := by
  induction cs generalizing text with
  | nil => simp [matchesName_nil]
  | cons c cs ih =>
    have one : ¬ isRun (.char c) = true := by simp [isRun]
    cases text with
    | nil => simp [matchesName_one_nil one]
    | cons d text => simp [matchesName_one one, Token.accepts, ih]

theorem fits_literal_iff (literal : literal? tokens = some name) :
    Fits tokens piece ↔ piece = name := by
  obtain rfl := literal?_eq_some_iff.mp literal
  constructor
  · intro fits
    exact String.toList_inj.mp ((matchesName_literal _ _).mp fits.reads)
  · rintro rfl
    refine ⟨(matchesName_literal _ _).mpr rfl, ?_, fun dots => ?_⟩
    · rintro rfl
      rfl
    · have either : piece = "." ∨ piece = ".." := by simpa [Workspace.isDots] using dots
      rcases either with rfl | rfl <;> rfl

theorem fits_name_iff (named : Path.IsName name) :
    Fits tokens name ↔ matchesName tokens name.toList = true :=
  ⟨Fits.reads, fun reads => ⟨reads, fun none => absurd none named.ne_empty,
    fun dots => absurd dots (by simp [named.not_dots])⟩⟩

theorem mem_dots_iff :
    piece ∈ Search.dots tokens ↔ Workspace.isDots piece = true ∧ Fits tokens piece := by
  have apart : Workspace.isDots piece = true → piece ≠ "" := by
    rintro dots rfl
    exact absurd dots (by decide)
  unfold Search.dots
  split
  · rename_i rest
    rw [List.mem_filter]
    constructor
    · rintro ⟨member, reads⟩
      have either : Workspace.isDots piece = true := by
        simpa [Workspace.isDots, or_comm] using member
      exact ⟨either, reads, fun none => absurd none (apart either), fun _ => rfl⟩
    · rintro ⟨either, fits⟩
      exact ⟨by simpa [Workspace.isDots, or_comm] using either, fits.reads⟩
  · rename_i other
    constructor
    · intro member
      cases member
    · rintro ⟨either, fits⟩
      have begins := fits.dotted either
      cases tokens with
      | nil => cases begins
      | cons first rest =>
        obtain rfl := Option.some.inj begins
        exact absurd rfl (other rest)

theorem nodup_dots (tokens : List Token) : (Search.dots tokens).Nodup := by
  unfold Search.dots
  split
  · exact List.Pairwise.filter _ (by decide)
  · exact List.nodup_nil

theorem wild_of_recursive (recursive : isRecursive tokens = true) :
    literal? tokens = none ∧ Search.dots tokens = [] := by
  obtain rfl : tokens = [.recursive] := by simpa [isRecursive] using recursive
  exact ⟨rfl, rfl⟩

theorem plain_of_literal (literal : literal? tokens = some name) : isRecursive tokens = false := by
  refine Bool.eq_false_iff.mpr fun recursive => ?_
  rw [(wild_of_recursive recursive).1] at literal
  cases literal

theorem StandsFor.of_plain {behind : Bool} {rest : List (List Token)} {way : Way}
    (stands : StandsFor behind (tokens :: rest) way) (plain : isRecursive tokens = false) :
    ∃ piece later, way = [piece] :: later ∧ Fits tokens piece ∧
      (behind = true → Path.IsName piece) ∧ StandsFor false rest later := by
  cases stands with
  | one _ fits listed onward => exact ⟨_, _, rfl, fits, listed, onward⟩
  | many recursive =>
    rw [plain] at recursive
    cases recursive

theorem StandsFor.of_recursive {behind : Bool} {rest : List (List Token)} {way : Way}
    (stands : StandsFor behind (tokens :: rest) way) (recursive : isRecursive tokens = true) :
    ∃ pieces later, way = pieces :: later ∧ (∀ piece ∈ pieces, Path.IsName piece) ∧
      (behind = true → pieces = []) ∧ StandsFor true rest later := by
  cases stands with
  | one plain =>
    rw [recursive] at plain
    cases plain
  | many _ names once onward => exact ⟨_, _, rfl, names, once, onward⟩

/-! ### Sites -/

/-- A site that lies where its path leads. -/
structure Site.Located (w : Workspace) (site : Site) : Prop where
  some : site.path ≠ ""
  clean : '\x00' ∉ site.path.toList
  leads : w.follow (w.start site.path) (Path.bodyPieces site.path) = .ok site.location

namespace Site.Located

variable {w : Workspace} {site : Site} {found : Location}

theorem fault? (located : site.Located w) : Workspace.fault? site.path = none := by
  simp [Workspace.fault?, located.clean, located.some]

theorem wholeFault?_eq_none_iff (located : site.Located w) :
    Workspace.wholeFault? site.path = none ↔ Path.isLong site.path = false := by
  rw [Workspace.wholeFault?, located.fault?]
  cases Path.isLong site.path <;> simp

theorem reaches (located : site.Located w) : w.Leads site.path site.location :=
  ⟨located.fault?, located.leads⟩

theorem resolve (located : site.Located w) (short : Path.isLong site.path = false) :
    w.resolve site.path = .ok site.location := by
  rw [Workspace.resolve, located.wholeFault?_eq_none_iff.mpr short]
  exact located.leads

theorem isFile_iff (located : site.Located w) :
    w.isFile site.path = true ↔
      Path.isLong site.path = false ∧ (w.content? site.location).isSome = true := by
  cases long : Path.isLong site.path with
  | true =>
    have fault : Workspace.wholeFault? site.path = Option.some .nameTooLong := by
      rw [Workspace.wholeFault?, located.fault?]
      simp [long]
    simp [Workspace.isFile, Workspace.stat, Workspace.resolve, fault, bind, Except.bind]
  | false =>
    simp only [Workspace.isFile, Workspace.stat, located.resolve long, bind, Except.bind,
      Workspace.content?]
    cases w.entry? site.location with
    | none => simp
    | some e => cases e <;> simp

theorem join (proper : w.Proper) (located : site.Located w)
    (onward : w.follow site.location [piece] = .ok found) :
    Located w ⟨Path.join site.path piece, piece, found⟩ := by
  obtain ⟨whole, clean⟩ := proper.plain_of_follow onward
  have text : ∃ between, (Path.join site.path piece).toList =
      site.path.toList ++ between ++ piece.toList ∧ '\x00' ∉ between := by
    unfold Path.join
    rw [Path.not_isRooted_of_not_mem whole]
    simp only [Bool.false_eq_true, if_false]
    split
    · exact ⟨[], by simp⟩
    · exact ⟨['/'], by simp⟩
  obtain ⟨between, text, plain⟩ := text
  refine ⟨fun none => located.some ?_, ?_,
    Workspace.follow_join located.some whole located.leads onward⟩
  · have gone : (Path.join site.path piece).toList = [] := String.toList_eq_nil_iff.mpr none
    rw [text, List.append_assoc] at gone
    exact String.toList_eq_nil_iff.mp (List.append_eq_nil_iff.mp gone).1
  · show '\x00' ∉ (Path.join site.path piece).toList
    rw [text]
    simp [located.clean, clean, plain]

theorem here_of_isCurrent (located : site.Located w) (here : w.isDirectory w.here = true)
    (current : Search.isCurrent site.path = true) : site.location = w.here := by
  have dot : Path.components site.path = ["."] := by simpa [Search.isCurrent] using current
  obtain ⟨unrooted, silence⟩ := Path.silent_of_components dot
  have leads := located.leads
  have starts : w.start site.path = w.here := by
    simp [Workspace.start, unrooted]
  rw [starts] at leads
  exact Except.ok.inj (leads.symm.trans (Workspace.follow_silent here silence))

theorem inside (proper : w.Proper) (located : site.Located w)
    (onward : w.follow site.location [piece] = .ok found) (some : Search.inside site piece ≠ "") :
    Located w ⟨Search.inside site piece, piece, found⟩ := by
  unfold Search.inside at some ⊢
  split at some
  · rename_i current
    obtain ⟨whole, clean⟩ := proper.plain_of_follow onward
    rw [if_pos current]
    refine ⟨some, clean, ?_⟩
    rw [located.here_of_isCurrent proper.here current] at onward
    rw [Path.bodyPieces_of_not_mem whole]
    simpa [Workspace.start, Path.not_isRooted_of_not_mem whole] using onward
  · rename_i elsewhere
    rw [if_neg elsewhere]
    exact located.join proper onward

end Site.Located

namespace Search

variable {s : Search} {site next last : Site} {path : String}

theorem step?_eq_some_iff :
    s.step? site piece path = some next ↔ Workspace.wholeFault? path = none ∧
      ∃ loc, s.workspace.follow site.location [piece] = .ok loc ∧ next = ⟨path, piece, loc⟩ := by
  unfold step?
  split
  · rename_i loc sound follows
    simp [sound, follows, eq_comm]
  · rename_i other
    constructor
    · intro found
      cases found
    · rintro ⟨sound, loc, follows, -⟩
      exact absurd follows (other loc sound)

/-- What a piece that stands for a component names at a site. Dots that a wildcard stands for are
put behind every path, that of the working directory too. -/
def enter? (s : Search) (tokens : List Token) (site : Site) (piece : String) : Option Site :=
  s.step? site piece
    (if (literal? tokens).isNone && Workspace.isDots piece then Path.join site.path piece
      else inside site piece)

/-- Where a way leads, from a site on. -/
def along? (s : Search) : List (List Token) → Way → Site → Option Site
  | tokens :: rest, pieces :: later, site =>
    (pieces.foldlM (s.enter? tokens) site).bind (s.along? rest later)
  | _, _, site => some site

theorem located_of_enter? (proper : s.workspace.Proper) (located : site.Located s.workspace)
    (entered : s.enter? tokens site piece = some next) :
    next.Located s.workspace ∧ Path.isLong next.path = false ∧
      s.workspace.follow site.location [piece] = .ok next.location := by
  obtain ⟨sound, loc, follows, rfl⟩ := step?_eq_some_iff.mp entered
  have there : Site.Located s.workspace
      ⟨if (literal? tokens).isNone && Workspace.isDots piece then Path.join site.path piece
        else inside site piece, piece, loc⟩ := by
    split at sound
    · rename_i dotted
      rw [if_pos dotted]
      exact located.join proper follows
    · rename_i other
      rw [if_neg other]
      refine located.inside proper follows fun none => ?_
      rw [none] at sound
      exact absurd sound (by decide)
  exact ⟨there, there.wholeFault?_eq_none_iff.mp sound, follows⟩

theorem along?_cons (tokens : List Token) (rest : List (List Token)) (pieces : List String)
    (later : Way) (site : Site) :
    s.along? (tokens :: rest) (pieces :: later) site =
      (pieces.foldlM (s.enter? tokens) site).bind (s.along? rest later) := rfl

theorem along?_piece (tokens : List Token) (rest : List (List Token)) (pieces : List String)
    (later : Way) (site : Site) :
    s.along? (tokens :: rest) ((piece :: pieces) :: later) site =
      (s.enter? tokens site piece).bind (s.along? (tokens :: rest) (pieces :: later)) := by
  rw [along?_cons, List.foldlM_cons]
  exact Option.bind_assoc _ _ _

theorem located_of_along? (proper : s.workspace.Proper) {components : List (List Token)} {way : Way}
    (located : site.Located s.workspace) (short : Path.isLong site.path = false)
    {behind : Bool} (stands : StandsFor behind components way)
    (leads : s.along? components way site = some last) :
    last.Located s.workspace ∧ Path.isLong last.path = false ∧
      s.workspace.follow site.location way.flatten = .ok last.location := by
  have onward {tokens : List Token} {rest : List (List Token)} {pieces : List String} {later : Way}
      {site : Site} (located : site.Located s.workspace) (short : Path.isLong site.path = false)
      (leads : s.along? (tokens :: rest) (pieces :: later) site = some last)
      (ih : ∀ {site : Site}, site.Located s.workspace → Path.isLong site.path = false →
        s.along? rest later site = some last →
        last.Located s.workspace ∧ Path.isLong last.path = false ∧
          s.workspace.follow site.location later.flatten = .ok last.location) :
      last.Located s.workspace ∧ Path.isLong last.path = false ∧
        s.workspace.follow site.location (pieces :: later).flatten = .ok last.location := by
    induction pieces generalizing site with
    | nil => exact ih located short leads
    | cons piece pieces ihPieces =>
      rw [along?_piece] at leads
      obtain ⟨next, entered, leads⟩ := Option.bind_eq_some_iff.mp leads
      obtain ⟨there, short, follows⟩ := located_of_enter? proper located entered
      obtain ⟨arrives, shortLast, path⟩ := ihPieces there short leads
      obtain ⟨passes, eq⟩ := Workspace.follow_one_iff.mp follows
      refine ⟨arrives, shortLast, ?_⟩
      rw [List.flatten_cons, List.cons_append, Workspace.follow_cons passes, ← eq]
      exact path
  induction stands generalizing site with
  | done =>
    obtain rfl := Option.some.inj leads
    exact ⟨located, short, rfl⟩
  | one plain fits listed stands ih => exact onward located short leads ih
  | many recursive names once stands ih => exact onward located short leads ih

/-- A way to a file, and the site where it ends. -/
structure Hits (s : Search) (behind : Bool) (components : List (List Token)) (site : Site)
    (way : Way) (last : Site) : Prop where
  stands : StandsFor behind components way
  leads : s.along? components way site = some last
  file : (s.workspace.content? last.location).isSome = true
  any : s.directoriesOnly = false

theorem hits_nil_iff {way : Way} :
    s.Hits false [] site way last ↔ way = [] ∧ last = site ∧
      (s.workspace.content? last.location).isSome = true ∧ s.directoriesOnly = false := by
  constructor
  · rintro ⟨stands, leads, file, any⟩
    cases stands
    exact ⟨rfl, (Option.some.inj leads).symm, file, any⟩
  · rintro ⟨rfl, rfl, file, any⟩
    exact ⟨.done, rfl, file, any⟩

variable {behind : Bool} {rest : List (List Token)} {way : Way}

theorem isDirectory_of_enter? (entered : s.enter? tokens site piece = some next) :
    s.isDirectory site = true := by
  obtain ⟨-, loc, follows, -⟩ := step?_eq_some_iff.mp entered
  exact (Workspace.passes_of_follow follows).inside

theorem isDirectory_of_hits (hits : s.Hits behind (tokens :: rest) site way last) :
    s.isDirectory site = true := by
  obtain ⟨stands, leads, -, -⟩ := hits
  generalize components : tokens :: rest = all at stands leads
  have further : behind = true ∨ all ≠ [] := .inr (components ▸ List.cons_ne_nil _ _)
  clear components
  induction stands with
  | done => exact absurd rfl (further.resolve_left Bool.false_ne_true)
  | one plain fits listed stands ih =>
    rw [along?_piece] at leads
    obtain ⟨next, entered, -⟩ := Option.bind_eq_some_iff.mp leads
    exact isDirectory_of_enter? entered
  | @many _ _ _ pieces _ recursive names once stands ih =>
    cases pieces with
    | nil => exact ih leads (.inl rfl)
    | cons name pieces =>
      rw [along?_piece] at leads
      obtain ⟨next, entered, -⟩ := Option.bind_eq_some_iff.mp leads
      exact isDirectory_of_enter? entered

theorem mem_names_of_enter? (named : Path.IsName name)
    (entered : s.enter? tokens site name = some next) :
    name ∈ s.workspace.names site.location := by
  obtain ⟨-, loc, follows, -⟩ := step?_eq_some_iff.mp entered
  have speaks : ¬ Path.saysNothing name = true := by simp [named.speaks]
  exact ((Workspace.cases_of_follow follows).resolve_left speaks).resolve_left named.forward

theorem hits_one_iff (plain : isRecursive tokens = false) :
    s.Hits behind (tokens :: rest) site way last ↔ ∃ piece later next, way = [piece] :: later ∧
      Fits tokens piece ∧ (behind = true → Path.IsName piece) ∧
      s.enter? tokens site piece = some next ∧ s.Hits false rest next later last := by
  constructor
  · rintro ⟨stands, leads, file, any⟩
    obtain ⟨piece, later, rfl, fits, listed, onward⟩ := stands.of_plain plain
    rw [along?_piece] at leads
    obtain ⟨next, entered, leads⟩ := Option.bind_eq_some_iff.mp leads
    exact ⟨piece, later, next, rfl, fits, listed, entered, onward, leads, file, any⟩
  · rintro ⟨piece, later, next, rfl, fits, listed, entered, stands, leads, file, any⟩
    refine ⟨.one plain fits listed stands, ?_, file, any⟩
    rw [along?_piece, entered]
    exact leads

/-- `**` stands for names of directories one in the other, and what follows for what is there. -/
theorem hits_many_iff (recursive : isRecursive tokens = true) :
    s.Hits false (tokens :: rest) site way last ↔ ∃ pieces later between,
      way = pieces :: later ∧ (∀ piece ∈ pieces, Path.IsName piece) ∧
      pieces.foldlM (s.enter? tokens) site = some between ∧
      s.Hits true rest between later last := by
  constructor
  · rintro ⟨stands, leads, file, any⟩
    obtain ⟨pieces, later, rfl, names, once, onward⟩ := stands.of_recursive recursive
    obtain ⟨between, passes, leads⟩ := Option.bind_eq_some_iff.mp leads
    exact ⟨pieces, later, between, rfl, names, passes, onward, leads, file, any⟩
  · rintro ⟨pieces, later, between, rfl, names, passes, stands, leads, file, any⟩
    refine ⟨.many recursive names (fun behind => by cases behind) stands, ?_, file, any⟩
    rw [along?_cons, passes]
    exact leads

theorem hits_many_cases (recursive : isRecursive tokens = true) :
    s.Hits false (tokens :: rest) site way last ↔
      (∃ later, way = [] :: later ∧ s.Hits true rest site later last) ∨
      ∃ name pieces later next, way = (name :: pieces) :: later ∧ Path.IsName name ∧
        s.enter? tokens site name = some next ∧
        s.Hits false (tokens :: rest) next (pieces :: later) last := by
  simp only [hits_many_iff recursive]
  constructor
  · rintro ⟨pieces, later, between, rfl, names, passes, hits⟩
    cases pieces with
    | nil =>
      obtain rfl := Option.some.inj passes
      exact .inl ⟨later, rfl, hits⟩
    | cons name pieces =>
      obtain ⟨named, names⟩ := List.forall_mem_cons.mp names
      obtain ⟨next, entered, passes⟩ := Option.bind_eq_some_iff.mp passes
      exact .inr ⟨name, pieces, later, next, rfl, named, entered, pieces, later, between, rfl,
        names, passes, hits⟩
  · rintro (⟨later, rfl, hits⟩ | ⟨name, pieces, later, next, rfl, named, entered, pieces', later',
      between, same, names, passes, hits⟩)
    · exact ⟨[], later, site, rfl, (fun _ member => by cases member), rfl, hits⟩
    · cases same
      refine ⟨name :: pieces, later, between, rfl, List.forall_mem_cons.mpr ⟨named, names⟩, ?_,
        hits⟩
      rw [List.foldlM_cons, entered]
      exact passes

theorem hits_dropWhile_iff {components : List (List Token)} :
    s.Hits true components site way last ↔ ∃ later,
      way = (components.takeWhile isRecursive).map (fun _ => []) ++ later ∧
        s.Hits true (components.dropWhile isRecursive) site later last := by
  induction components generalizing way with
  | nil => simp
  | cons tokens rest ih =>
    by_cases recursive : isRecursive tokens = true
    · rw [List.takeWhile_cons_of_pos recursive, List.dropWhile_cons_of_pos recursive]
      constructor
      · rintro ⟨stands, leads, file, any⟩
        cases stands with
        | one plain => rw [recursive] at plain; cases plain
        | many _ names once onward =>
          obtain rfl := once rfl
          obtain ⟨later, rfl, hits⟩ := ih.mp ⟨onward, leads, file, any⟩
          exact ⟨later, rfl, hits⟩
      · rintro ⟨later, rfl, hits⟩
        obtain ⟨stands, leads, file, any⟩ := ih.mpr ⟨later, rfl, hits⟩
        exact ⟨.many recursive (fun _ member => by cases member) (fun _ => rfl) stands, leads, file,
          any⟩
    · rw [List.takeWhile_cons_of_neg recursive, List.dropWhile_cons_of_neg recursive]
      simp

def widened (components : List (List Token)) : Way → Way
  | [] => []
  | pieces :: later => pieces :: ((components.takeWhile isRecursive).map (fun _ => []) ++ later)

theorem widened_injective (components : List (List Token)) :
    Function.Injective (widened components) := by
  intro way other same
  cases way <;> cases other <;> simp_all [widened]

theorem hits_widened_iff (recursive : isRecursive tokens = true) :
    s.Hits false (tokens :: rest) site way last ↔ ∃ short, way = widened rest short ∧
      s.Hits false (tokens :: rest.dropWhile isRecursive) site short last := by
  simp only [hits_many_iff recursive]
  constructor
  · rintro ⟨pieces, later, between, rfl, names, passes, hits⟩
    obtain ⟨more, rfl, short⟩ := hits_dropWhile_iff.mp hits
    exact ⟨pieces :: more, rfl, pieces, more, between, rfl, names, passes, short⟩
  · rintro ⟨short, rfl, pieces, more, between, rfl, names, passes, hits⟩
    exact ⟨pieces, _, between, rfl, names, passes, hits_dropWhile_iff.mpr ⟨more, rfl, hits⟩⟩

def deepened (name : String) : Way → Way
  | [] => []
  | pieces :: later => (name :: pieces) :: later

theorem deepened_injective (name : String) : Function.Injective (deepened name) := by
  intro way other same
  cases way <;> cases other <;> simp_all [deepened]

end Search

/-! ### Patterns -/

def Pattern.searchIn (p : Pattern) (w : Workspace) : Search :=
  ⟨w, p.directoriesOnly, w.root.height + 1⟩

def Pattern.origin (p : Pattern) (w : Workspace) : Site :=
  let path := if p.rooted then "/" else "."
  ⟨path, "", w.start path⟩

/-- A way in which a pattern matches a file, and the site of the file. -/
def Pattern.Matches (p : Pattern) (w : Workspace) (way : Way) (site : Site) : Prop :=
  (p.searchIn w).Hits false p.components (p.origin w) way site

/-- Whether a file at a location is matched, in some way. -/
def Pattern.MatchesFile (p : Pattern) (w : Workspace) (loc : Location) : Prop :=
  ∃ way site, p.Matches w way site ∧ site.location = loc

/-- Whether each file is matched in one way at most. -/
def Pattern.OneWay (p : Pattern) (w : Workspace) : Prop :=
  ∀ way way' site site', p.Matches w way site → p.Matches w way' site' →
    site.location = site'.location → way = way'

theorem Pattern.located_origin {w : Workspace} (here : w.isDirectory w.here = true) (p : Pattern) :
    (p.origin w).Located w ∧ Path.isLong (p.origin w).path = false := by
  have located (path : String) (either : path = "/" ∨ path = ".") :
      Site.Located w ⟨path, "", w.start path⟩ ∧ Path.isLong path = false := by
    have silence : ∀ piece ∈ Path.bodyPieces path, Path.saysNothing piece = true := by
      rcases either with rfl | rfl <;> decide
    have text : path ≠ "" ∧ '\x00' ∉ path.toList ∧ Path.isLong path = false := by
      rcases either with rfl | rfl <;> decide
    obtain ⟨some, clean, short⟩ := text
    have follows := Workspace.follow_silent (Workspace.isDirectory_start here path) silence
    exact ⟨⟨some, clean, follows⟩, short⟩
  refine located _ ?_
  cases p.rooted
  · exact .inr rfl
  · exact .inl rfl

/-- What is matched lies where the path that was found leads, and where the pieces of the way do. -/
theorem Pattern.Matches.located {w : Workspace} {p : Pattern} {way : Way} {site : Site}
    (matched : p.Matches w way site) (proper : w.Proper) :
    w.resolve site.path = .ok site.location ∧
      w.follow (p.origin w).location way.flatten = .ok site.location := by
  obtain ⟨located, short⟩ := p.located_origin proper.here
  obtain ⟨there, shortPath, follows⟩ := Search.located_of_along? (s := p.searchIn w) proper located
    short matched.stands matched.leads
  exact ⟨there.resolve shortPath, follows⟩

end PacketLayers.Glob
