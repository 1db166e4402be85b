import Mathlib.Data.List.DropRight
import Mathlib.Data.List.Nodup
import PacketLayers.Proofs.Files.Matching

namespace PacketLayers.Glob

def filesOf (w : Workspace) (found : List Found) : List String :=
  found.filterMap fun f =>
    match f with
    | .path path => if w.isFile path then some path else none
    | .unreadable _ => none

theorem filesOf_path (w : Workspace) (path : String) (found : List Found) :
    filesOf w (.path path :: found) =
      if w.isFile path then path :: filesOf w found else filesOf w found := by
  cases file : w.isFile path <;> simp [filesOf, file]

/-- Whether a path is too long to list the directory that it leads to. -/
def TooDeep (w : Workspace) (path : String) : Prop :=
  Path.isLong path = true ∧ ∃ loc, w.Leads path loc ∧ w.isDirectory loc = true

/-- An account of what was found: the files are the ends of ways, each of them once. -/
structure Accounts (w : Workspace) (found : List Found) (hits : Way → Site → Prop) : Prop where
  ways : ∃ ends : List (Way × Site), (ends.map Prod.fst).Nodup ∧
    (∀ way last, (way, last) ∈ ends ↔ hits way last) ∧
    filesOf w found = ends.map fun e => e.2.path
  stuck : ∀ path, .unreadable path ∈ found → TooDeep w path

namespace Accounts

variable {w : Workspace} {found more : List Found} {hits others : Way → Site → Prop}

theorem congr (accounts : Accounts w found hits)
    (same : ∀ way last, hits way last ↔ others way last) : Accounts w found others := by
  obtain ⟨⟨ends, nodup, mem, eq⟩, stuck⟩ := accounts
  exact ⟨⟨ends, nodup, fun way last => (mem way last).trans (same way last), eq⟩, stuck⟩

theorem none (fileless : filesOf w found = [])
    (stuck : ∀ path, .unreadable path ∈ found → TooDeep w path) :
    Accounts w found fun _ _ => False :=
  ⟨⟨[], List.nodup_nil, fun _ _ => by simp, fileless⟩, stuck⟩

theorem nil (w : Workspace) : Accounts w [] fun _ _ => False :=
  none rfl fun _ member => by cases member

theorem append (first : Accounts w found hits) (second : Accounts w more others)
    (apart : ∀ way a b, hits way a → ¬ others way b) :
    Accounts w (found ++ more) fun way last => hits way last ∨ others way last := by
  obtain ⟨⟨ends, nodup, mem, eq⟩, stuck⟩ := first
  obtain ⟨⟨ends', nodup', mem', eq'⟩, stuck'⟩ := second
  refine ⟨⟨ends ++ ends', ?_, fun way last => ?_, ?_⟩, fun path member => ?_⟩
  · rw [List.map_append]
    refine List.nodup_append'.mpr ⟨nodup, nodup', ?_⟩
    intro way left right
    obtain ⟨⟨way, a⟩, here, rfl⟩ := List.mem_map.mp left
    obtain ⟨⟨other, b⟩, there, same⟩ := List.mem_map.mp right
    obtain rfl : other = way := same
    exact apart other a b ((mem other a).mp here) ((mem' other b).mp there)
  · rw [List.mem_append, mem, mem']
  · rw [filesOf, List.filterMap_append, List.map_append, ← eq, ← eq']
    rfl
  · exact (List.mem_append.mp member).elim (stuck path) (stuck' path)

theorem flatMap {α : Type} {items : List α} {f : α → List Found} {hits : α → Way → Site → Prop}
    (nodup : items.Nodup) (each : ∀ item ∈ items, Accounts w (f item) (hits item))
    (apart : ∀ item other way a b, hits item way a → hits other way b → item = other) :
    Accounts w (items.flatMap f) fun way last => ∃ item ∈ items, hits item way last := by
  induction items with
  | nil => exact (nil w).congr fun way last => by simp
  | cons item items ih =>
    obtain ⟨fresh, nodup⟩ := List.nodup_cons.mp nodup
    obtain ⟨first, later⟩ := List.forall_mem_cons.mp each
    refine (first.append (ih nodup later) ?_).congr fun way last => by simp
    rintro way a b here ⟨other, member, there⟩
    obtain rfl := apart item other way a b here there
    exact fresh member

theorem map {tell : Way → Way} (injective : Function.Injective tell)
    (accounts : Accounts w found hits) :
    Accounts w found fun way last => ∃ short, way = tell short ∧ hits short last := by
  obtain ⟨⟨ends, nodup, mem, eq⟩, stuck⟩ := accounts
  refine ⟨⟨ends.map fun e => (tell e.1, e.2), ?_, fun way last => ?_, ?_⟩, stuck⟩
  · have same : (ends.map fun e => (tell e.1, e.2)).map Prod.fst =
        (ends.map Prod.fst).map tell := by simp
    rw [same]
    exact nodup.map injective
  · simp only [List.mem_map, Prod.mk.injEq, Prod.exists]
    constructor
    · rintro ⟨short, site, member, rfl, rfl⟩
      exact ⟨short, rfl, (mem short site).mp member⟩
    · rintro ⟨short, rfl, hit⟩
      exact ⟨short, last, (mem short last).mpr hit, rfl, rfl⟩
  · rw [eq]
    simp

end Accounts

namespace Search

variable {s : Search} {tokens : List Token} {rest : List (List Token)} {site : Site}
variable {name : String} {descent : Nat}

def arrive (s : Search) (rest : List (List Token)) (found : Site) : List Found :=
  if rest.isEmpty then s.accept found else s.expand rest s.height found

def child (site : Site) (name : String) : Site :=
  ⟨inside site name, name, site.location ++ [name]⟩

def listed (s : Search) (rest : List (List Token)) (found : Site) : List Found :=
  match rest with
  | [] => if s.isDirectory found then [.path found.path] else []
  | next :: last => if matchesName next found.name.toList then s.arrive last found else []

def deeper (s : Search) (components : List (List Token)) (descent : Nat) (found : Site) :
    List Found :=
  match descent with
  | 0 => []
  | left + 1 => if s.isDirectory found then s.expand components left found else []

def sorted (s : Search) (site : Site) : List String :=
  (s.workspace.names site.location).mergeSort fun a b => decide (a ≤ b)

theorem children_eq (s : Search) (site : Site) :
    s.children site = (s.sorted site).map (child site) := rfl

theorem expand_literal (literal : literal? tokens = some name) :
    s.expand (tokens :: rest) descent site =
      ((s.step? site name (inside site name)).map (s.arrive rest)).getD [] := by
  rw [expand]
  simp only [literal]
  rfl

theorem expand_flat (wild : literal? tokens = none) (flat : s.isDirectory site = false) :
    s.expand (tokens :: rest) descent site = [] := by
  rw [expand]
  simp [wild, flat]

theorem expand_long (wild : literal? tokens = none) (inside : s.isDirectory site = true)
    (long : Path.isLong site.path = true) :
    s.expand (tokens :: rest) descent site = [.unreadable site.path] := by
  rw [expand]
  simp [wild, inside, long]

theorem expand_wildcard (wild : literal? tokens = none) (plain : isRecursive tokens = false)
    (inside : s.isDirectory site = true) (short : Path.isLong site.path = false) :
    s.expand (tokens :: rest) descent site =
      ((dots tokens).flatMap fun d =>
        ((s.step? site d (Path.join site.path d)).map (s.arrive rest)).getD []) ++
      (s.sorted site).flatMap fun name =>
        if matchesName tokens name.toList then s.arrive rest (child site name) else [] := by
  rw [expand, children_eq]
  simp only [wild, inside, short, plain, List.flatMap_map]
  rfl

theorem expand_many (recursive : isRecursive tokens = true) (inside : s.isDirectory site = true)
    (short : Path.isLong site.path = false) :
    s.expand (tokens :: rest) descent site =
      (s.sorted site).flatMap fun name =>
        s.listed (rest.dropWhile isRecursive) (child site name) ++
          s.deeper (tokens :: rest.dropWhile isRecursive) descent (child site name) := by
  obtain ⟨wild, undotted⟩ := wild_of_recursive recursive
  rw [expand, children_eq]
  simp only [wild, inside, short, recursive, undotted, List.flatMap_map, List.flatMap_nil,
    List.nil_append, Bool.not_true, Bool.false_eq_true, if_false, if_true]
  refine congrArg (List.flatMap · _) (funext fun name => ?_)
  split
  · rename_i none
    rw [none]
    rfl
  · rename_i next last some
    simp only [some, listed, arrive]
    cases matchesName next (child site name).name.toList <;> rfl

theorem expand_only (recursive : isRecursive tokens = true) (inside : s.isDirectory site = true)
    (short : Path.isLong site.path = false) (only : s.workspace.names site.location = [name]) :
    s.expand (tokens :: rest) descent site =
      s.listed (rest.dropWhile isRecursive) (child site name) ++
        s.deeper (tokens :: rest.dropWhile isRecursive) descent (child site name) := by
  rw [expand_many recursive inside short, sorted, only, List.mergeSort_singleton]
  exact List.flatMap_singleton _ _

theorem expand_dropWhile (recursive : isRecursive tokens = true) :
    s.expand (tokens :: rest) descent site =
      s.expand (tokens :: rest.dropWhile isRecursive) descent site := by
  have wild := (wild_of_recursive recursive).1
  cases inside : s.isDirectory site with
  | false => rw [expand_flat wild inside, expand_flat wild inside]
  | true =>
    cases long : Path.isLong site.path with
    | true => rw [expand_long wild inside long, expand_long wild inside long]
    | false =>
      rw [expand_many recursive inside long, expand_many recursive inside long,
        List.dropWhile_idempotent]

theorem mem_sorted_iff : name ∈ s.sorted site ↔ name ∈ s.workspace.names site.location :=
  (List.mergeSort_perm _ _).mem_iff

theorem nodup_sorted (proper : s.workspace.Proper) : (s.sorted site).Nodup :=
  (List.mergeSort_perm _ _).nodup_iff.mpr (proper.nodup_names site.location)

section Child

variable (proper : s.workspace.Proper) (located : site.Located s.workspace)
variable (there : name ∈ s.workspace.names site.location)
include proper located there

theorem located_child : (child site name).Located s.workspace := by
  have follows := proper.follow_name there
  refine located.inside proper follows ?_
  unfold inside
  split
  · exact (proper.isName there).ne_empty
  · exact (located.join proper follows).some

theorem enter?_name (tokens : List Token) :
    s.enter? tokens site name =
      if Path.isLong (child site name).path then none else some (child site name) := by
  have plain : ((literal? tokens).isNone && Workspace.isDots name) = false := by
    simp [(proper.isName there).not_dots]
  have follows := proper.follow_name there
  have sound := (located_child proper located there).wholeFault?_eq_none_iff
  rw [enter?, plain, if_neg Bool.false_ne_true]
  split
  · rename_i long
    cases entered : s.step? site name (inside site name) with
    | none => rfl
    | some next =>
      have short := sound.mp (step?_eq_some_iff.mp entered).1
      rw [long] at short
      cases short
  · rename_i short
    exact step?_eq_some_iff.mpr
      ⟨sound.mpr (by simpa using short), _, follows, rfl⟩

theorem isCurrent_child : isCurrent (child site name).path = false := by
  have named := proper.isName there
  have body : ∃ init, Path.bodyPieces (inside site name) = init ++ [name] := by
    unfold inside
    split
    · exact ⟨[], Path.bodyPieces_of_not_mem named.whole⟩
    · obtain ⟨-, init, body, -⟩ := Path.bodyPieces_join located.some named.whole
      exact ⟨init, body⟩
  obtain ⟨init, body⟩ := body
  simpa [isCurrent, child] using Path.components_ne_dot body named

end Child

theorem plain_of_alone (alone : (tokens :: rest).dropWhile isRecursive = tokens :: rest) :
    isRecursive tokens = false := by
  simpa using List.dropWhile_eq_self_iff.mp alone (Nat.succ_pos _)

theorem exists_name_of_hits {way : Way} {last : Site}
    (alone : rest.dropWhile isRecursive = rest) (hits : s.Hits true rest site way last) :
    ∃ name more, way = [name] :: more ∧ name ∈ s.workspace.names site.location := by
  cases rest with
  | nil =>
    obtain ⟨stands, -⟩ := hits
    cases stands
  | cons next rest =>
    obtain ⟨name, more, found, rfl, -, named, entered, -⟩ :=
      (hits_one_iff (plain_of_alone alone)).mp hits
    exact ⟨name, more, rfl, mem_names_of_enter? (named rfl) entered⟩

/-! ### Files behind a site -/

variable {w : Workspace}

theorem not_isFile_of_isDirectory (located : site.Located w)
    (inside : w.isDirectory site.location = true) : w.isFile site.path = false := by
  refine Bool.eq_false_iff.mpr fun file => ?_
  have content := (located.isFile_iff.mp file).2
  unfold Workspace.isDirectory at inside
  unfold Workspace.content? at content
  split at inside
  · rename_i found
    rw [found] at content
    cases content
  · cases inside

theorem accounts_unlisted {path : String} (file : w.isFile path = false) :
    Accounts w [.path path] fun _ _ => False := by
  refine .none ?_ fun other member => ?_
  · simp [filesOf, file]
  · simp at member

theorem accounts_long (proper : s.workspace.Proper) (located : site.Located s.workspace)
    (long : Path.isLong site.path = true) (elsewhere : isCurrent site.path = false)
    (components : List (List Token)) :
    Accounts s.workspace (s.expand components descent site) fun _ _ => False := by
  cases components with
  | nil =>
    rw [expand]
    exact .nil _
  | cons tokens rest =>
    cases literal : literal? tokens with
    | some name =>
      rw [expand_literal literal]
      cases entered : s.step? site name (inside site name) with
      | none => exact .nil _
      | some next =>
        obtain ⟨sound, loc, follows, -⟩ := step?_eq_some_iff.mp entered
        have joined : inside site name = Path.join site.path name := by
          simp [inside, elsewhere]
        have short := (located.join proper follows).wholeFault?_eq_none_iff.mp (joined ▸ sound)
        have longer := Path.isLong_join (proper.plain_of_follow follows).1 long
        exact absurd (short.symm.trans longer) Bool.false_ne_true
    | none =>
      cases inside : s.isDirectory site with
      | false =>
        rw [expand_flat literal inside]
        exact .nil _
      | true =>
        rw [expand_long literal inside long]
        refine .none rfl fun path member => ?_
        obtain rfl : path = site.path := by simpa using member
        exact ⟨long, site.location, located.reaches, inside⟩

theorem accounts_accept (located : site.Located s.workspace)
    (short : Path.isLong site.path = false) :
    Accounts s.workspace (s.accept site) (s.Hits false [] site) := by
  cases file : s.workspace.isFile site.path with
  | false =>
    have fileless : Accounts s.workspace (s.accept site) fun _ _ => False := by
      unfold accept
      split
      · exact .nil _
      · exact accounts_unlisted file
    refine fileless.congr fun way last => ⟨False.elim, fun hits => ?_⟩
    obtain ⟨-, rfl, content, -⟩ := hits_nil_iff.mp hits
    rw [located.isFile_iff.mpr ⟨short, content⟩] at file
    cases file
  | true =>
    have content := (located.isFile_iff.mp file).2
    have flat : s.isDirectory site = false := by
      refine Bool.eq_false_iff.mpr fun inside => ?_
      rw [not_isFile_of_isDirectory located inside] at file
      cases file
    unfold accept
    rw [flat]
    cases any : s.directoriesOnly with
    | true =>
      refine (Accounts.nil _).congr fun way last => ⟨False.elim, fun hits => ?_⟩
      rw [hits.any] at any
      cases any
    | false =>
      refine ⟨⟨[([], site)], by simp, fun way last => ?_, by simp [filesOf, file]⟩, by simp⟩
      rw [hits_nil_iff]
      constructor
      · intro member
        cases List.mem_singleton.mp member
        exact ⟨rfl, rfl, content, any⟩
      · rintro ⟨rfl, rfl, -⟩
        exact List.mem_singleton.mpr rfl

theorem accounts_flat (wild : literal? tokens = none) (flat : s.isDirectory site = false) :
    Accounts s.workspace (s.expand (tokens :: rest) descent site)
      (s.Hits false (tokens :: rest) site) := by
  rw [expand_flat wild flat]
  refine (Accounts.nil _).congr fun way last => ⟨False.elim, fun hits => ?_⟩
  rw [isDirectory_of_hits hits] at flat
  cases flat

def Explored (s : Search) (components : List (List Token)) : Prop :=
  ∀ site, site.Located s.workspace → Path.isLong site.path = false →
    Accounts s.workspace (s.arrive components site) (s.Hits false components site)

section Expand

variable (proper : s.workspace.Proper) (located : site.Located s.workspace)
include proper located

theorem accounts_piece (explored : s.Explored rest) (tokens : List Token) (piece : String) :
    Accounts s.workspace (((s.enter? tokens site piece).map (s.arrive rest)).getD [])
      fun later last =>
        ∃ next, s.enter? tokens site piece = some next ∧ s.Hits false rest next later last := by
  cases entered : s.enter? tokens site piece with
  | none => exact (Accounts.nil _).congr fun later last => by simp
  | some next =>
    obtain ⟨there, short, -⟩ := located_of_enter? proper located entered
    exact (explored next there short).congr fun later last => by simp

theorem accounts_name (explored : s.Explored rest)
    (there : name ∈ s.workspace.names site.location) (tokens : List Token) :
    Accounts s.workspace (s.arrive rest (child site name)) fun later last =>
      ∃ next, s.enter? tokens site name = some next ∧ s.Hits false rest next later last := by
  have below := located_child proper located there
  rw [enter?_name proper located there]
  split
  · rename_i long
    have unseen : s.workspace.isFile (child site name).path = false :=
      Bool.eq_false_iff.mpr fun file => by
        rw [(below.isFile_iff.mp file).1] at long
        cases long
    have fileless : Accounts s.workspace (s.arrive rest (child site name)) fun _ _ => False := by
      unfold arrive
      split
      · unfold accept
        split
        · exact .nil _
        · exact accounts_unlisted unseen
      · exact accounts_long proper below long (isCurrent_child proper located there) rest
    exact fileless.congr fun later last => by simp
  · rename_i short
    exact (explored _ below (by simpa using short)).congr fun later last => by simp

theorem accounts_literal (explored : s.Explored rest) (literal : literal? tokens = some name) :
    Accounts s.workspace (s.expand (tokens :: rest) descent site)
      (s.Hits false (tokens :: rest) site) := by
  have enters : s.enter? tokens site name = s.step? site name (inside site name) := by
    simp [enter?, literal]
  rw [expand_literal literal, ← enters]
  have entered := accounts_piece proper located explored tokens name
  have told : Function.Injective fun later : Way => [name] :: later := List.cons_injective
  refine (entered.map told).congr fun way last => ?_
  rw [hits_one_iff (plain_of_literal literal)]
  constructor
  · rintro ⟨later, rfl, next, found, hits⟩
    exact ⟨name, later, next, rfl, (fits_literal_iff literal).mpr rfl,
      (fun behind => by cases behind), found, hits⟩
  · rintro ⟨piece, later, next, rfl, fits, -, found, hits⟩
    obtain rfl := (fits_literal_iff literal).mp fits
    exact ⟨later, rfl, next, found, hits⟩

theorem dots_or_there (wild : literal? tokens = none) (fits : Fits tokens piece)
    (entered : s.enter? tokens site piece = some next) :
    Workspace.isDots piece = true ∨ piece ∈ s.workspace.names site.location := by
  obtain ⟨-, -, follows⟩ := located_of_enter? proper located entered
  rcases Workspace.cases_of_follow follows with silent | rfl | there
  · have either : piece = "" ∨ piece = "." := by simpa [Path.saysNothing] using silent
    rcases either with rfl | rfl
    · rw [fits.filled rfl] at wild
      cases wild
    · exact .inl (by decide)
  · exact .inl (by decide)
  · exact .inr there

theorem hits_wildcard_iff (wild : literal? tokens = none) (plain : isRecursive tokens = false) :
    s.Hits false (tokens :: rest) site way last ↔
      (∃ d ∈ dots tokens, ∃ later, way = [d] :: later ∧
        ∃ next, s.enter? tokens site d = some next ∧ s.Hits false rest next later last) ∨
      ∃ name ∈ s.sorted site, ∃ later, way = [name] :: later ∧
        matchesName tokens name.toList = true ∧
        ∃ next, s.enter? tokens site name = some next ∧ s.Hits false rest next later last := by
  rw [hits_one_iff plain]
  constructor
  · rintro ⟨piece, later, next, rfl, fits, -, entered, hits⟩
    rcases dots_or_there proper located wild fits entered with dots | there
    · exact .inl ⟨piece, mem_dots_iff.mpr ⟨dots, fits⟩, later, rfl, next, entered, hits⟩
    · exact .inr ⟨piece, mem_sorted_iff.mpr there, later, rfl, fits.reads, next, entered, hits⟩
  · rintro (⟨d, member, later, rfl, next, entered, hits⟩ |
      ⟨name, member, later, rfl, reads, next, entered, hits⟩)
    · exact ⟨d, later, next, rfl, (mem_dots_iff.mp member).2, (fun behind => by cases behind),
        entered, hits⟩
    · have isName := proper.isName (mem_sorted_iff.mp member)
      exact ⟨name, later, next, rfl, (fits_name_iff isName).mpr reads,
        (fun behind => by cases behind), entered, hits⟩

theorem accounts_wildcard (explored : s.Explored rest) (wild : literal? tokens = none)
    (plain : isRecursive tokens = false) (short : Path.isLong site.path = false) :
    Accounts s.workspace (s.expand (tokens :: rest) descent site)
      (s.Hits false (tokens :: rest) site) := by
  have told (piece : String) : Function.Injective fun later : Way => [piece] :: later :=
    List.cons_injective
  have same {one other : String} {later more : Way} (eq : [one] :: later = [other] :: more) :
      one = other := List.singleton_inj.mp (List.cons.inj eq).1
  cases inside : s.isDirectory site with
  | false => exact accounts_flat wild inside
  | true =>
    rw [expand_wildcard wild plain inside short]
    have dot (d : String) (member : d ∈ dots tokens) :
        s.step? site d (Path.join site.path d) = s.enter? tokens site d := by
      simp [enter?, wild, (mem_dots_iff.mp member).1]
    have dotted := Accounts.flatMap (nodup_dots tokens)
      (fun d _ => (accounts_piece proper located explored tokens d).map (told d))
      fun _ _ _ _ _ ⟨_, first, _⟩ ⟨_, second, _⟩ => same (first.symm.trans second)
    have named (name : String) (member : name ∈ s.sorted site) :
        Accounts s.workspace
          (if matchesName tokens name.toList then s.arrive rest (child site name) else [])
          fun way last => ∃ later, way = [name] :: later ∧ matchesName tokens name.toList = true ∧
            ∃ next, s.enter? tokens site name = some next ∧ s.Hits false rest next later last := by
      have there := mem_sorted_iff.mp member
      cases reads : matchesName tokens name.toList with
      | false => exact (Accounts.nil _).congr fun way last => by simp
      | true =>
        have found := (accounts_name proper located explored there tokens).map (told name)
        exact found.congr fun way last => by simp
    have listed := Accounts.flatMap (nodup_sorted proper) named
      fun _ _ _ _ _ ⟨_, first, _⟩ ⟨_, second, _⟩ => same (first.symm.trans second)
    -- No name is made of dots, so what is found at dots and at names comes by different ways.
    rw [List.flatMap_congr fun d member => by rw [dot d member]]
    refine (dotted.append listed ?_).congr fun way last => ?_
    · rintro way a b ⟨d, member, _, first, -⟩ ⟨name, there, _, second, -⟩
      obtain rfl := same (first.symm.trans second)
      have either := (mem_dots_iff.mp member).1
      rw [(proper.isName (mem_sorted_iff.mp there)).not_dots] at either
      cases either
    · rw [hits_wildcard_iff proper located wild plain]

theorem accounts_listed (alone : rest.dropWhile isRecursive = rest)
    (explored : ∀ next last, rest = next :: last → s.Explored last)
    (there : name ∈ s.workspace.names site.location) :
    Accounts s.workspace (s.listed rest (child site name)) fun way last =>
      ∃ later, way = [] :: [name] :: later ∧ s.Hits true rest site ([name] :: later) last := by
  have below := located_child proper located there
  cases rest with
  -- No component is left: `**` alone stands for directories, and so for no file.
  | nil =>
    have fileless : Accounts s.workspace (s.listed [] (child site name)) fun _ _ => False := by
      unfold listed
      dsimp only
      split
      · rename_i inside
        exact accounts_unlisted (not_isFile_of_isDirectory below inside)
      · exact .nil _
    refine fileless.congr fun way last => ⟨False.elim, ?_⟩
    rintro ⟨later, -, stands, -⟩
    cases stands
  | cons next last =>
    have plain := plain_of_alone alone
    have named := proper.isName there
    have hits_iff (later : Way) (site' : Site) :
        s.Hits true (next :: last) site ([name] :: later) site' ↔
          matchesName next name.toList = true ∧ ∃ found, s.enter? next site name = some found ∧
            s.Hits false last found later site' := by
      rw [hits_one_iff plain]
      constructor
      · rintro ⟨piece, more, found, same, fits, -, entered, hits⟩
        cases same
        exact ⟨fits.reads, found, entered, hits⟩
      · rintro ⟨reads, found, entered, hits⟩
        exact ⟨name, later, found, rfl, (fits_name_iff named).mpr reads, fun _ => named, entered,
          hits⟩
    simp only [hits_iff]
    unfold listed
    dsimp only
    have told : Function.Injective fun later : Way => [] :: [name] :: later := fun _ _ same =>
      (List.cons.inj (List.cons.inj same).2).2
    cases reads : matchesName next name.toList with
    | false =>
      have unread : matchesName next (child site name).name.toList = false := reads
      rw [unread]
      exact (Accounts.nil _).congr fun way last => by simp
    | true =>
      have read : matchesName next (child site name).name.toList = true := reads
      rw [read]
      have found := accounts_name proper located (explored next last rfl) there next
      exact (found.map told).congr fun way last => by simp

theorem accounts_deeper (there : name ∈ s.workspace.names site.location)
    (recursive : isRecursive tokens = true)
    (below : ∀ next : Site, next.Located s.workspace → Path.isLong next.path = false →
      next.location.length = site.location.length + 1 →
      Accounts s.workspace (s.expand (tokens :: rest) descent next)
        (s.Hits false (tokens :: rest) next)) :
    Accounts s.workspace (s.deeper (tokens :: rest) (descent + 1) (child site name))
      fun way last => ∃ pieces later, way = (name :: pieces) :: later ∧ ∃ next,
        s.enter? tokens site name = some next ∧
        s.Hits false (tokens :: rest) next (pieces :: later) last := by
  have entry := located_child proper located there
  have found : Accounts s.workspace (s.deeper (tokens :: rest) (descent + 1) (child site name))
      fun short last => ∃ next, s.enter? tokens site name = some next ∧
        s.Hits false (tokens :: rest) next short last := by
    rw [enter?_name proper located there]
    unfold deeper
    dsimp only
    cases inside : s.isDirectory (child site name) with
    | false =>
      refine (Accounts.nil _).congr fun short last => ⟨False.elim, ?_⟩
      rintro ⟨next, entered, hits⟩
      split at entered
      · cases entered
      · cases entered
        rw [isDirectory_of_hits hits] at inside
        cases inside
    | true =>
      rw [if_pos rfl]
      split
      · rename_i long
        exact (accounts_long proper entry long (isCurrent_child proper located there) _).congr
          fun short last => by simp
      · rename_i short
        have onward := below _ entry (by simpa using short) (List.length_append)
        exact onward.congr fun short last => by simp
  refine (found.map (deepened_injective name)).congr fun way last => ?_
  constructor
  · rintro ⟨short, rfl, next, entered, hits⟩
    obtain ⟨pieces, later, between, rfl, names, passes, onward⟩ := (hits_many_iff recursive).mp hits
    exact ⟨pieces, later, rfl, next, entered, hits⟩
  · rintro ⟨pieces, later, rfl, next, entered, hits⟩
    exact ⟨pieces :: later, rfl, next, entered, hits⟩

theorem accounts_many (tall : s.workspace.root.height < s.height)
    (recursive : isRecursive tokens = true) (alone : rest.dropWhile isRecursive = rest)
    (explored : ∀ next last, rest = next :: last → s.Explored last)
    (short : Path.isLong site.path = false)
    (deep : s.height ≤ descent + site.location.length) :
    Accounts s.workspace (s.expand (tokens :: rest) descent site)
      (s.Hits false (tokens :: rest) site) := by
  have wild := (wild_of_recursive recursive).1
  induction descent generalizing site with
  | zero =>
    -- The tree has no directories as deep as this.
    refine accounts_flat wild (Bool.eq_false_iff.mpr fun inside => ?_)
    have shallow := Workspace.length_le_of_isDirectory inside
    omega
  | succ descent ih =>
    cases inside : s.isDirectory site with
    | false => exact accounts_flat wild inside
    | true =>
      rw [expand_many recursive inside short, alone]
      have each (name : String) (member : name ∈ s.sorted site) :=
        have there := mem_sorted_iff.mp member
        (accounts_listed proper located alone explored there).append
          (accounts_deeper proper located there recursive fun next below short longer =>
            ih below short (by omega)) (by
              rintro way a b ⟨later, rfl, -⟩ ⟨pieces, more, same, -⟩
              cases same)
      refine (Accounts.flatMap (nodup_sorted proper) each ?_).congr fun way last => ?_
      · -- A way tells the name: it is the first that `**` stands for, or what comes behind it.
        rintro one other way a b (⟨later, rfl, -⟩ | ⟨pieces, later, rfl, -⟩)
          (⟨more, same, -⟩ | ⟨pieces', more, same, -⟩)
        · exact List.singleton_inj.mp (List.cons.inj (List.cons.inj same).2).1
        · cases same
        · cases same
        · exact (List.cons.inj (List.cons.inj same).1).1
      · rw [hits_many_cases recursive]
        constructor
        · rintro ⟨name, member, ⟨later, rfl, hits⟩ | ⟨pieces, later, rfl, next, entered, hits⟩⟩
          · exact .inl ⟨_, rfl, hits⟩
          · have named := proper.isName (mem_sorted_iff.mp member)
            exact .inr ⟨name, pieces, later, next, rfl, named, entered, hits⟩
        · rintro (⟨later, rfl, hits⟩ | ⟨name, pieces, later, next, rfl, named, entered, hits⟩)
          · obtain ⟨name, more, rfl, there⟩ := exists_name_of_hits alone hits
            exact ⟨name, mem_sorted_iff.mpr there, .inl ⟨more, rfl, hits⟩⟩
          · have there := mem_names_of_enter? named entered
            exact ⟨name, mem_sorted_iff.mpr there, .inr ⟨pieces, later, rfl, next, entered, hits⟩⟩

end Expand

/-- What components find from a site on is what their ways lead to. -/
theorem accounts_expand (proper : s.workspace.Proper) (tall : s.workspace.root.height < s.height)
    {components : List (List Token)} (some : components ≠ []) (located : site.Located s.workspace)
    (short : Path.isLong site.path = false) (deep : s.height ≤ descent + site.location.length) :
    Accounts s.workspace (s.expand components descent site) (s.Hits false components site) := by
  induction length : components.length using Nat.strong_induction_on
    generalizing components site descent with
  | _ n ih =>
    have explored (rest : List (List Token)) (shorter : rest.length < components.length) :
        s.Explored rest := by
      intro site located short
      unfold arrive
      cases rest with
      | nil => exact accounts_accept located short
      | cons next rest =>
        exact ih _ (length ▸ shorter) (List.cons_ne_nil _ _) located short (Nat.le_add_right _ _)
          rfl
    cases components with
    | nil => exact absurd rfl some
    | cons tokens rest =>
      have here := explored rest (Nat.lt_succ_self _)
      cases literal : literal? tokens with
      | some name => exact accounts_literal proper located here literal
      | none =>
        cases recursive : isRecursive tokens with
        | false => exact accounts_wildcard proper located here literal recursive short
        | true =>
          have later (next : List Token) (last : List (List Token))
              (eq : rest.dropWhile isRecursive = next :: last) : s.Explored last := by
            refine explored last ?_
            have shorter := length_dropWhile_le isRecursive rest
            rw [eq] at shorter
            exact Nat.lt_succ_of_lt shorter
          have found := accounts_many proper located tall recursive
            (List.dropWhile_idempotent isRecursive rest) later short deep
          rw [expand_dropWhile recursive]
          exact (found.map (widened_injective rest)).congr fun way last =>
            (hits_widened_iff recursive).symm

end Search

variable {w : Workspace} {p : Pattern}

/-- What the search of a tree finds is what the ways of the pattern lead to. -/
theorem accounts_search (proper : w.Proper) (some : p.components ≠ []) :
    Accounts w (search w p) (p.Matches w) := by
  obtain ⟨located, short⟩ := p.located_origin proper.here
  exact Search.accounts_expand (s := p.searchIn w) proper (Nat.lt_succ_self _) some located short
    (Nat.le_add_right _ _)

theorem find_cases (w : Workspace) (p : Pattern) :
    (∃ path, .unreadable path ∈ search w p ∧ find w p = .error path) ∨
      (∀ path, .unreadable path ∉ search w p) ∧ ∃ paths, find w p = .ok paths ∧
        paths.filter w.isFile = filesOf w (search w p) := by
  unfold find
  induction search w p with
  | nil => exact .inr ⟨(fun _ member => by cases member), [], rfl, rfl⟩
  | cons first found ih =>
    rw [List.mapM_cons]
    cases first with
    | unreadable path => exact .inl ⟨path, List.mem_cons_self, rfl⟩
    | path path =>
      rcases ih with ⟨other, member, fails⟩ | ⟨readable, paths, finds, files⟩
      · refine .inl ⟨other, List.mem_cons_of_mem _ member, ?_⟩
        rw [fails]
        rfl
      · refine .inr ⟨fun other member => ?_, path :: paths, ?_, ?_⟩
        · exact readable other (by simpa using member)
        · rw [finds]
          rfl
        · rw [List.filter_cons, files, filesOf_path]

/-- Whether a file is all that a pattern matches, in one way, and the search gets through. -/
structure Pattern.Sole (p : Pattern) (w : Workspace) (loc : Location) : Prop where
  readable : ∀ path, .unreadable path ∉ search w p
  matched : p.MatchesFile w loc
  only : ∀ way way' site site', p.Matches w way site → p.Matches w way' site' → way = way'

theorem Pattern.Sole.filesOf_eq {loc : Location} {way : Way} {site : Site} (sole : p.Sole w loc)
    (proper : w.Proper) (some : p.components ≠ []) (matched : p.Matches w way site) :
    filesOf w (search w p) = [site.path] := by
  obtain ⟨⟨ends, nodup, mem, eq⟩, -⟩ := accounts_search proper some
  have alone : ends.map Prod.fst = [way] := by
    refine List.perm_singleton.mp ((List.perm_ext_iff_of_nodup nodup (List.nodup_singleton _)).mpr
      fun other => ?_)
    constructor
    · intro member
      obtain ⟨⟨other, site'⟩, inside, rfl⟩ := List.mem_map.mp member
      exact List.mem_singleton.mpr (sole.only _ _ _ _ ((mem other site').mp inside) matched)
    · intro member
      obtain rfl := List.mem_singleton.mp member
      exact List.mem_map.mpr ⟨_, (mem _ site).mpr matched, rfl⟩
  obtain ⟨⟨way', site'⟩, rfl, rfl⟩ := List.map_eq_singleton_iff.mp alone
  obtain rfl : site = site' := by
    have inside := (mem way' site).mpr matched
    exact congrArg Prod.snd (List.mem_singleton.mp inside)
  exact eq

/-- A file is the only match exactly if its path is all that the search finds. -/
theorem Pattern.sole_iff {loc : Location} (proper : w.Proper) (some : p.components ≠ []) :
    p.Sole w loc ↔ (∀ path, .unreadable path ∉ search w p) ∧
      ∃ path, filesOf w (search w p) = [path] ∧ w.resolve path = .ok loc := by
  constructor
  · intro sole
    obtain ⟨way, site, matched, rfl⟩ := sole.matched
    exact ⟨sole.readable, site.path, sole.filesOf_eq proper some matched,
      (matched.located proper).1⟩
  · obtain ⟨⟨ends, nodup, mem, eq⟩, -⟩ := accounts_search proper some
    rintro ⟨readable, path, files, resolved⟩
    obtain ⟨⟨way, site⟩, rfl, rfl⟩ := List.map_eq_singleton_iff.mp (eq.symm.trans files)
    have matched := (mem way site).mp (List.mem_singleton.mpr rfl)
    have leads := (matched.located proper).1
    refine ⟨readable, ⟨way, site, matched, Except.ok.inj (leads.symm.trans resolved)⟩, ?_⟩
    intro way way' site site' first second
    have here := List.mem_singleton.mp ((mem way site).mpr first)
    have there := List.mem_singleton.mp ((mem way' site').mpr second)
    exact congrArg Prod.fst (here.trans there.symm)

end PacketLayers.Glob
