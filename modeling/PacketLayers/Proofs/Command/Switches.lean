import PacketLayers.Proofs.Capture.ClassicFile
import PacketLayers.Proofs.Command.Delivery
import PacketLayers.Proofs.Dissect.Sequences
import PacketLayers.Proofs.Report.RoundTrip

/-!
What switches change. Arguments from which some switches are taken out are read as the options with
these switches off. Main statement: arguments that differ in the switches for messages and for the
default layout only deliver the same and end alike, and the switch for strictness changes the exit
code, of a run that delivers a report with unsupported link types, and nothing else.
-/
namespace PacketLayers.Command

/-- Arguments without those that turn on one of some switches. Behind two dashes there are operands
only. -/
def withoutSwitches (drop : Switch → Bool) : List String → List String
  | [] => []
  | arg :: rest =>
    if arg == "--" then arg :: rest
    else
      match Switch.ofName? arg with
      | some s => if drop s then withoutSwitches drop rest else arg :: withoutSwitches drop rest
      | none => arg :: withoutSwitches drop rest

namespace Switch

theorem name_of_ofName? {arg : String} {s : Switch} (h : ofName? arg = some s) : s.name = arg := by
  simpa using List.find?_some h

theorem ofName?_name (s : Switch) : ofName? s.name = some s := by
  cases s <;> decide

theorem looksLikeOption_name (s : Switch) : looksLikeOption s.name = true := by
  cases s <;> decide

theorem name_ne_dashes (s : Switch) : s.name ≠ "--" := by
  cases s <;> decide

theorem attachedReport?_name (s : Switch) : attachedReport? s.name.toList = none := by
  cases s <;> decide

end Switch

/-- How arguments are gathered that are accepted, one kind of argument after the other. -/
inductive Gathers : Gathered → (operandsOnly : Bool) → List String → Gathered → Prop
  | done (g : Gathered) (operandsOnly : Bool) : Gathers g operandsOnly [] g
  | behind {g between last : Gathered} {arg : String} {rest : List String}
      (set : g.setInput arg = some between) (later : Gathers between true rest last) :
      Gathers g true (arg :: rest) last
  | operand {g between last : Gathered} {arg : String} {rest : List String}
      (plain : looksLikeOption arg = false) (set : g.setInput arg = some between)
      (later : Gathers between false rest last) : Gathers g false (arg :: rest) last
  | dashes {g last : Gathered} {rest : List String} (later : Gathers g true rest last) :
      Gathers g false ("--" :: rest) last
  | attached {g between last : Gathered} {arg value : String} {rest : List String}
      (option : looksLikeOption arg = true) (single : arg ≠ "--")
      (report : attachedReport? arg.toList = some (some value))
      (set : g.setReport value = some between) (later : Gathers between false rest last) :
      Gathers g false (arg :: rest) last
  | separate {g between last : Gathered} {arg value : String} {rest : List String}
      (option : looksLikeOption arg = true) (single : arg ≠ "--")
      (report : attachedReport? arg.toList = some none) (plain : looksLikeOption value = false)
      (set : g.setReport value = some between) (later : Gathers between false rest last) :
      Gathers g false (arg :: value :: rest) last
  | switch {g between last : Gathered} {s : Switch} {rest : List String}
      (turned : g.turnOn s = some between) (later : Gathers between false rest last) :
      Gathers g false (s.name :: rest) last

theorem gathers_of_gather {g last : Gathered} {operandsOnly : Bool} {args : List String}
    (gathered : gather g operandsOnly args = some last) : Gathers g operandsOnly args last := by
  have option {operandsOnly : Bool} {arg : String}
      (other : ¬ (operandsOnly || !looksLikeOption arg) = true) :
      operandsOnly = false ∧ looksLikeOption arg = true := by
    simpa using other
  fun_induction gather g operandsOnly args generalizing last with
  | case1 g operandsOnly =>
    cases gathered
    exact .done g operandsOnly
  | case2 g operandsOnly arg rest operand ih =>
    obtain ⟨between, set, later⟩ := Option.bind_eq_some_iff.mp gathered
    cases operandsOnly with
    | true => exact .behind set (ih between later)
    | false => exact .operand (by simpa using operand) set (ih between later)
  | case3 g operandsOnly arg rest other dashes ih =>
    obtain ⟨rfl, -⟩ := option other
    obtain rfl : arg = "--" := by simpa using dashes
    exact .dashes (ih gathered)
  | case4 g operandsOnly arg rest other dashes value report ih =>
    obtain ⟨rfl, looks⟩ := option other
    obtain ⟨between, set, later⟩ := Option.bind_eq_some_iff.mp gathered
    exact .attached looks (by simpa using dashes) report set (ih between later)
  | case5 => cases gathered
  | case6 g operandsOnly arg other dashes report value others plain ih =>
    obtain ⟨rfl, looks⟩ := option other
    obtain ⟨between, set, later⟩ := Option.bind_eq_some_iff.mp gathered
    exact .separate looks (by simpa using dashes) report (by simpa using plain) set
      (ih between later)
  | case7 => cases gathered
  | case8 g operandsOnly arg rest other dashes report s named ih =>
    obtain ⟨rfl, -⟩ := option other
    obtain ⟨between, turned, later⟩ := Option.bind_eq_some_iff.mp gathered
    rw [← Switch.name_of_ofName? named]
    exact .switch turned (ih between later)
  | case9 => cases gathered

theorem Gathers.gather_eq {g last : Gathered} {operandsOnly : Bool} {args : List String}
    (gathers : Gathers g operandsOnly args last) : gather g operandsOnly args = some last := by
  induction gathers with
  | done g operandsOnly => rfl
  | behind set later ih => rw [gather.eq_def]; simp [set, ih]
  | operand plain set later ih => rw [gather.eq_def]; simp [plain, set, ih]
  | dashes later ih => rw [gather.eq_def]; exact ih
  | attached option single report set later ih =>
    rw [gather.eq_def]
    simp [option, single, report, set, ih]
  | separate option single report plain set later ih =>
    rw [gather.eq_def]
    simp [option, single, report, plain, set, ih]
  | switch turned later ih =>
    rename_i s _
    rw [gather.eq_def]
    simp [s.looksLikeOption_name, s.name_ne_dashes, s.attachedReport?_name, s.ofName?_name, turned,
      ih]

namespace Gathered

def without (g : Gathered) (drop : Switch → Bool) : Gathered :=
  { g with switches := g.switches.filter fun s => !drop s }

variable {drop : Switch → Bool} {g next : Gathered} {value : String} {s : Switch}

theorem switches_setInput (set : g.setInput value = some next) : next.switches = g.switches := by
  unfold setInput at set
  split at set
  · cases set
  · cases set
    rfl

theorem switches_setReport (set : g.setReport value = some next) :
    next.switches = g.switches := by
  unfold setReport at set
  split at set
  · cases set
  · cases set
    rfl

theorem switches_turnOn (turned : g.turnOn s = some next) : next.switches = s :: g.switches := by
  unfold turnOn at turned
  split at turned
  · cases turned
  · cases turned
    rfl

theorem setInput_without (set : g.setInput value = some next) :
    (g.without drop).setInput value = some (next.without drop) := by
  unfold setInput at set ⊢
  split at set
  · cases set
  · rename_i free
    cases set
    exact if_neg free

theorem setReport_without (set : g.setReport value = some next) :
    (g.without drop).setReport value = some (next.without drop) := by
  unfold setReport at set ⊢
  split at set
  · cases set
  · rename_i free
    cases set
    exact if_neg free

theorem turnOn_dropped (dropped : drop s = true) (turned : g.turnOn s = some next) :
    next.without drop = g.without drop := by
  unfold turnOn at turned
  split at turned
  · cases turned
  · cases turned
    simp [without, dropped]

theorem turnOn_kept (kept : ¬ drop s = true) (turned : g.turnOn s = some next) :
    (g.without drop).turnOn s = some (next.without drop) := by
  unfold turnOn at turned ⊢
  split at turned
  · cases turned
  · rename_i fresh
    cases turned
    have still : s ∉ (g.without drop).switches := fun member =>
      fresh (List.mem_filter.mp member).1
    rw [if_neg still]
    simp [without, kept]

theorem has_without (g : Gathered) (drop : Switch → Bool) (s : Switch) :
    (g.without drop).has s = (g.has s && !drop s) := by
  simp [has, without, List.mem_filter]

end Gathered

section Without

variable {drop : Switch → Bool} {arg : String} {rest : List String}

theorem withoutSwitches_keeps (single : arg ≠ "--") (other : Switch.ofName? arg = none) :
    withoutSwitches drop (arg :: rest) = arg :: withoutSwitches drop rest := by
  simp only [withoutSwitches, beq_iff_eq, if_neg single, other]

theorem withoutSwitches_plain (plain : looksLikeOption arg = false) :
    withoutSwitches drop (arg :: rest) = arg :: withoutSwitches drop rest := by
  have single : arg ≠ "--" := by
    rintro rfl
    exact absurd plain (by decide)
  refine withoutSwitches_keeps single (Option.eq_none_iff_forall_ne_some.mpr fun s named => ?_)
  rw [← Switch.name_of_ofName? named, s.looksLikeOption_name] at plain
  cases plain

theorem withoutSwitches_report {attached : Option String} (single : arg ≠ "--")
    (report : attachedReport? arg.toList = some attached) :
    withoutSwitches drop (arg :: rest) = arg :: withoutSwitches drop rest := by
  refine withoutSwitches_keeps single (Option.eq_none_iff_forall_ne_some.mpr fun s named => ?_)
  rw [← Switch.name_of_ofName? named, s.attachedReport?_name] at report
  cases report

theorem withoutSwitches_name (s : Switch) :
    withoutSwitches drop (s.name :: rest) =
      if drop s then withoutSwitches drop rest else s.name :: withoutSwitches drop rest := by
  simp only [withoutSwitches, beq_iff_eq, if_neg s.name_ne_dashes, s.ofName?_name]

variable {g last : Gathered} {operandsOnly : Bool} {args : List String}

/-- Arguments without some switches are gathered as before, but for these switches. -/
theorem Gathers.without (gathers : Gathers g operandsOnly args last) :
    Gathers (g.without drop) operandsOnly
      (if operandsOnly then args else withoutSwitches drop args) (last.without drop) := by
  induction gathers with
  | done g operandsOnly => cases operandsOnly <;> exact .done _ _
  | behind set later ih => exact .behind (Gathered.setInput_without set) ih
  | operand plain set later ih =>
    rw [if_neg Bool.false_ne_true, withoutSwitches_plain plain]
    exact .operand plain (Gathered.setInput_without set) ih
  | dashes later ih => exact .dashes ih
  | attached option single report set later ih =>
    rw [if_neg Bool.false_ne_true, withoutSwitches_report single report]
    exact .attached option single report (Gathered.setReport_without set) ih
  | separate option single report plain set later ih =>
    rw [if_neg Bool.false_ne_true, withoutSwitches_report single report,
      withoutSwitches_plain plain]
    exact .separate option single report plain (Gathered.setReport_without set) ih
  | switch turned later ih =>
    rw [if_neg Bool.false_ne_true, withoutSwitches_name]
    split
    · rename_i dropped
      rw [← Gathered.turnOn_dropped dropped turned]
      exact ih
    · rename_i kept
      exact .switch (Gathered.turnOn_kept kept turned) ih

theorem Gathers.subset (gathers : Gathers g operandsOnly args last) :
    g.switches ⊆ last.switches := by
  have keeps {first between last : Gathered} (same : between.switches = first.switches)
      (ih : between.switches ⊆ last.switches) : first.switches ⊆ last.switches := by
    rwa [← same]
  induction gathers with
  | done g operandsOnly => exact List.Subset.refl _
  | behind set later ih => exact keeps (Gathered.switches_setInput set) ih
  | operand plain set later ih => exact keeps (Gathered.switches_setInput set) ih
  | dashes later ih => exact ih
  | attached option single report set later ih =>
    exact keeps (Gathered.switches_setReport set) ih
  | separate option single report plain set later ih =>
    exact keeps (Gathered.switches_setReport set) ih
  | switch turned later ih =>
    rw [Gathered.switches_turnOn turned] at ih
    exact List.Subset.trans (List.subset_cons_self _ _) ih

theorem Gathers.withoutSwitches_eq (gathers : Gathers g operandsOnly args last)
    (unused : ∀ s ∈ last.switches, ¬ drop s = true) :
    (if operandsOnly then args else withoutSwitches drop args) = args := by
  induction gathers with
  | done g operandsOnly => cases operandsOnly <;> rfl
  | behind set later ih => rfl
  | operand plain set later ih =>
    rw [if_neg Bool.false_ne_true, withoutSwitches_plain plain]
    exact congrArg _ (ih unused)
  | dashes later ih => rfl
  | attached option single report set later ih =>
    rw [if_neg Bool.false_ne_true, withoutSwitches_report single report]
    exact congrArg _ (ih unused)
  | separate option single report plain set later ih =>
    rw [if_neg Bool.false_ne_true, withoutSwitches_report single report,
      withoutSwitches_plain plain]
    exact congrArg (fun rest => _ :: _ :: rest) (ih unused)
  | switch turned later ih =>
    have on := later.subset
    rw [Gathered.switches_turnOn turned] at on
    rw [if_neg Bool.false_ne_true, withoutSwitches_name,
      if_neg (unused _ (on List.mem_cons_self))]
    exact congrArg _ (ih unused)

end Without

/-! ### Options -/

def Options.without (o : Options) (drop : Switch → Bool) : Options :=
  { o with
    pretty := o.pretty && !drop .pretty
    compact := o.compact && !drop .compact
    quiet := o.quiet && !drop .quiet
    strict := o.strict && !drop .strict
    listLayers := o.listLayers && !drop .listLayers }

variable {drop : Switch → Bool} {g : Gathered} {o : Options} {args : List String}

theorem gathers_of_request? (accepted : request? args = some (.dissect o)) :
    ∃ verb rest g, args = "pcap" :: verb :: rest ∧ (verb = "dissect" ∨ verb = "decode") ∧
      Gathers {} false rest g ∧ g.options? = some o := by
  unfold request? at accepted
  split at accepted
  · rename_i verb rest
    split at accepted
    · rename_i known
      obtain ⟨options, found, same⟩ := Option.map_eq_some_iff.mp accepted
      obtain rfl : options = o := by simpa using same
      obtain ⟨g, gathered, complete⟩ := Option.bind_eq_some_iff.mp found
      exact ⟨verb, rest, g, rfl, by simpa using known, gathers_of_gather gathered, complete⟩
    · cases accepted
  · split at accepted <;> cases accepted
  · cases accepted

theorem request?_of_gathers {verb : String} {rest : List String}
    (known : verb = "dissect" ∨ verb = "decode") (gathers : Gathers {} false rest g)
    (complete : g.options? = some o) : request? ("pcap" :: verb :: rest) = some (.dissect o) := by
  simp [request?, known, gathers.gather_eq, complete]

theorem options?_without (keeps : drop .stdout = false) (known : g.options? = some o) :
    (g.without drop).options? = some (o.without drop) := by
  have input : (g.without drop).input = g.input := rfl
  have report : (g.without drop).report = g.report := rfl
  unfold Gathered.options? at known ⊢
  simp only [Gathered.has_without, input, report, keeps, Bool.not_false, Bool.and_true]
  split at known
  · cases known
  · split at known
    · cases known
    · rename_i destination
      split at known
      · cases known
      · rename_i layout
        cases known
        have still : ¬ (g.has .pretty && !drop .pretty && (g.has .compact && !drop .compact)) =
            true := by
          intro both
          simp only [Bool.and_eq_true] at both layout
          exact layout ⟨both.1.1, both.2.1⟩
        rw [if_neg destination, if_neg still]
        rfl

theorem request?_without (drop : Switch → Bool) (keeps : drop .stdout = false)
    (accepted : request? args = some (.dissect o)) :
    request? (withoutSwitches drop args) = some (.dissect (o.without drop)) := by
  obtain ⟨verb, rest, g, rfl, known, gathers, complete⟩ := gathers_of_request? accepted
  have stays : withoutSwitches drop ("pcap" :: verb :: rest) =
      "pcap" :: verb :: withoutSwitches drop rest := by
    have plain : looksLikeOption verb = false := by
      rcases known with rfl | rfl <;> decide
    rw [withoutSwitches_plain (by decide), withoutSwitches_plain plain]
  rw [stays]
  exact request?_of_gathers known gathers.without (options?_without keeps complete)

theorem withoutSwitches_args (accepted : request? args = some (.dissect o))
    (unused : ∀ g : Gathered, g.options? = some o → ∀ s ∈ g.switches, ¬ drop s = true) :
    withoutSwitches drop args = args := by
  obtain ⟨verb, rest, g, rfl, known, gathers, complete⟩ := gathers_of_request? accepted
  have plain : looksLikeOption verb = false := by
    rcases known with rfl | rfl <;> decide
  have same := gathers.withoutSwitches_eq (unused g complete)
  rw [if_neg Bool.false_ne_true] at same
  rw [withoutSwitches_plain (by decide), withoutSwitches_plain plain, same]

namespace Switch

/-- The switches for what is said beside the report, and the one for the layout that is taken
anyway. -/
def isIdle : Switch → Bool
  | .compact => true
  | .quiet => true
  | .listLayers => true
  | _ => false

def isStrict (s : Switch) : Bool := decide (s = .strict)

end Switch

theorem has_strict (complete : g.options? = some o) : o.strict = g.has .strict := by
  unfold Gathered.options? at complete
  repeat' split at complete
  all_goals cases complete
  rfl

theorem strict_of_added {o' : Options} {args' : List String}
    (accepted : request? args = some (.dissect o))
    (accepted' : request? args' = some (.dissect o'))
    (added : withoutSwitches Switch.isStrict args' = args) (other : args' ≠ args) :
    o'.strict = true ∧ o = o'.without Switch.isStrict := by
  have off := request?_without Switch.isStrict rfl accepted'
  rw [added, accepted] at off
  refine ⟨?_, by simpa using off⟩
  cases strict : o'.strict with
  | true => rfl
  | false =>
    refine absurd (withoutSwitches_args accepted' fun g complete s member on => ?_).symm
      (added ▸ other)
    obtain rfl : s = .strict := by simpa [Switch.isStrict] using on
    rw [has_strict complete] at strict
    simp [Gathered.has, member] at strict

/-! ### Results -/

/-- Whether a result holds a report: printed, or in the file that it was to go into. -/
def Result.Holds (result : Result) (o : Options) (r : Report) : Prop :=
  match o.report with
  | none => result.stdout = reportText o r
  | some target => result.workspace.read target = .ok (reportText o r).toUTF8.toList

theorem reportText_injective {r r' : Report} (same : reportText o r = reportText o r') :
    r = r' := by
  unfold reportText at same
  split at same
  · have read := Report.parse_pretty r
    rw [same, Report.parse_pretty] at read
    exact (Except.ok.inj read).symm
  · have read := Report.parse_compact r
    rw [same, Report.parse_compact] at read
    exact (Except.ok.inj read).symm

theorem toUTF8_injective {s t : String} (same : s.toUTF8.toList = t.toUTF8.toList) : s = t := by
  simp only [ByteArray.toList, Bytes.toList_loop, List.reverse_nil, List.nil_append,
    List.drop_zero] at same
  rw [String.toUTF8_eq_toByteArray, String.toUTF8_eq_toByteArray] at same
  exact String.toByteArray_inj.mp (ByteArray.ext (Array.toList_inj.mp same))

variable {w : Workspace} {r r' : Report} {o' : Options}

theorem Result.Holds.unique {result : Result} (first : result.Holds o r)
    (second : result.Holds o r') : r = r' := by
  unfold Result.Holds at first second
  cases goes : o.report with
  | none =>
    rw [goes] at first second
    exact reportText_injective (first.symm.trans second)
  | some target =>
    rw [goes] at first second
    exact reportText_injective (toUTF8_injective (Except.ok.inj (first.symm.trans second)))

theorem Delivers.holds (here : w.isDirectory w.here = true) (delivers : Delivers w o r) :
    (dissect w o).Holds o r := by
  obtain ⟨stdout, tree, -⟩ := delivers.result_eq
  unfold Result.Holds
  split
  · rename_i printed
    rw [stdout, if_pos printed]
  · rename_i target goes
    rw [tree, treeAfter, goes]
    exact (read_of_writeReport here (delivers.written target goes)).2

/-- Options that say alike what is dissected and where the report goes in which layout. -/
structure Options.Alike (o o' : Options) : Prop where
  input : o.input = o'.input
  report : o.report = o'.report
  pretty : o.pretty = o'.pretty

theorem Options.Alike.reportText_eq (alike : o.Alike o') (r : Report) :
    reportText o r = reportText o' r := by
  simp only [reportText, alike.pretty]

theorem Options.Alike.reportOf_eq (alike : o.Alike o') (w : Workspace) :
    reportOf w o = reportOf w o' := by
  simp only [reportOf, prepare, alike.input, alike.report]

/-- Runs with such options deliver the same, and say different things about it at most. -/
theorem Options.Alike.result_eq (alike : o.Alike o') (w : Workspace) :
    (dissect w o).stdout = (dissect w o').stdout ∧
      (dissect w o).workspace = (dissect w o').workspace := by
  rw [dissect_eq, dissect_eq, alike.reportOf_eq]
  cases reportOf w o' with
  | error f => exact ⟨rfl, rfl⟩
  | ok r =>
    simp only [deliver, alike.report, alike.reportText_eq]
    cases o'.report with
    | none =>
      obtain ⟨stdout, tree, -⟩ := finish_eq o r w (reportText o' r) ""
      obtain ⟨stdout', tree', -⟩ := finish_eq o' r w (reportText o' r) ""
      exact ⟨stdout.trans stdout'.symm, tree.trans tree'.symm⟩
    | some target =>
      dsimp only
      cases writeReport w target (reportText o' r) with
      | mk after ends =>
        cases ends with
        | error f => exact ⟨rfl, rfl⟩
        | ok _ =>
          obtain ⟨stdout, tree, -⟩ := finish_eq o r after "" (writtenNote o target)
          obtain ⟨stdout', tree', -⟩ := finish_eq o' r after "" (writtenNote o' target)
          exact ⟨stdout.trans stdout'.symm, tree.trans tree'.symm⟩

theorem Options.Alike.delivers (alike : o.Alike o') (delivers : Delivers w o r) :
    Delivers w o' r where
  known := (alike.reportOf_eq w).symm.trans delivers.known
  written target goes := by
    rw [← alike.reportText_eq]
    exact delivers.written target (alike.report.trans goes)

theorem Options.Alike.symm (alike : o.Alike o') : o'.Alike o :=
  ⟨alike.input.symm, alike.report.symm, alike.pretty.symm⟩

theorem Options.Alike.code_eq (alike : o.Alike o') (here : w.isDirectory w.here = true) :
    (∃ r, (dissect w o).Holds o r ∧ (dissect w o).code = codeOf o r ∧
        (dissect w o').code = codeOf o' r) ∨
      (dissect w o).code = 2 ∧ (dissect w o').code = 2 := by
  by_cases some : ∃ r, Delivers w o r
  · obtain ⟨r, delivers⟩ := some
    exact .inl ⟨r, delivers.holds here, delivers.result_eq.2.2,
      (alike.delivers delivers).result_eq.2.2⟩
  · refine .inr ⟨?_, ?_⟩
    · exact (result_of_undelivered here fun r delivers => some ⟨r, delivers⟩).2.1
    · exact (result_of_undelivered here fun r delivers =>
        some ⟨r, alike.symm.delivers delivers⟩).2.1

theorem alike_of_idle (same : o.without Switch.isIdle = o'.without Switch.isIdle) :
    o.Alike o' ∧ o.strict = o'.strict := by
  simp only [Options.without, Switch.isIdle, Options.mk.injEq, Bool.not_false, Bool.and_true]
    at same
  exact ⟨⟨same.1, same.2.1, same.2.2.2.1⟩, same.2.2.2.2.2.2.1⟩

theorem alike_of_strict : (o.without Switch.isStrict).Alike o :=
  ⟨rfl, rfl, by simp [Options.without, Switch.isStrict]⟩

theorem codes_of_strict (here : w.isDirectory w.here = true) (on : o.strict = true) :
    let lenient := dissect w (o.without Switch.isStrict)
    let strict := dissect w o
    (lenient.code ≠ strict.code → lenient.code = 0 ∧ strict.code = 2) ∧
      (lenient.code ≠ strict.code ↔ lenient.code = 0 ∧
        ∃ r, lenient.Holds (o.without Switch.isStrict) r ∧ 0 < r.unsupportedLinkTypes) := by
  intro lenient strict
  have alike : (o.without Switch.isStrict).Alike o := alike_of_strict
  rcases alike.code_eq here with ⟨r, holds, code, code'⟩ | ⟨code, code'⟩
  · have succeeds : lenient.code = 0 := by
      refine code.trans ?_
      simp [codeOf, Options.without, Switch.isStrict]
    have ends : strict.code = if 0 < r.unsupportedLinkTypes then 2 else 0 := by
      refine code'.trans ?_
      simp [codeOf, on]
    rw [succeeds, ends]
    by_cases unsupported : 0 < r.unsupportedLinkTypes
    · rw [if_pos unsupported]
      exact ⟨fun _ => ⟨rfl, rfl⟩, fun _ => ⟨rfl, r, holds, unsupported⟩, fun _ => by decide⟩
    · rw [if_neg unsupported]
      refine ⟨fun changed => absurd rfl changed, fun changed => absurd rfl changed, ?_⟩
      rintro ⟨-, r', holds', unsupported'⟩
      rw [holds.unique holds'] at unsupported
      exact absurd unsupported' unsupported
  · have fails : lenient.code = 2 := code
    have same : lenient.code = strict.code := code.trans code'.symm
    refine ⟨fun changed => absurd same changed, fun changed => absurd same changed, ?_⟩
    rintro ⟨succeeds, -⟩
    rw [fails] at succeeds
    cases succeeds

/-- Arguments that differ in idle switches only have runs that deliver the same and end alike.
Adding strictness to arguments changes the exit code at most: from success to failure, and if the
report that is delivered without it tells of unsupported link types. -/
theorem result_of_switches (here : w.isDirectory w.here = true) {args args' : List String}
    (accepted : request? args = some (.dissect o))
    (accepted' : request? args' = some (.dissect o')) :
    let first := run w (.dissect o)
    let second := run w (.dissect o')
    (withoutSwitches Switch.isIdle args = withoutSwitches Switch.isIdle args' →
      first.stdout = second.stdout ∧ first.workspace = second.workspace ∧
        first.code = second.code) ∧
    (withoutSwitches Switch.isStrict args' = args → args' ≠ args →
      first.stdout = second.stdout ∧ first.workspace = second.workspace ∧
        (first.code ≠ second.code → first.code = 0 ∧ second.code = 2) ∧
        (first.code ≠ second.code ↔
          first.code = 0 ∧ ∃ r, first.Holds o r ∧ 0 < r.unsupportedLinkTypes)) := by
  intro first second
  constructor
  · intro same
    have off := request?_without Switch.isIdle rfl accepted
    have off' := request?_without Switch.isIdle rfl accepted'
    rw [same, off'] at off
    have same : o'.without Switch.isIdle = o.without Switch.isIdle := by simpa using off
    obtain ⟨alike, strict⟩ := alike_of_idle same
    obtain ⟨stdout, tree⟩ := alike.symm.result_eq w
    refine ⟨stdout, tree, ?_⟩
    rcases alike.symm.code_eq here with ⟨r, -, code, code'⟩ | ⟨code, code'⟩
    · have same : codeOf o r = codeOf o' r := by
        simp only [codeOf, strict]
      exact code.trans (same.trans code'.symm)
    · exact code.trans code'.symm
  · intro added other
    obtain ⟨on, rfl⟩ := strict_of_added accepted accepted' added other
    obtain ⟨stdout, tree⟩ := alike_of_strict.result_eq w
    exact ⟨stdout, tree, codes_of_strict here on⟩

def unknownLink : Legacy.HeaderForm := ⟨false, 2, 4, 0, 0, 65535, 147⟩

def unknownEntry : Legacy.Entry := ⟨7, 8, 1, [0], by decide⟩

def unknownCapture : Workspace :=
  ⟨.file "in.pcap" (unknownLink.file .little [unknownEntry]) .empty, []⟩

theorem delivers_unknownCapture :
    ∃ r, Delivers unknownCapture inCapture.printing r ∧ 0 < r.unsupportedLinkTypes := by
  let file := unknownLink.file .little [unknownEntry]
  let packets := [unknownLink.packet unknownEntry]
  obtain ⟨source, opened, readings⟩ := unknownLink.readings_file .little [unknownEntry]
  have yields : Pull.Yields source.drain.1 packets .finished := ⟨[], by
    rw [List.append_nil]
    exact readings.symm⟩
  have prepared : prepare unknownCapture inCapture.printing = .ok "in.pcap" := rfl
  have reads : unknownCapture.read "in.pcap" = .ok file := rfl
  have dissected : (dissectFile "in.pcap" (.ok file)).1 =
      .ok (Dissection.reportOn "in.pcap" file.length packets) := by
    simp only [dissectFile, opened, file]
    exact Dissection.dissectPulls_finished yields "in.pcap" _
  refine ⟨Dissection.reportOn "in.pcap" file.length packets, ⟨?_, fun target goes => ?_⟩, ?_⟩
  · rw [reportOf, prepared]
    dsimp only
    rw [reads, dissected]
  · cases goes
  · have unsupported : (Dissection.addAll {} packets).unsupported = 1 := rfl
    simp [Dissection.reportOn, Dissection.report, unsupported]

def printingArguments : List String := ["pcap", "dissect", "in.pcap", "--stdout"]

theorem result_of_switches_unknownCapture :
    let quiet := ["pcap", "dissect", "--quiet", "in.pcap", "--list-layers", "--stdout"]
    let strict := ["pcap", "dissect", "in.pcap", "--strict", "--stdout"]
    ∃ o o' o'', request? printingArguments = some (.dissect o) ∧
      request? quiet = some (.dissect o') ∧ request? strict = some (.dissect o'') ∧
      (run unknownCapture (.dissect o')).stdout = (run unknownCapture (.dissect o)).stdout ∧
      (run unknownCapture (.dissect o'')).stdout = (run unknownCapture (.dissect o)).stdout ∧
      (run unknownCapture (.dissect o)).code = 0 ∧
      (run unknownCapture (.dissect o'')).code = 2 := by
  intro quiet strict
  have accepted : request? printingArguments = some (.dissect inCapture.printing) := by decide
  obtain ⟨o', quietly⟩ : ∃ o', request? quiet = some (.dissect o') := ⟨_, rfl⟩
  obtain ⟨o'', strictly⟩ : ∃ o'', request? strict = some (.dissect o'') := ⟨_, rfl⟩
  have here : unknownCapture.isDirectory unknownCapture.here = true := by decide
  obtain ⟨idle, -⟩ := result_of_switches here accepted quietly
  obtain ⟨-, added⟩ := result_of_switches here accepted strictly
  obtain ⟨stdout, -, -⟩ := idle (by decide)
  obtain ⟨stdout', -, ends, changes⟩ := added (by decide) (by decide)
  obtain ⟨r, delivers, unsupported⟩ := delivers_unknownCapture
  have lenient : (run unknownCapture (.dissect inCapture.printing)).code = 0 := by
    refine delivers.result_eq.2.2.trans ?_
    simp [codeOf, inCapture, Options.printing]
  obtain ⟨succeeds, fails⟩ :=
    ends (changes.mpr ⟨lenient, r, delivers.holds here, unsupported⟩)
  exact ⟨_, o', o'', accepted, quietly, strictly, stdout.symm, stdout'.symm, succeeds, fails⟩

end PacketLayers.Command
