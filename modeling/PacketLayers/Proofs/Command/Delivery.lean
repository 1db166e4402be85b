import PacketLayers.Proofs.Command.Overwrite

/-!
What a run makes of its report. A run first comes to a report or to a failure, and only then
delivers: it prints the report, or writes it into a file. Main statement: both ways deliver the same
octets and end alike, a run that prints touches no file, and one that writes touches no file but
the one that its path names, and none at all unless there is a report.
-/
namespace PacketLayers.Command

/-- What a run comes to deliver, or why there is nothing to deliver. -/
def reportOf (w : Workspace) (o : Options) : Except Failure Report :=
  match prepare w o with
  | .error f => .error f
  | .ok path =>
    match (dissectFile path (w.read path)).1 with
    | .error e =>
      .error { message := ": ".intercalate ("PCAP/PCAPNG dissection failed" :: e.chain) }
    | .ok r => .ok r

def writtenNote (o : Options) (target : String) : String :=
  if o.quiet then "" else "OK: report written -> " ++ target ++ "\n"

def deliver (w : Workspace) (o : Options) (r : Report) : Result :=
  match o.report with
  | none => finish o r w (reportText o r) ""
  | some target =>
    match writeReport w target (reportText o r) with
    | (after, .error f) => failed after "" "" f
    | (after, .ok ()) => finish o r after "" (writtenNote o target)

theorem dissect_eq (w : Workspace) (o : Options) :
    dissect w o =
      match reportOf w o with
      | .error f => failed w "" "" f
      | .ok r => deliver w o r := by
  unfold dissect reportOf
  cases prepare w o with
  | error f => rfl
  | ok path =>
    dsimp only
    cases (dissectFile path (w.read path)).1 with
    | error e => rfl
    | ok r => rfl

def codeOf (o : Options) (r : Report) : Nat :=
  if o.strict && decide (0 < r.unsupportedLinkTypes) then 2 else 0

theorem finish_eq (o : Options) (r : Report) (w : Workspace) (stdout stderr : String) :
    (finish o r w stdout stderr).stdout = stdout ∧
      (finish o r w stdout stderr).workspace = w ∧
      (finish o r w stdout stderr).code = codeOf o r := by
  unfold finish failed codeOf
  dsimp only
  split <;> exact ⟨rfl, rfl, rfl⟩

variable {w : Workspace} {o : Options} {r : Report} {report text : String}

/-- Whether a run delivers a report: it comes to it, and prints it or gets it written. -/
structure Delivers (w : Workspace) (o : Options) (r : Report) : Prop where
  known : reportOf w o = .ok r
  written : ∀ target, o.report = some target → (writeReport w target (reportText o r)).2 = .ok ()

def treeAfter (w : Workspace) (o : Options) (r : Report) : Workspace :=
  match o.report with
  | none => w
  | some target => (writeReport w target (reportText o r)).1

theorem Delivers.result_eq (delivers : Delivers w o r) :
    (dissect w o).stdout = (if o.report = none then reportText o r else "") ∧
      (dissect w o).workspace = treeAfter w o r ∧ (dissect w o).code = codeOf o r := by
  obtain ⟨known, written⟩ := delivers
  simp only [dissect_eq, known, deliver, treeAfter]
  cases goes : o.report with
  | none => exact finish_eq o r w (reportText o r) ""
  | some target =>
    have done := written target goes
    dsimp only
    cases result : writeReport w target (reportText o r) with
    | mk after ends =>
      rw [result] at done
      obtain rfl : ends = .ok () := done
      exact finish_eq o r after "" (writtenNote o target)

theorem result_of_undelivered (here : w.isDirectory w.here = true)
    (nothing : ∀ r, ¬ Delivers w o r) :
    (dissect w o).stdout = "" ∧ (dissect w o).code = 2 ∧
      ∀ loc, (dissect w o).workspace.content? loc = w.content? loc := by
  rw [dissect_eq]
  cases known : reportOf w o with
  | error f => exact ⟨rfl, rfl, fun _ => rfl⟩
  | ok r =>
    dsimp only
    cases goes : o.report with
    | none => exact absurd ⟨known, fun _ some => by rw [goes] at some; cases some⟩ (nothing r)
    | some target =>
      have tries : deliver w o r =
          match writeReport w target (reportText o r) with
          | (after, .error f) => failed after "" "" f
          | (after, .ok ()) => finish o r after "" (writtenNote o target) := by
        simp only [deliver, goes]
      rcases writeReport_cases here target (reportText o r) with ⟨fails, same⟩ | ⟨writes, -, -⟩
      · rw [tries]
        cases result : writeReport w target (reportText o r) with
        | mk after ends =>
          rw [result] at fails same
          cases ends with
          | error f => exact ⟨rfl, rfl, same⟩
          | ok _ => exact absurd rfl fails
      · refine absurd ⟨known, fun other same => ?_⟩ (nothing r)
        cases goes.symm.trans same
        exact writes

/-! ### Reports in texts and files -/

theorem reportText_ne_empty (o : Options) (r : Report) : reportText o r ≠ "" := by
  obtain ⟨chars, eq⟩ := exists_reportText o r
  rw [eq]
  intro none
  have texts := congrArg String.toList none
  simp at texts

theorem read_of_writeReport (here : w.isDirectory w.here = true)
    (ok : (writeReport w report text).2 = .ok ()) :
    (writeReport w report text).1.resolve report = .ok (w.place report) ∧
      (writeReport w report text).1.read report = .ok text.toUTF8.toList := by
  have along := Workspace.made_makeAllDirectories here ((Path.parent? report).getD "")
  unfold writeReport at ok ⊢
  dsimp only at ok ⊢
  cases makes : w.makeAllDirectories ((Path.parent? report).getD "") with
  | mk made result =>
    rw [makes] at along ok
    cases result with
    | error e => cases ok
    | ok _ =>
      dsimp only at ok ⊢
      cases writes : made.write report text.toUTF8.toList with
      | error e =>
        rw [writes] at ok
        cases ok
      | ok written =>
        rw [← along.grown.place report]
        exact Workspace.read_of_write writes

/-! ### Printing and writing -/

def Options.printing (o : Options) : Options := { o with report := none, stdout := true }

def Options.writing (o : Options) (report : String) : Options :=
  { o with report := some report, stdout := false }

theorem prepare_of_writing {path : String} (ok : prepare w (o.writing report) = .ok path) :
    prepare w o.printing = .ok path := by
  obtain ⟨input, accepted, capture, located, -⟩ := prepare_iff.mp ok
  exact prepare_iff.mpr ⟨input, accepted, capture, located, nofun⟩

theorem Delivers.printed (delivers : Delivers w (o.writing report) r) :
    Delivers w o.printing r where
  known := by
    have known := delivers.known
    unfold reportOf at known ⊢
    cases prepared : prepare w (o.writing report) with
    | error f =>
      rw [prepared] at known
      cases known
    | ok path =>
      rw [prepared] at known
      rw [prepare_of_writing prepared]
      exact known
  written := nofun

theorem workspace_printing (w : Workspace) (o : Options) :
    (dissect w o.printing).workspace = w := by
  rw [dissect_eq]
  cases reportOf w o.printing with
  | error f => rfl
  | ok r => exact (finish_eq o.printing r w _ _).2.1

/-- A run that prints its report touches no file, and one that writes it none but the one that the
report's path names then. Unless there is a report to print, there is none to write. Where one is
written, the file has the octets that are printed, and both runs end with one exit code; otherwise
the run that was to write it fails. -/
theorem written_of_printed (here : w.isDirectory w.here = true) (o : Options) (report : String) :
    let printed := run w (.dissect o.printing)
    let written := run w (.dissect (o.writing report))
    printed.workspace = w ∧
    (∀ loc, written.workspace.content? loc ≠ w.content? loc →
      written.workspace.resolve report = .ok loc) ∧
    (printed.stdout = "" → written.code = printed.code ∧
      ∀ loc, written.workspace.content? loc = w.content? loc) ∧
    ((∃ r, Delivers w (o.writing report) r) → printed.stdout ≠ "" ∧ written.stdout = "" ∧
      written.workspace.read report = .ok printed.stdout.toUTF8.toList ∧
      written.code = printed.code) ∧
    ((¬ ∃ r, Delivers w (o.writing report) r) → written.code = 2 ∧
      ∀ loc, written.workspace.content? loc = w.content? loc) := by
  intro printed written
  refine ⟨workspace_printing w o, ?_⟩
  by_cases some : ∃ r, Delivers w (o.writing report) r
  · obtain ⟨r, delivers⟩ := some
    obtain ⟨stdout, tree, code⟩ := delivers.result_eq
    obtain ⟨text, -, codePrinted⟩ := delivers.printed.result_eq
    have writes := delivers.written report rfl
    obtain ⟨found, read⟩ := read_of_writeReport here writes
    have speaks : printed.stdout ≠ "" := by
      rw [show printed.stdout = reportText o r from text]
      exact reportText_ne_empty o r
    refine ⟨fun loc changed => ?_, fun none => absurd none speaks,
      fun _ => ⟨speaks, stdout, ?_, ?_⟩, fun none => absurd ⟨r, delivers⟩ none⟩
    · have leads : loc = w.place report := by
        rcases writeReport_cases here report (reportText o r) with ⟨fails, -⟩ | ⟨-, -, content⟩
        · exact absurd writes fails
        · refine Decidable.byContradiction fun apart => changed ?_
          exact (congrArg (·.content? loc) tree).trans ((content loc).trans (if_neg apart))
      rw [leads]
      exact (congrArg (·.resolve report) tree).trans found
    · rw [show printed.stdout = reportText o r from text]
      exact (congrArg (·.read report) tree).trans read
    · exact code.trans codePrinted.symm
  · obtain ⟨-, code, same⟩ := result_of_undelivered here fun r delivers => some ⟨r, delivers⟩
    refine ⟨fun loc changed => absurd (same loc) changed, fun none => ⟨?_, same⟩,
      fun delivered => absurd delivered some, fun _ => ⟨code, same⟩⟩
    have nothing (r : Report) (delivers : Delivers w o.printing r) : False := by
      obtain ⟨text, -, -⟩ := delivers.result_eq
      exact reportText_ne_empty o r (text.symm.trans none)
    exact code.trans (result_of_undelivered here nothing).2.1.symm

def inCapture : Options := { input := "in.pcap" }

def goneCapture : Options := { input := "gone.pcap" }

theorem delivers_onlyCapture :
    ∃ r, Delivers onlyCapture (inCapture.writing "out/report.json") r := by
  obtain ⟨r, dissected⟩ := dissectFile_emptyCapture "in.pcap"
  have prepared : prepare onlyCapture (inCapture.writing "out/report.json") = .ok "in.pcap" := rfl
  have reads : onlyCapture.read "in.pcap" = .ok emptyCapture := rfl
  refine ⟨r, ?_, fun target same => ?_⟩
  · rw [reportOf, prepared]
    dsimp only
    rw [reads, dissected]
  · cases same
    rfl

theorem written_of_printed_onlyCapture :
    (run onlyCapture (.dissect inCapture.printing)).stdout ≠ "" ∧
      (run onlyCapture (.dissect (inCapture.writing "out/report.json"))).workspace.read
          "out/report.json" =
        .ok (run onlyCapture (.dissect inCapture.printing)).stdout.toUTF8.toList ∧
      ∀ loc, (run onlyCapture (.dissect (goneCapture.writing "out/report.json"))).workspace.content?
        loc = onlyCapture.content? loc := by
  have here : onlyCapture.isDirectory onlyCapture.here = true := by decide
  obtain ⟨-, -, -, delivers, -⟩ := written_of_printed here inCapture "out/report.json"
  obtain ⟨printed, -, read, -⟩ := delivers delivers_onlyCapture
  obtain ⟨-, -, refuses, -⟩ := written_of_printed here goneCapture "out/report.json"
  exact ⟨printed, read, (refuses rfl).2⟩

end PacketLayers.Command
