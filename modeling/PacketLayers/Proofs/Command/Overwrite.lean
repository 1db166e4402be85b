import PacketLayers.Proofs.Capture.Drain
import PacketLayers.Proofs.Command.ReportText
import PacketLayers.Proofs.Files.Writing

/-!
When a report is written over the capture that it is about. The check made before the run compares
the two locations only if the directory of the report can be located at that time. A path through a
missing directory and back out of it leads, once that directory is made, to where its pieces say; a
path through a directory too far from the root leads there at once, and is not located either.
-/
namespace PacketLayers.Command

variable {w after : Workspace} {report text name : String} {above : List String}

/-- The directories of a report can be made, and its last piece can be the name of a file. -/
structure Writable (w : Workspace) (report : String) : Prop where
  named : ∃ above name, Path.Named report above name
  makeable : (w.makeAllDirectories ((Path.parent? report).getD "")).2 = .ok ()

theorem follow_made (here : w.isDirectory w.here = true) (named : Path.Named report above name)
    (makeable : (w.makeAllDirectories ((Path.parent? report).getD "")).2 = .ok ()) :
    let made := (w.makeAllDirectories ((Path.parent? report).getD "")).1
    made.follow (made.start report) above = .ok ((made.start report).walk above) ∧
      made.isDirectory ((made.start report).walk above) = true := by
  obtain ⟨parent, eq, of⟩ := Path.exists_parent named.body named.speaks
  rw [eq, Option.getD_some] at makeable ⊢
  intro made
  have along := Workspace.made_makeAllDirectories here parent
  obtain ⟨found, inside⟩ := along.reached makeable
  have leads : made.place parent = (w.start parent).walk (Path.bodyPieces parent) :=
    along.grown.place parent
  rw [← leads] at found inside
  rw [← along.grown.start parent] at found
  refine ⟨Workspace.follow_above of found inside, ?_⟩
  rw [← Workspace.place_parent of made]
  exact inside

/-- Writing a report fails and leaves all files as they were, or puts its text where its path
leads and nowhere else. -/
theorem writeReport_cases (here : w.isDirectory w.here = true) (report text : String) :
    ((writeReport w report text).2 ≠ .ok () ∧
        ∀ loc, (writeReport w report text).1.content? loc = w.content? loc) ∨
      ((writeReport w report text).2 = .ok () ∧ Writable w report ∧
        ∀ loc, (writeReport w report text).1.content? loc =
          if loc = w.place report then some text.toUTF8.toList else w.content? loc) := by
  have along := Workspace.made_makeAllDirectories here ((Path.parent? report).getD "")
  unfold writeReport
  dsimp only
  cases makes : w.makeAllDirectories ((Path.parent? report).getD "") with
  | mk made result =>
    rw [makes] at along
    cases result with
    | error e => exact .inl ⟨nofun, along.grown.content⟩
    | ok _ =>
      dsimp only
      cases writes : made.write report text.toUTF8.toList with
      | error e => exact .inl ⟨nofun, along.grown.content⟩
      | ok written =>
        obtain ⟨above, name, named, -, inside, free, rfl⟩ := Workspace.write_eq_ok_iff.mp writes
        refine .inr ⟨rfl, ⟨⟨above, name, named⟩, by rw [makes]⟩, fun loc => ?_⟩
        dsimp only
        rw [named.place_eq made] at free ⊢
        rw [Workspace.content?_put_file inside free, along.grown.content, ← named.place_eq made,
          along.grown.place]

theorem writeReport_of_writable (here : w.isDirectory w.here = true) (writable : Writable w report)
    {content : Bytes} (file : w.content? (w.place report) = some content) (text : String) :
    (writeReport w report text).2 = .ok () := by
  obtain ⟨⟨above, name, named⟩, makeable⟩ := writable
  have along := Workspace.made_makeAllDirectories here ((Path.parent? report).getD "")
  obtain ⟨found, inside⟩ := follow_made here named makeable
  unfold writeReport
  dsimp only
  cases makes : w.makeAllDirectories ((Path.parent? report).getD "") with
  | mk made result =>
    rw [makes] at along makeable found inside
    obtain rfl : result = .ok () := makeable
    have same : made.content? (made.place report) = some content := by
      rw [along.grown.content, along.grown.place]
      exact file
    have free := Workspace.not_isDirectory_of_file (Option.isSome_iff_exists.mpr ⟨content, same⟩)
    have writes : made.write report text.toUTF8.toList = .ok _ :=
      Workspace.write_eq_ok_iff.mpr ⟨above, name, named, found, inside, free, rfl⟩
    dsimp only
    rw [writes]

theorem place_reportDirectory (named : Path.Named report above name) (w : Workspace) :
    w.place (reportDirectory report) = (w.start report).walk above := by
  obtain ⟨parent, eq, of⟩ := Path.exists_parent named.body named.speaks
  rw [reportDirectory, eq, ← Workspace.place_parent of]
  dsimp only
  split
  · rename_i empty
    obtain rfl : parent = "" := by simpa using empty
    have stays (path : String) (unrooted : Path.isRooted path = false)
        (silence : ∀ p ∈ Path.bodyPieces path, Path.saysNothing p = true) :
        w.place path = w.here := by
      rw [Workspace.place, Location.walk_silent _ silence, Workspace.start, unrooted]
      rfl
    rw [stays "." (by decide) (by decide), stays "" (by decide) (by decide)]
  · rfl

theorem place_of_locate {path : String} {loc : Location} (found : w.locate path = .ok loc) :
    loc = w.place path :=
  Workspace.walk_of_follow (Workspace.locate_eq_ok_iff.mp found).1.2

/-- A report whose directory is located before the run is not let through onto the input. -/
theorem checkReport_of_located (named : Path.Named report above name) {directory : Location}
    (found : w.locate (reportDirectory report) = .ok directory) :
    checkReport w report (w.place report) ≠ .ok () := by
  have inside : directory = (w.start report).walk above :=
    (place_of_locate found).trans (place_reportDirectory named w)
  have same : directory ++ [name] = w.place report := by
    rw [named.place_eq, inside]
  unfold checkReport
  rw [found, Path.fileName?_eq named.body named.speaks named.forward]
  dsimp only
  rw [if_pos same]
  exact nofun

theorem finish_workspace (o : Options) (r : Report) (w : Workspace) (stdout stderr : String) :
    (finish o r w stdout stderr).workspace = w := by
  unfold finish failed
  dsimp only
  split
  · rfl
  · rfl

/-- A report that leads back to a file of the tree past the check: its directory cannot be located
before the run, where it is missing or has names too far from the root on its way; all of its
directories are there then or can be made, and its path leads to the file. -/
structure LeadsBack (w : Workspace) (report : String) (file : Location) : Prop
    extends Writable w report where
  unlocated : ∃ e, w.locate (reportDirectory report) = .error e
  back : w.place report = file

section Run

variable {o : Options} {path : String} {capture : Location}

theorem prepare_eq_ok_iff (input : inputPath w o.input = .ok path)
    (located : w.locate path = .ok capture) {chosen : String} :
    prepare w o = .ok chosen ↔ checkInput w path = .ok () ∧
      (∀ report, o.report = some report → checkReport w report capture = .ok ()) ∧
      chosen = path := by
  simp only [prepare, input, located, bind, Except.bind]
  cases checkInput w path with
  | error f => simp
  | ok _ =>
    cases o.report with
    | none => simp [eq_comm]
    | some report => cases checked : checkReport w report capture <;> simp [checked, eq_comm]

/-- All that is checked before a capture is dissected. -/
theorem prepare_iff :
    prepare w o = .ok path ↔ inputPath w o.input = .ok path ∧ checkInput w path = .ok () ∧
      ∃ capture, w.locate path = .ok capture ∧
        ∀ report, o.report = some report → checkReport w report capture = .ok () := by
  constructor
  · intro prepared
    cases input : inputPath w o.input with
    | error f => simp [prepare, input, bind, Except.bind] at prepared
    | ok chosen =>
      cases located : w.locate chosen with
      | error e =>
        simp only [prepare, input, located, bind, Except.bind] at prepared
        cases accepted : checkInput w chosen <;> simp [accepted] at prepared
      | ok capture =>
        obtain ⟨accepted, apart, rfl⟩ := (prepare_eq_ok_iff input located).mp prepared
        exact ⟨rfl, accepted, capture, located, apart⟩
  · rintro ⟨input, accepted, capture, located, apart⟩
    exact (prepare_eq_ok_iff input located).mpr ⟨accepted, apart, rfl⟩

theorem dissect_workspace {r : Report} (prepared : prepare w o = .ok path)
    (dissected : (dissectFile path (w.read path)).1 = .ok r) :
    (dissect w o).workspace =
      match o.report with
      | none => w
      | some report => (writeReport w report (reportText o r)).1 := by
  simp only [dissect, prepared, dissected]
  cases o.report with
  | none => exact finish_workspace o r w _ _
  | some report =>
    dsimp only
    cases written : writeReport w report (reportText o r) with
    | mk after result =>
      cases result with
      | error f => rfl
      | ok _ => exact finish_workspace o r after _ _

theorem workspace_of_unlocated {e : FileError} (input : inputPath w o.input = .ok path)
    (fails : w.locate path = .error e) : (run w (.dissect o)).workspace = w := by
  cases prepared : prepare w o with
  | error f => rw [run, dissect, prepared]; rfl
  | ok chosen =>
    obtain ⟨same, -, capture, located, -⟩ := prepare_iff.mp prepared
    obtain rfl := Except.ok.inj (input.symm.trans same)
    cases fails.symm.trans located

theorem leadsBack_of_changed (here : w.isDirectory w.here = true)
    (input : inputPath w o.input = .ok path) (located : w.locate path = .ok capture)
    (changed : (dissect w o).workspace.content? capture ≠ w.content? capture) :
    checkInput w path = .ok () ∧ (∃ r, (dissectFile path (w.read path)).1 = .ok r) ∧
      ∃ report, o.report = some report ∧ LeadsBack w report capture := by
  cases prepared : prepare w o with
  | error f => exact absurd (by rw [dissect, prepared]; rfl) changed
  | ok chosen =>
    obtain ⟨accepted, checked, rfl⟩ := (prepare_eq_ok_iff input located).mp prepared
    cases dissected : (dissectFile chosen (w.read chosen)).1 with
    | error e => exact absurd (by simp only [dissect, prepared, dissected, failed]) changed
    | ok r =>
      rw [dissect_workspace prepared dissected] at changed
      refine ⟨accepted, ⟨r, rfl⟩, ?_⟩
      cases goes : o.report with
      | none => exact absurd (by rw [goes]) changed
      | some report =>
        rw [goes] at changed
        dsimp only at changed
        rcases writeReport_cases here report (reportText o r) with
          ⟨-, same⟩ | ⟨-, writable, content⟩
        · exact absurd (same capture) changed
        · rw [content] at changed
          have back : w.place report = capture := by
            refine Decidable.byContradiction fun apart => changed ?_
            rw [if_neg (Ne.symm apart)]
          obtain ⟨above, name, named⟩ := writable.named
          refine ⟨report, rfl, ⟨writable, ?_, back⟩⟩
          cases found : w.locate (reportDirectory report) with
          | error e => exact ⟨e, rfl⟩
          | ok directory =>
            have through := checked report goes
            rw [← back] at through
            exact absurd through (checkReport_of_located named found)

theorem read_of_dissected {r : Report} (dissected : (dissectFile path (w.read path)).1 = .ok r) :
    ∃ file source, w.read path = .ok file ∧ Source.open? file = .ok source := by
  cases reads : w.read path with
  | error e => simp [reads, dissectFile] at dissected
  | ok file =>
    cases opens : Source.open? file with
    | error e => simp [reads, dissectFile, opens] at dissected
    | ok source => exact ⟨file, source, rfl, opens⟩

theorem content?_of_read {file : Bytes} (reads : w.read path = .ok file)
    (located : w.locate path = .ok capture) : w.content? capture = some file := by
  obtain ⟨⟨clean, follows⟩, -⟩ := Workspace.locate_eq_ok_iff.mp located
  have resolved : w.resolve path = .ok capture ∨ ∃ e, w.resolve path = .error e := by
    unfold Workspace.resolve
    split
    · exact .inr ⟨_, rfl⟩
    · exact .inl follows
  rcases resolved with found | ⟨e, failed⟩
  · unfold Workspace.content?
    cases entry : w.entry? capture with
    | none => simp [Workspace.read, Workspace.stat, found, entry, bind, Except.bind] at reads
    | some shown =>
      cases shown with
      | directory d =>
        simp [Workspace.read, Workspace.stat, found, entry, bind, Except.bind] at reads
      | file content =>
        simp only [Workspace.read, Workspace.stat, found, entry, bind, Except.bind] at reads
        rw [Except.ok.inj reads]
  · simp [Workspace.read, Workspace.stat, failed, bind, Except.bind] at reads

theorem changed_of_leadsBack (here : w.isDirectory w.here = true)
    (input : inputPath w o.input = .ok path) (located : w.locate path = .ok capture)
    (accepted : checkInput w path = .ok ()) {r : Report}
    (dissected : (dissectFile path (w.read path)).1 = .ok r)
    (goes : o.report = some report) (leads : LeadsBack w report capture) :
    (dissect w o).workspace.content? capture = some (reportText o r).toUTF8.toList ∧
      w.content? capture ≠ some (reportText o r).toUTF8.toList := by
  obtain ⟨file, source, reads, opens⟩ := read_of_dissected dissected
  have content := content?_of_read reads located
  obtain ⟨e, unlocated⟩ := leads.unlocated
  have prepared : prepare w o = .ok path := by
    refine (prepare_eq_ok_iff input located).mpr ⟨accepted, fun other same => ?_, rfl⟩
    obtain rfl : report = other := Option.some.inj (goes.symm.trans same)
    unfold checkReport
    rw [unlocated]
  constructor
  · rw [dissect_workspace prepared dissected, goes]
    rcases writeReport_cases here report (reportText o r) with ⟨fails, -⟩ | ⟨-, -, written⟩
    · rw [← leads.back] at content
      exact absurd (writeReport_of_writable here leads.toWritable content _) fails
    · dsimp only
      rw [written, if_pos leads.back.symm]
  · rw [content]
    intro same
    rw [Option.some.inj same] at opens
    exact open?_reportText o r source opens

/-- A run leaves the capture that its input leads to as it was, unless the report leads back to it:
that is the one way past the check, and it is open whenever the capture can be dissected. -/
theorem overwrites_capture_iff (here : w.isDirectory w.here = true)
    (input : inputPath w o.input = .ok path) (leads : w.Leads path capture) :
    (run w (.dissect o)).workspace.content? capture ≠ w.content? capture ↔
      w.locate path = .ok capture ∧ checkInput w path = .ok () ∧
        (∃ r, (dissectFile path (w.read path)).1 = .ok r) ∧
        ∃ report, o.report = some report ∧ LeadsBack w report capture := by
  constructor
  · intro changed
    have located : w.locate path = .ok capture := by
      refine (Workspace.locate_of_leads leads).resolve_right fun fails => ?_
      exact changed (congrArg (Workspace.content? · capture) (workspace_of_unlocated input fails))
    exact ⟨located, leadsBack_of_changed here input located changed⟩
  · rintro ⟨located, accepted, ⟨r, dissected⟩, report, goes, leadsBack⟩
    obtain ⟨written, apart⟩ :=
      changed_of_leadsBack here input located accepted dissected goes leadsBack
    intro same
    exact apart (same.symm.trans written)

end Run

def emptyCapture : Bytes :=
  [0xD4, 0xC3, 0xB2, 0xA1, 2, 0, 4, 0, 0, 0, 0, 0, 0, 0, 0, 0, 0xFF, 0xFF, 0, 0, 1, 0, 0, 0]

def onlyCapture : Workspace := ⟨.file "in.pcap" emptyCapture .empty, []⟩

def backToCapture : Options := { input := "in.pcap", report := some "missing/../in.pcap" }

theorem dissectFile_emptyCapture (path : String) :
    ∃ r, (dissectFile path (.ok emptyCapture)).1 = .ok r := by
  have opens : ∃ source, Source.open? emptyCapture = .ok source ∧ source.ahead = [] :=
    ⟨_, rfl, rfl⟩
  obtain ⟨source, opens, ahead⟩ := opens
  have ends := (Source.next_of_nil ahead).1
  have drained := source.drain_of_end (by simp [ends])
  simp only [dissectFile, opens, drained, dissectPulls, Dissection.run, ends]
  exact ⟨_, rfl⟩

theorem leadsBack_onlyCapture : LeadsBack onlyCapture "missing/../in.pcap" ["in.pcap"] where
  named := ⟨["missing", ".."], "in.pcap", by decide, by decide, by decide, by decide, by decide⟩
  makeable := rfl
  unlocated := ⟨_, rfl⟩
  back := by decide

theorem overwrites_capture_iff_onlyCapture :
    (run onlyCapture (.dissect backToCapture)).workspace.content? ["in.pcap"] ≠
      onlyCapture.content? ["in.pcap"] :=
  (overwrites_capture_iff (by decide) rfl ⟨rfl, rfl⟩).mpr
    ⟨rfl, rfl, dissectFile_emptyCapture "in.pcap", _, rfl, leadsBack_onlyCapture⟩

/-- Arguments that are accepted, and a run that puts the report over the capture. -/
theorem exists_overwritten_capture :
    ∃ o, request? ["pcap", "dissect", "in.pcap", "-o", "missing/../in.pcap"] = some (.dissect o) ∧
      inputPath onlyCapture o.input = .ok "in.pcap" ∧
      onlyCapture.locate "in.pcap" = .ok ["in.pcap"] ∧
      (run onlyCapture (.dissect o)).workspace.content? ["in.pcap"] ≠
        onlyCapture.content? ["in.pcap"] := by
  obtain ⟨r, dissected⟩ := dissectFile_emptyCapture "in.pcap"
  obtain ⟨written, apart⟩ := changed_of_leadsBack (w := onlyCapture) (o := backToCapture)
    (by decide) rfl rfl rfl dissected rfl leadsBack_onlyCapture
  refine ⟨backToCapture, by decide, rfl, rfl, ?_⟩
  intro same
  exact apart (same.symm.trans written)

end PacketLayers.Command
