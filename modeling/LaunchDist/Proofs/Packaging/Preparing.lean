import LaunchDist.Proofs.Distribution.Edits
import LaunchDist.Proofs.Packaging
/-!
# Preparing a build as edits

Where no link stands, the manifest and the staged launcher of a build are put in their places by a list
of edits below the root of its outputs. They succeed if there is room for these edits and a launcher is
found.
-/
namespace LaunchDist

open FileSystem
open LaunchDist.Path (Step IsEntryName)

namespace BuildLayout

section Down

variable (layout : BuildLayout) (fs : FileSystem)

theorem down_root : fs.down layout.root = fs.down layout.buildDir ++ [Utf8.encode launcherName] :=
  down_entry isEntryName_launcherName

theorem down_manifestDir :
    fs.down layout.manifestDir = fs.down layout.root ++ [Utf8.encode "manifest"] :=
  down_entry isEntryName_manifestDir

theorem down_manifestPath :
    fs.down layout.manifestPath =
      fs.down layout.root ++ [Utf8.encode "manifest", Utf8.encode Manifest.fileName] := by
  have h : fs.down layout.manifestPath = fs.down layout.manifestDir ++ [Utf8.encode Manifest.fileName] :=
    down_entry Distribution.isEntryName_manifest
  rw [h, down_manifestDir, List.append_assoc]
  rfl

theorem down_stagingDir :
    fs.down layout.stagingDir = fs.down layout.root ++ [Utf8.encode "launcher"] :=
  down_entry isEntryName_stagingDir

theorem down_stagedLauncher :
    fs.down layout.stagedLauncher =
      fs.down layout.root ++ [Utf8.encode "launcher", Utf8.encode launcherName] := by
  have h : fs.down layout.stagedLauncher = fs.down layout.stagingDir ++ [Utf8.encode launcherName] :=
    down_entry isEntryName_launcherName
  rw [h, down_stagingDir, List.append_assoc]
  rfl

theorem isAbsolute_root : layout.root.isAbsolute = layout.buildDir.isAbsolute :=
  Path.isAbsolute_entry _ _ isEntryName_launcherName

theorem isAbsolute_manifestDir : layout.manifestDir.isAbsolute = layout.buildDir.isAbsolute :=
  (Path.isAbsolute_entry _ _ isEntryName_manifestDir).trans layout.isAbsolute_root

theorem isAbsolute_manifestPath : layout.manifestPath.isAbsolute = layout.buildDir.isAbsolute :=
  (Path.isAbsolute_entry _ _ Distribution.isEntryName_manifest).trans layout.isAbsolute_manifestDir

theorem isAbsolute_stagingDir : layout.stagingDir.isAbsolute = layout.buildDir.isAbsolute :=
  (Path.isAbsolute_entry _ _ isEntryName_stagingDir).trans layout.isAbsolute_root

theorem isAbsolute_stagedLauncher : layout.stagedLauncher.isAbsolute = layout.buildDir.isAbsolute :=
  (Path.isAbsolute_entry _ _ isEntryName_launcherName).trans layout.isAbsolute_stagingDir

end Down

section Start

variable {layout : BuildLayout} {fs fs' : FileSystem}
  (hstart : layout.buildDir.isAbsolute = true ∨ SameStart fs fs')

include hstart

theorem down_manifestDir_congr : fs'.down layout.manifestDir = fs.down layout.manifestDir :=
  down_congr (hstart.imp_left layout.isAbsolute_manifestDir.trans)

theorem down_manifestPath_congr : fs'.down layout.manifestPath = fs.down layout.manifestPath :=
  down_congr (hstart.imp_left layout.isAbsolute_manifestPath.trans)

theorem down_stagingDir_congr : fs'.down layout.stagingDir = fs.down layout.stagingDir :=
  down_congr (hstart.imp_left layout.isAbsolute_stagingDir.trans)

theorem down_stagedLauncher_congr :
    fs'.down layout.stagedLauncher = fs.down layout.stagedLauncher :=
  down_congr (hstart.imp_left layout.isAbsolute_stagedLauncher.trans)

end Start

theorem up_notMem_buildDir {layout : BuildLayout} (h : Step.up ∉ layout.manifestPath.moves) :
    Step.up ∉ layout.buildDir.moves := by
  change Step.up ∉ (layout.buildDir / launcherName / "manifest" / Manifest.fileName).moves at h
  rwa [Path.up_notMem_moves_entry _ _ Distribution.isEntryName_manifest,
    Path.up_notMem_moves_entry _ _ isEntryName_manifestDir,
    Path.up_notMem_moves_entry _ _ isEntryName_launcherName] at h

end BuildLayout

namespace Manifest

/-- The file as which a manifest is written to its place. -/
def storedEntry (m : Manifest) (layout : BuildLayout) (fs : FileSystem) : DirEntry :=
  .file (modeAt fs.entry? (fs.down layout.manifestPath)) (Utf8.encode m.render)

/-- The edits by which a manifest is written to its place. -/
def storeEdits (m : Manifest) (layout : BuildLayout) (fs : FileSystem) : List Edit :=
  [.dirs (fs.down layout.manifestDir),
    .put (fs.down layout.manifestPath) (some (m.storedEntry layout fs))]

section Store

variable {m : Manifest} {layout : BuildLayout} {fs made : FileSystem} {w w' : Workspace} {p : Path}

theorem entry?_made (hmade : EditedBy [.dirs (fs.down layout.manifestDir)] fs made) :
    made.entry? (fs.down layout.manifestPath) = fs.entry? (fs.down layout.manifestPath) := by
  rw [hmade.entry?]
  change (Edit.dirs _).apply fs.entry? _ = _
  rw [Edit.apply_dirs, if_neg]
  rw [layout.down_manifestDir, layout.down_manifestPath, List.prefix_append_right_inj]
  decide

private theorem editedBy_write (hmade : EditedBy [.dirs (fs.down layout.manifestDir)] fs made)
    {fs' : FileSystem} (hwrite : EditedBy [.put (made.down layout.manifestPath) (some (.file
      (modeAt made.entry? (made.down layout.manifestPath)) (Utf8.encode m.render)))] made fs') :
    EditedBy (m.storeEdits layout fs) fs fs' := by
  have hdown : made.down layout.manifestPath = fs.down layout.manifestPath :=
    down_congr (.inr (hmade.sameStart (by simp [Edit.Removes])))
  have hmode : modeAt made.entry? (fs.down layout.manifestPath) =
      modeAt fs.entry? (fs.down layout.manifestPath) := by
    rw [modeAt, modeAt, entry?_made hmade]
  rw [hdown, hmode] at hwrite
  exact hmade.append hwrite

theorem store_edited (hlinks : Linkless w.files) (hup : Step.up ∉ layout.buildDir.moves)
    (h : m.store layout w = .ok p w') :
    p = layout.manifestPath ∧ Straight w.files layout.manifestPath ∧
      EditedBy (m.storeEdits layout w.files) w.files w'.files := by
  obtain ⟨rfl, made, l, mode, hmake, htarget, hfiles⟩ := store_ok h
  have huproot : Step.up ∉ layout.root.moves :=
    BuildLayout.up_notMem_root ((Path.up_notMem_steps_iff _).mpr hup)
  have hupdir : Step.up ∉ layout.manifestDir.moves :=
    (Path.up_notMem_moves_entry layout.root _ isEntryName_manifestDir).mpr huproot
  obtain ⟨hpdir, hmade⟩ := hlinks.makeDirs_ok isEntryName_manifestDir huproot hmake
  obtain ⟨hp, hw, heq⟩ := ((hmade.linkless hlinks).target_entry_iff Distribution.isEntryName_manifest
    hupdir).mp htarget
  cases heq
  have hsame : SameStart w.files made := hmade.sameStart (by simp [Edit.Removes])
  have habs : layout.manifestDir.isAbsolute = layout.manifestPath.isAbsolute :=
    layout.isAbsolute_manifestDir.trans layout.isAbsolute_manifestPath.symm
  refine ⟨rfl, hp.before hpdir habs (.inr hsame), ?_⟩
  rw [hfiles]
  exact editedBy_write hmade (editedBy_put hw _ _)

theorem store_succeeds (hlinks : Linkless w.files) (hp : Straight w.files layout.manifestPath)
    (hfits : (Edit.dirs (w.files.down layout.manifestDir)).Fits w.files.entry?)
    (hfile : w.files.entry? (w.files.down layout.manifestPath) = none ∨
      IsFile (w.files.entry? (w.files.down layout.manifestPath))) :
    ∃ w', m.store layout w = .ok layout.manifestPath w' := by
  have hpdir : Straight w.files layout.manifestDir :=
    hp.parent Distribution.isEntryName_manifest
      (Path.bytes_ne_nil_of_steps (Path.steps_entry layout.root _ isEntryName_manifestDir))
  have hup : Step.up ∉ layout.manifestDir.moves := hpdir.up_notMem
  obtain ⟨made, hmake, hmade⟩ := hlinks.makeDirs_succeeds isEntryName_manifestDir hpdir hfits
  have hsame : SameStart w.files made := hmade.sameStart (by simp [Edit.Removes])
  have hdown : made.down layout.manifestPath = w.files.down layout.manifestPath :=
    down_congr (.inr hsame)
  have hw : Writable made (made.down layout.manifestPath) := by
    rw [hdown]
    refine ⟨by simp [layout.down_manifestPath], ?_, by rw [entry?_made hmade]; exact hfile⟩
    have hparent : (w.files.down layout.manifestPath).dropLast = w.files.down layout.manifestDir := by
      rw [layout.down_manifestPath, layout.down_manifestDir, List.dropLast_append_of_ne_nil (by simp)]
      rfl
    rw [hparent, isDirAt_iff, hmade.entry?]
    change (Edit.dirs _).apply w.files.entry? _ = _
    rw [Edit.apply_dirs]
    exact if_pos (List.prefix_refl _)
  obtain ⟨files, hwrite, _⟩ := (hmade.linkless hlinks).write_succeeds Distribution.isEntryName_manifest
    hup (hmade.straight hp (.inr hsame)) hw (Utf8.encode m.render)
  have hdirs : Action.changeAt layout.manifestDir (makeDirs layout.manifestDir) w =
      .ok () { w with files := made } := Action.changeAt_ok_iff.mpr ⟨made, hmake, rfl⟩
  have hput : Action.changeAt layout.manifestPath (FileSystem.Change.atomic
      (·.write layout.manifestPath (Utf8.encode m.render))) { w with files := made } =
      .ok () { w with files := files } :=
    Action.changeAt_ok_iff.mpr ⟨files, Action.atomic_ok_iff.mpr hwrite, rfl⟩
  rw [store, Action.bind_of_ok hdirs, Action.bind_of_ok hput]
  exact ⟨_, rfl⟩

end Store

end Manifest

namespace LauncherSearch

section Stage

variable {search : LauncherSearch} {layout : BuildLayout} {w w' : Workspace} {p : Path}

theorem resetDir_of_ok {cleared : FileSystem}
    (h : FileSystem.resetDir layout.stagingDir w.files = .ok () cleared) :
    Action.resetDir layout.stagingDir w = .ok () { w with files := cleared } :=
  Action.changeAt_ok_iff.mpr ⟨cleared, h, rfl⟩

theorem find_of_found {source : Path} (h : search.candidates.find? w.files.isFile = some source) :
    search.find w = .ok source { w with log := w.log ++ [.foundLauncher source] } := by
  have hquery : Action.query search.findIn w = .ok source w :=
    Action.query_ok_iff.mpr ⟨by rw [findIn, h], rfl⟩
  rw [find, Action.bind_of_ok hquery]
  rfl

theorem find_of_missing (h : search.candidates.find? w.files.isFile = none) :
    search.find w = .error (.launcherNotFound search.name search.dirs) w := by
  refine Action.bind_error_iff.mpr (.inl (Action.query_error_iff.mpr ⟨?_, rfl⟩))
  rw [findIn, h]

theorem stage_of_found {source : Path} {cleared : FileSystem}
    (hreset : FileSystem.resetDir layout.stagingDir w.files = .ok () cleared)
    (hsource : search.candidates.find? cleared.isFile = some source) :
    search.stage layout w =
      (do
        Action.copyFile source (layout.stagingDir / search.name)
        Action.report (.stagedLauncher source (layout.stagingDir / search.name))
        return layout.stagingDir / search.name : Action Path)
      { files := cleared, log := w.log ++ [.foundLauncher source] } := by
  have hfind := find_of_found (w := { w with files := cleared }) hsource
  rw [stage, Action.bind_of_ok (resetDir_of_ok hreset), Action.bind_of_ok hfind]

theorem stage_of_ok {source : Path} {cleared files : FileSystem}
    (hreset : FileSystem.resetDir layout.stagingDir w.files = .ok () cleared)
    (hsource : search.candidates.find? cleared.isFile = some source)
    (hcopy : cleared.copyFile source (layout.stagingDir / search.name) = .ok files) :
    ∃ w', search.stage layout w = .ok (layout.stagingDir / search.name) w' ∧ w'.files = files := by
  have hcopied := Action.copyFile_of_ok
    (w := { files := cleared, log := w.log ++ [.foundLauncher source] }) hcopy
  rw [stage_of_found hreset hsource, Action.bind_of_ok hcopied]
  exact ⟨_, rfl, rfl⟩

theorem stage_edited (hlinks : Linkless w.files) (hname : search.name = launcherName)
    (hup : Step.up ∉ layout.root.moves) (h : search.stage layout w = .ok p w') :
    p = layout.stagedLauncher ∧ ∃ cleared source mode content,
      EditedBy [.renew (w.files.down layout.stagingDir)] w.files cleared ∧
      search.candidates.find? cleared.isFile = some source ∧
      cleared.entry? (cleared.destination source) = some (.file mode content) ∧
      Straight cleared layout.stagedLauncher ∧
      EditedBy [.put (cleared.down layout.stagedLauncher) (some (.file mode content))]
        cleared w'.files := by
  obtain ⟨rfl, cleared, source, hreset, hsource, hcopy⟩ := stage_ok h
  rw [hname] at hcopy ⊢
  have hrenewed : EditedBy [.renew (w.files.down layout.stagingDir)] w.files cleared.files :=
    (hlinks.resetDir_ok isEntryName_stagingDir hup (Distribution.changeAt_resetDir_ok hreset)).2
  have hupdir : Step.up ∉ layout.stagingDir.moves :=
    (Path.up_notMem_moves_entry layout.root _ isEntryName_stagingDir).mpr hup
  obtain ⟨hp, _, l, mode, content, hf, hput⟩ :=
    (hrenewed.linkless hlinks).copyFile_ok isEntryName_launcherName hupdir hcopy
  obtain ⟨_, ⟨k, hr⟩, he⟩ := find_follow_iff.mp hf
  refine ⟨rfl, cleared.files, source, mode, content, hrenewed, hsource, ?_, hp, hput ?_⟩
  · rw [hr.destination_eq, he]
  · -- Nothing is in the directory that the launcher is copied to.
    rintro rfl
    have hstart : layout.stagingDir.isAbsolute = true ∨ SameStart w.files cleared.files :=
      hrenewed.start_of_renew isEntryName_stagingDir
    rw [(hrenewed.vacant_of_renew isEntryName_launcherName hstart).1] at he
    cases he

theorem stage_succeeds (hlinks : Linkless w.files) (hname : search.name = launcherName)
    (hp : Straight w.files layout.stagedLauncher)
    (hfits : (Edit.renew (w.files.down layout.stagingDir)).Fits w.files.entry?)
    (hfound : ∀ cleared, EditedBy [.renew (w.files.down layout.stagingDir)] w.files cleared →
      ∃ candidate ∈ search.candidates, cleared.isFile candidate = true) :
    ∃ w', search.stage layout w = .ok layout.stagedLauncher w' := by
  have hpdir : Straight w.files layout.stagingDir :=
    hp.parent isEntryName_launcherName
      (Path.bytes_ne_nil_of_steps (Path.steps_entry layout.root _ isEntryName_stagingDir))
  obtain ⟨cleared, hreset, hrenewed⟩ : ∃ cleared,
      resetDir layout.stagingDir w.files = .ok () cleared ∧
        EditedBy [.renew (w.files.down layout.stagingDir)] w.files cleared :=
    hlinks.resetDir_succeeds isEntryName_stagingDir hpdir hfits
  obtain ⟨candidate, hmem, hcandidate⟩ := hfound cleared hrenewed
  obtain ⟨source, hsource⟩ : ∃ source, search.candidates.find? cleared.isFile = some source :=
    Option.isSome_iff_exists.mp (List.find?_isSome.mpr ⟨candidate, hmem, hcandidate⟩)
  obtain ⟨l, mode, content, hf⟩ := isFile_iff.mp (List.find?_some hsource)
  have hstart : layout.stagingDir.isAbsolute = true ∨ SameStart w.files cleared :=
    hrenewed.start_of_renew isEntryName_stagingDir
  obtain ⟨hnone, hw⟩ := hrenewed.vacant_of_renew isEntryName_launcherName hstart
  have hstart' : layout.stagedLauncher.isAbsolute = true ∨ SameStart w.files cleared :=
    hstart.imp_left (Path.isAbsolute_entry layout.stagingDir _ isEntryName_launcherName).trans
  obtain ⟨files, hcopy, _⟩ := (hrenewed.linkless hlinks).copyFile_succeeds isEntryName_launcherName
    hpdir.up_notMem hf (hrenewed.straight hp hstart') hw (by
      rintro rfl
      rw [(find_follow_iff.mp hf).2.2] at hnone
      cases hnone)
  rw [← hname] at hcopy
  obtain ⟨w', h, _⟩ := stage_of_ok hreset hsource hcopy
  rw [hname] at h
  exact ⟨w', h⟩

end Stage

end LauncherSearch

end LaunchDist
