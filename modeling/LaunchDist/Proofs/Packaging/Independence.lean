import Mathlib.Data.List.Find
import LaunchDist.Proofs.FileSystem.Obstructed
import LaunchDist.Proofs.Packaging.Preparing
/-!
# Preparing manifest and launcher in either order

The manifest and the staged launcher of a build lie in sibling directories. Where the way to these is
there or can be made, each of the two is prepared by edits that the other one does not see. Where the way
is obstructed, both fail before their own directory. So it does not matter which of them comes first.
-/
namespace LaunchDist

open FileSystem
open LaunchDist.Path (Step IsEntryName)

/-- Whether two actions end as they do alone, whichever comes first, and leave the same files. -/
structure Action.Independent {α β : Type} (x : Action α) (y : Action β) (w : Workspace) : Prop where
  left : outcome (x (stateAfter (y w))) = outcome (x w)
  right : outcome (y (stateAfter (x w))) = outcome (y w)
  entry? : ∀ u, FileSystem.entry? (stateAfter (y (stateAfter (x w)))).files u =
    FileSystem.entry? (stateAfter (x (stateAfter (y w)))).files u
  sameStart : SameStart (stateAfter (y (stateAfter (x w)))).files
    (stateAfter (x (stateAfter (y w)))).files

/-- How an action ends, and the edits that it makes. -/
structure Effect where
  outcome : Except Failure Path
  edits : List Edit

/-- Whether an action that ends so has had the effect on files. -/
structure Effect.Seen (effect : Effect) (fs : FileSystem)
    (r : EStateM.Result Failure Workspace Path) : Prop where
  outcome : Action.outcome r = effect.outcome
  edited : EditedBy effect.edits fs (Action.stateAfter r).files

namespace BuildLayout

theorem alike_outputs : Alike "manifest" "launcher" :=
  ⟨isEntryName_manifestDir, isEntryName_stagingDir, by decide, by decide⟩

theorem outputs_apart (layout : BuildLayout) (fs : FileSystem) :
    ¬ fs.down layout.manifestDir <+: fs.down layout.stagingDir ∧
      ¬ fs.down layout.stagingDir <+: fs.down layout.manifestDir := by
  rw [layout.down_manifestDir, layout.down_stagingDir, List.prefix_append_right_inj,
    List.prefix_append_right_inj]
  decide

end BuildLayout

namespace Manifest

variable {m : Manifest} {layout : BuildLayout} {fs : FileSystem} {w : Workspace}

/-- What comes of writing a manifest where its directory is there or can be made. -/
def storeEffect (m : Manifest) (layout : BuildLayout) (fs : FileSystem) : Effect :=
  if fs.entry? (fs.down layout.manifestDir) ≠ none ∧
      fs.entry? (fs.down layout.manifestDir) ≠ some .dir then
    ⟨.error (.io layout.manifestDir (.system .alreadyExists)), []⟩
  else if isTooLong layout.manifestPath then
    ⟨.error (.io layout.manifestPath (.system .nameTooLong)), [.dirs (fs.down layout.manifestDir)]⟩
  else if fs.entry? (fs.down layout.manifestPath) = some .dir then
    ⟨.error (.io layout.manifestPath (.system .isDirectory)), [.dirs (fs.down layout.manifestDir)]⟩
  else if fs.entry? (fs.down layout.manifestPath) = some .socket then
    ⟨.error (.io layout.manifestPath (.system .noDeviceOrAddress)),
      [.dirs (fs.down layout.manifestDir)]⟩
  else ⟨.ok layout.manifestPath, m.storeEdits layout fs⟩

theorem mem_storeEffect {edit : Edit} (h : edit ∈ (m.storeEffect layout fs).edits) :
    edit = .dirs (fs.down layout.manifestDir) ∨
      ∃ e, edit = .put (fs.down layout.manifestPath) e := by
  rw [storeEffect] at h
  split at h
  · cases h
  · split at h
    · exact .inl (List.mem_singleton.mp h)
    · split at h
      · exact .inl (List.mem_singleton.mp h)
      · split at h
        · exact .inl (List.mem_singleton.mp h)
        · rcases List.mem_cons.mp h with h | h
          · exact .inl h
          · exact .inr ⟨_, List.mem_singleton.mp h⟩

theorem not_removes_of_storeEffect (u : Location) :
    ∀ edit ∈ (m.storeEffect layout fs).edits, ¬ edit.Removes u := by
  intro edit hedit
  rcases mem_storeEffect hedit with rfl | ⟨e, rfl⟩
  · exact id
  · exact id

theorem below_of_storeEffect : ∀ edit ∈ (m.storeEffect layout fs).edits,
    fs.down layout.manifestDir <+: edit.site := by
  intro edit hedit
  rcases mem_storeEffect hedit with rfl | ⟨e, rfl⟩
  · exact List.prefix_refl _
  · exact prefix_down_entry Distribution.isEntryName_manifest

theorem storeEffect_congr {fs' : FileSystem}
    (hstart : layout.buildDir.isAbsolute = true ∨ SameStart fs fs')
    (hkept : ∀ u, fs.down layout.manifestDir <+: u → fs'.entry? u = fs.entry? u) :
    m.storeEffect layout fs' = m.storeEffect layout fs := by
  have hdir := hkept (fs.down layout.manifestDir) (List.prefix_refl _)
  have hplace := hkept (fs.down layout.manifestPath)
    (prefix_down_entry Distribution.isEntryName_manifest)
  simp only [storeEffect, storeEdits, storedEntry, modeAt, BuildLayout.down_manifestDir_congr hstart,
    BuildLayout.down_manifestPath_congr hstart, hdir, hplace]

theorem store_of_makeDirs_error {e : FileFailure} {made : FileSystem}
    (h : makeDirs layout.manifestDir w.files = .error e made) :
    m.store layout w = .error (.io layout.manifestDir e) { w with files := made } := by
  rw [store]
  refine Action.bind_error_iff.mpr (.inl ?_)
  rw [Action.changeAt, h]

theorem store_of_write_error {e : FileFailure} {made : FileSystem}
    (hmake : makeDirs layout.manifestDir w.files = .ok () made)
    (h : made.target layout.manifestPath = .error e) :
    m.store layout w = .error (.io layout.manifestPath e) { w with files := made } := by
  have hdirs : Action.changeAt layout.manifestDir (makeDirs layout.manifestDir) w =
      .ok () { w with files := made } := Action.changeAt_ok_iff.mpr ⟨made, hmake, rfl⟩
  rw [store, Action.bind_of_ok hdirs]
  refine Action.bind_error_iff.mpr (.inl ?_)
  rw [Action.changeAt, Change.atomic]
  simp only [FileSystem.write, h]

theorem store_seen (hlinks : Linkless w.files) (h : w.files.Passes layout.root "manifest") :
    (m.storeEffect layout w.files).Seen w.files (m.store layout w) := by
  rw [storeEffect]
  by_cases hblocked : w.files.entry? (w.files.down layout.manifestDir) ≠ none ∧
      w.files.entry? (w.files.down layout.manifestDir) ≠ some .dir
  · rw [if_pos hblocked, store_of_makeDirs_error
      (hlinks.makeDirs_of_not_dir isEntryName_manifestDir h.1 hblocked.1 hblocked.2)]
    exact ⟨rfl, .nil _⟩
  · have hfits := fits_dirs_entry isEntryName_manifestDir h.2 (by
      rwa [not_and_or, not_ne_iff, not_ne_iff] at hblocked)
    obtain ⟨made, hmake, hmade⟩ := hlinks.makeDirs_succeeds isEntryName_manifestDir h.1 hfits
    rw [if_neg hblocked]
    by_cases hlong : isTooLong layout.manifestPath
    · have hzero : 0 ∉ layout.manifestPath.bytes :=
        h.1.zero_notMem_entry Distribution.isEntryName_manifest (by decide)
      rw [if_pos hlong, store_of_write_error hmake (target_of_isTooLong hlong hzero)]
      exact ⟨rfl, hmade⟩
    · have hp : Straight w.files layout.manifestPath :=
        h.1.entry Distribution.isEntryName_manifest (by decide) (by decide) hlong
      rw [if_neg hlong]
      have hsame : SameStart w.files made := hmade.sameStart (by simp [Edit.Removes])
      have hkept : made.entry? (made.down layout.manifestPath) =
          w.files.entry? (w.files.down layout.manifestPath) :=
        (congrArg made.entry? (down_congr (.inr hsame))).trans (entry?_made hmade)
      have hrefused := fun e => (hmade.linkless hlinks).target_refused (e := e)
        Distribution.isEntryName_manifest (hmade.straight hp (.inr hsame))
      by_cases hdir : w.files.entry? (w.files.down layout.manifestPath) = some .dir
      · rw [if_pos hdir, store_of_write_error hmake (hrefused _ (.inl ⟨hkept.trans hdir, rfl⟩))]
        exact ⟨rfl, hmade⟩
      by_cases hsocket : w.files.entry? (w.files.down layout.manifestPath) = some .socket
      · rw [if_neg hdir, if_pos hsocket,
          store_of_write_error hmake (hrefused _ (.inr ⟨hkept.trans hsocket, rfl⟩))]
        exact ⟨rfl, hmade⟩
      have hplace := (hlinks.entry?_cases (w.files.down layout.manifestPath)).imp_right fun h =>
        (h.resolve_left hdir).resolve_left hsocket
      obtain ⟨w', hstore⟩ := store_succeeds (m := m) hlinks hp hfits hplace
      have hup : Step.up ∉ layout.buildDir.moves := BuildLayout.up_notMem_buildDir hp.up_notMem
      rw [if_neg hdir, if_neg hsocket, hstore]
      exact ⟨rfl, (store_edited hlinks hup hstore).2.2⟩

end Manifest

namespace LauncherSearch

variable {search : LauncherSearch} {layout : BuildLayout} {w : Workspace} {cleared : FileSystem}
  {source : Path}

/-- What comes of staging a launcher once the staging directory is empty. -/
def stageEffect (search : LauncherSearch) (layout : BuildLayout) (cleared : FileSystem) : Effect :=
  match search.candidates.find? cleared.isFile with
  | none => ⟨.error (.launcherNotFound search.name search.dirs), []⟩
  | some source =>
    if isTooLong layout.stagedLauncher then
      ⟨.error (.io layout.stagedLauncher (.system .nameTooLong)), []⟩
    else
      ⟨.ok layout.stagedLauncher,
        [.put (cleared.down layout.stagedLauncher) (cleared.stat source).toOption]⟩

theorem mem_stageEffect {edit : Edit} (h : edit ∈ (search.stageEffect layout cleared).edits) :
    ∃ e, edit = .put (cleared.down layout.stagedLauncher) e := by
  rw [stageEffect] at h
  split at h
  · cases h
  · split at h
    · cases h
    · exact ⟨_, List.mem_singleton.mp h⟩

theorem not_removes_of_stageEffect (u : Location) :
    ∀ edit ∈ (search.stageEffect layout cleared).edits, ¬ edit.Removes u := by
  intro edit hedit
  obtain ⟨e, rfl⟩ := mem_stageEffect hedit
  exact id

theorem below_of_stageEffect
    (hdown : cleared.down layout.stagedLauncher = w.files.down layout.stagedLauncher) :
    ∀ edit ∈ Edit.renew (w.files.down layout.stagingDir) :: (search.stageEffect layout cleared).edits,
      w.files.down layout.stagingDir <+: edit.site := by
  intro edit hedit
  rcases List.mem_cons.mp hedit with rfl | hedit
  · exact List.prefix_refl _
  · obtain ⟨e, rfl⟩ := mem_stageEffect hedit
    rw [Edit.site, hdown]
    exact prefix_down_entry isEntryName_launcherName

theorem stageEffect_congr {cleared' : FileSystem} {edits : List Edit} (hlinks : Linkless cleared)
    (hname : search.name = launcherName) (hedited : EditedBy edits cleared cleared')
    (hstart : SameStart cleared cleared') (hsearch : ∀ dir ∈ search.dirs, Step.up ∉ dir.moves)
    (hout : ∀ dir ∈ search.dirs, ∀ edit ∈ edits,
      ¬ edit.Replaces (cleared.down (dir / launcherName))) :
    search.stageEffect layout cleared' = search.stageEffect layout cleared := by
  have hfind : ∀ p ∈ search.candidates, ∀ {l mode content},
      cleared'.find .follow p = .ok (some l, .file mode content) ↔
        cleared.find .follow p = .ok (some l, .file mode content) := by
    intro p hp l mode content
    obtain ⟨dir, hdir, rfl⟩ := List.mem_map.mp hp
    rw [hname]
    exact hedited.find_file_iff hlinks isEntryName_launcherName (hsearch dir hdir) (.inr hstart)
      (hout dir hdir)
  have hsame : ∀ p ∈ search.candidates, cleared'.isFile p = cleared.isFile p := by
    intro p hp
    rw [Bool.eq_iff_iff, isFile_iff, isFile_iff]
    exact exists_congr fun l => exists₂_congr fun mode content => hfind p hp
  have hdown : cleared'.down layout.stagedLauncher = cleared.down layout.stagedLauncher :=
    down_congr (.inr hstart)
  rw [stageEffect, stageEffect, List.find?_congr hsame, hdown]
  cases hsource : search.candidates.find? cleared.isFile with
  | none => rfl
  | some source =>
    obtain ⟨l, mode, content, hf⟩ := isFile_iff.mp (List.find?_some hsource)
    have hf' := (hfind source (List.mem_of_find?_eq_some hsource)).mpr hf
    simp only [stat_of_find hf, stat_of_find hf']

theorem stage_of_resetDir_error {e : FileFailure}
    (h : resetDir layout.stagingDir w.files = .error e cleared) :
    search.stage layout w = .error (.io layout.stagingDir e) { w with files := cleared } := by
  rw [stage]
  refine Action.bind_error_iff.mpr (.inl ?_)
  rw [Action.resetDir, Action.changeAt, h]

theorem stage_of_missing (hreset : resetDir layout.stagingDir w.files = .ok () cleared)
    (h : search.candidates.find? cleared.isFile = none) :
    search.stage layout w =
      .error (.launcherNotFound search.name search.dirs) { w with files := cleared } := by
  rw [stage, Action.bind_of_ok (resetDir_of_ok hreset)]
  exact Action.bind_error_iff.mpr (.inl (find_of_missing h))

theorem stage_of_copy_error {e : Path × FileFailure}
    (hreset : resetDir layout.stagingDir w.files = .ok () cleared)
    (hsource : search.candidates.find? cleared.isFile = some source)
    (hcopy : cleared.copyFile source (layout.stagingDir / search.name) = .error e) :
    ∃ w', search.stage layout w = .error (.io e.1 e.2) w' ∧ w'.files = cleared := by
  have hcopied := Action.copyFile_of_error
    (w := { files := cleared, log := w.log ++ [.foundLauncher source] }) hcopy
  rw [stage_of_found hreset hsource]
  exact ⟨_, Action.bind_error_iff.mpr (.inl hcopied), rfl⟩

private theorem copyFile_seen (hlinks : Linkless w.files) (hname : search.name = launcherName)
    (hp : Straight w.files layout.stagingDir)
    (hreset : resetDir layout.stagingDir w.files = .ok () cleared)
    (hrenew : EditedBy [.renew (w.files.down layout.stagingDir)] w.files cleared)
    (hsource : search.candidates.find? cleared.isFile = some source) :
    (search.stageEffect layout cleared).Seen cleared (search.stage layout w) := by
  obtain ⟨l, mode, content, hf⟩ := isFile_iff.mp (List.find?_some hsource)
  have hup : Step.up ∉ layout.stagingDir.moves := hp.up_notMem
  have hstart : layout.stagingDir.isAbsolute = true ∨ SameStart w.files cleared :=
    hrenew.start_of_renew isEntryName_stagingDir
  have hp' : Straight cleared layout.stagingDir := hrenew.straight hp hstart
  rw [stageEffect, hsource]
  by_cases hlong : isTooLong layout.stagedLauncher
  · have hzero : 0 ∉ layout.stagedLauncher.bytes :=
      hp'.zero_notMem_entry isEntryName_launcherName (by decide)
    have hcopy : cleared.copyFile source layout.stagedLauncher =
        .error (layout.stagedLauncher, .system .nameTooLong) := by
      rw [copyFile, hf, target_of_isTooLong hlong hzero]
    rw [BuildLayout.stagedLauncher, ← hname] at hcopy
    obtain ⟨w', hstage, rfl⟩ := stage_of_copy_error hreset hsource hcopy
    rw [hstage, hname]
    simp only [if_pos hlong]
    exact ⟨rfl, .nil _⟩
  · obtain ⟨hnone, hw⟩ := hrenew.vacant_of_renew isEntryName_launcherName hstart
    have hplace : Straight cleared layout.stagedLauncher :=
      hp'.entry isEntryName_launcherName (by decide) (by decide) hlong
    obtain ⟨files, hcopy, hput⟩ := (hrenew.linkless hlinks).copyFile_succeeds
      isEntryName_launcherName hup hf hplace hw (by
        rintro rfl
        rw [(find_follow_iff.mp hf).2.2] at hnone
        cases hnone)
    rw [← hname] at hcopy
    obtain ⟨w', hstage, rfl⟩ := stage_of_ok hreset hsource hcopy
    rw [hstage, hname]
    simp only [if_neg hlong, stat_of_find hf]
    exact ⟨rfl, hput⟩

theorem stage_seen (hlinks : Linkless w.files) (hname : search.name = launcherName)
    (h : w.files.Passes layout.root "launcher") :
    ∃ cleared, resetDir layout.stagingDir w.files = .ok () cleared ∧
      EditedBy [.renew (w.files.down layout.stagingDir)] w.files cleared ∧
      (search.stageEffect layout cleared).Seen cleared (search.stage layout w) := by
  have hfits : (Edit.renew (w.files.down layout.stagingDir)).Fits w.files.entry? := by
    intro u hu hne
    rw [layout.down_stagingDir, List.prefix_concat_iff] at hu
    exact h.2 u (hu.resolve_left fun heq => hne (heq.trans (layout.down_stagingDir _).symm))
  obtain ⟨cleared, hreset, hrenew⟩ := hlinks.resetDir_succeeds isEntryName_stagingDir h.1 hfits
  refine ⟨cleared, hreset, hrenew, ?_⟩
  cases hfind : search.candidates.find? cleared.isFile with
  | none =>
    rw [stageEffect, hfind, stage_of_missing hreset hfind]
    exact ⟨rfl, .nil _⟩
  | some source => exact copyFile_seen hlinks hname h.1 hreset hrenew hfind

end LauncherSearch

section Both

variable {m : Manifest} {layout : BuildLayout} {search : LauncherSearch} {w : Workspace}

/-- Where the way to the outputs is obstructed, neither of them is prepared. -/
theorem independent_of_obstructed (hlinks : Linkless w.files) (hup : Step.up ∉ layout.root.moves)
    (hno : ¬ w.files.Passes layout.root "manifest") :
    Action.Independent (m.store layout) (search.stage layout) w := by
  obtain ⟨e, made, ⟨hmake, hreset⟩, hmake', hreset'⟩ :=
    hlinks.obstructed BuildLayout.alike_outputs hup hno
  have hstore := Manifest.store_of_makeDirs_error (m := m) hmake
  have hstage : search.stage layout w = .error (.io layout.stagingDir e) { w with files := made } :=
    LauncherSearch.stage_of_resetDir_error hreset
  have hstore' := Manifest.store_of_makeDirs_error (m := m) (w := { w with files := made }) hmake'
  have hstage' : search.stage layout { w with files := made } =
      .error (.io layout.stagingDir e) { w with files := made } :=
    LauncherSearch.stage_of_resetDir_error (w := { w with files := made }) hreset'
  have hafter : Action.stateAfter (m.store layout w) = { w with files := made } :=
    congrArg Action.stateAfter hstore
  have hafter' : Action.stateAfter (search.stage layout w) = { w with files := made } :=
    congrArg Action.stateAfter hstage
  have hend : Action.stateAfter (m.store layout { w with files := made }) =
      { w with files := made } := congrArg Action.stateAfter hstore'
  have hend' : Action.stateAfter (search.stage layout { w with files := made }) =
      { w with files := made } := congrArg Action.stateAfter hstage'
  refine ⟨?_, ?_, fun u => ?_, ?_⟩
  · rw [hafter', hstore]
    exact congrArg Action.outcome hstore'
  · rw [hafter, hstage]
    exact congrArg Action.outcome hstage'
  · rw [hafter, hafter', hend, hend']
  · rw [hafter, hafter', hend, hend']
    exact ⟨rfl, rfl⟩

private theorem cleared_edited {stored cleared cleared' : FileSystem} (hlinks : Linkless w.files)
    (h : w.files.Passes layout.root "manifest")
    (hstored : EditedBy (m.storeEffect layout w.files).edits w.files stored)
    (hreset : resetDir layout.stagingDir w.files = .ok () cleared)
    (hreset' : resetDir layout.stagingDir stored = .ok () cleared') :
    SameStart cleared cleared' ∧
      EditedBy (m.storeEffect layout w.files).edits cleared cleared' := by
  have hup : Step.up ∉ layout.root.moves := h.up_notMem isEntryName_manifestDir
  have hlinks' : Linkless stored := hstored.linkless hlinks
  have hsame : SameStart w.files stored :=
    hstored.sameStart (Manifest.not_removes_of_storeEffect _)
  have hrenew : EditedBy [.renew (w.files.down layout.stagingDir)] w.files cleared :=
    (hlinks.resetDir_ok isEntryName_stagingDir hup hreset).2
  have hrenew' : EditedBy [.renew (stored.down layout.stagingDir)] stored cleared' :=
    (hlinks'.resetDir_ok isEntryName_stagingDir hup hreset').2
  have hbelow : ∀ edit ∈ [Edit.renew (w.files.down layout.stagingDir)],
      w.files.down layout.stagingDir <+: edit.site := by simp [Edit.site]
  have hbuild : layout.buildDir.isAbsolute = true ∨ SameStart w.files cleared :=
    (hrenew.start_of_renew isEntryName_stagingDir).imp_left layout.isAbsolute_stagingDir.symm.trans
  have hkept : stored.entry? (w.files.down layout.stagingDir) =
      w.files.entry? (w.files.down layout.stagingDir) :=
    hstored.entry?_of_unsettled (Edit.unsettled_of_below (layout.outputs_apart w.files)
      Manifest.below_of_storeEffect (List.prefix_refl _))
  have hstart : SameStart cleared cleared' :=
    hlinks.sameStart_of_resetDir hlinks' isEntryName_stagingDir hup hsame hkept hreset hreset'
  -- The manifest could be written to the emptied state as well, by the same edits.
  have hpasses : cleared.Passes layout.root "manifest" :=
    h.edited isEntryName_manifestDir isEntryName_stagingDir hrenew
      (hbuild.imp_left layout.isAbsolute_root.trans) hbelow
  have hseen := Manifest.store_seen (m := m) (w := ⟨cleared, []⟩) (hrenew.linkless hlinks) hpasses
  have heffect : m.storeEffect layout cleared = m.storeEffect layout w.files := by
    refine Manifest.storeEffect_congr hbuild fun u hu => hrenew.entry?_of_unsettled ?_
    exact Edit.unsettled_of_below (layout.outputs_apart w.files).symm hbelow hu
  rw [heffect] at hseen
  refine ⟨hstart, hseen.edited.fits, ?_, .inl ⟨hstart, fun _ => ?_⟩⟩
  · have hagree := Edit.agree_of_below (layout.outputs_apart w.files)
      (Manifest.below_of_storeEffect (m := m)) hbelow
    rw [hrenew'.entry?, hstored.entry?, hrenew.entry?, BuildLayout.down_stagingDir_congr (.inr hsame),
      hagree.applyAll_comm]
  · exact Manifest.not_removes_of_storeEffect _

private theorem not_replaces_launcher {cleared : FileSystem} {dir : Path} {edit : Edit}
    (hedit : edit ∈ (m.storeEffect layout w.files).edits) :
    ¬ edit.Replaces (cleared.down (dir / launcherName)) := by
  rcases Manifest.mem_storeEffect hedit with rfl | ⟨e, rfl⟩
  · exact id
  · intro heq
    have hlast := congrArg List.getLast? (Eq.trans heq (layout.down_manifestPath w.files))
    rw [down_entry isEntryName_launcherName, List.getLast?_concat,
      List.getLast?_append_of_ne_nil _ (List.cons_ne_nil _ _)] at hlast
    revert hlast
    decide

private theorem stage_seen_after {w1 : Workspace} {cleared : FileSystem} (hlinks : Linkless w.files)
    (hname : search.name = launcherName) (hsearch : ∀ dir ∈ search.dirs, Step.up ∉ dir.moves)
    (h : w.files.Passes layout.root "manifest")
    (hstored : EditedBy (m.storeEffect layout w.files).edits w.files w1.files)
    (hreset : resetDir layout.stagingDir w.files = .ok () cleared)
    (hrenew : EditedBy [.renew (w.files.down layout.stagingDir)] w.files cleared) :
    ∃ cleared', SameStart cleared cleared' ∧
      EditedBy (m.storeEffect layout w.files).edits cleared cleared' ∧
      (search.stageEffect layout cleared).Seen cleared' (search.stage layout w1) := by
  have hsame : SameStart w.files w1.files :=
    hstored.sameStart (Manifest.not_removes_of_storeEffect _)
  have hpasses : w1.files.Passes layout.root "launcher" :=
    (h.edited isEntryName_manifestDir isEntryName_manifestDir hstored (.inr hsame)
      Manifest.below_of_storeEffect).alike BuildLayout.alike_outputs
  obtain ⟨cleared', hreset', _, hseen⟩ :=
    LauncherSearch.stage_seen (hstored.linkless hlinks) hname hpasses
  obtain ⟨hstart, hedited⟩ := cleared_edited hlinks h hstored hreset hreset'
  refine ⟨cleared', hstart, hedited, ?_⟩
  rwa [LauncherSearch.stageEffect_congr (hrenew.linkless hlinks) hname hedited hstart hsearch
    fun dir _ edit => not_replaces_launcher] at hseen

private theorem store_seen_after {w2 : Workspace} {edits : List Edit} (hlinks : Linkless w.files)
    (h : w.files.Passes layout.root "manifest") (hstaged : EditedBy edits w.files w2.files)
    (hstart : layout.buildDir.isAbsolute = true ∨ SameStart w.files w2.files)
    (hbelow : ∀ edit ∈ edits, w.files.down layout.stagingDir <+: edit.site) :
    (m.storeEffect layout w.files).Seen w2.files (m.store layout w2) := by
  have hpasses : w2.files.Passes layout.root "manifest" :=
    h.edited isEntryName_manifestDir isEntryName_stagingDir hstaged
      (hstart.imp_left layout.isAbsolute_root.trans) hbelow
  have hseen := Manifest.store_seen (m := m) (hstaged.linkless hlinks) hpasses
  rwa [Manifest.storeEffect_congr hstart fun u hu => hstaged.entry?_of_unsettled
    (Edit.unsettled_of_below (layout.outputs_apart w.files).symm hbelow hu)] at hseen

/-- Where the way to the outputs is there or can be made, each is prepared by its own edits. -/
theorem independent_of_passes (hlinks : Linkless w.files) (hname : search.name = launcherName)
    (hsearch : ∀ dir ∈ search.dirs, Step.up ∉ dir.moves)
    (h : w.files.Passes layout.root "manifest") :
    Action.Independent (m.store layout) (search.stage layout) w := by
  have hstored := Manifest.store_seen (m := m) hlinks h
  obtain ⟨cleared, hreset, hrenew, hstaged⟩ :=
    LauncherSearch.stage_seen hlinks hname (h.alike BuildLayout.alike_outputs)
  have hstart : layout.buildDir.isAbsolute = true ∨ SameStart w.files cleared :=
    (hrenew.start_of_renew isEntryName_stagingDir).imp_left layout.isAbsolute_stagingDir.symm.trans
  have hkept := hstaged.edited.sameStart (LauncherSearch.not_removes_of_stageEffect _)
  have hbelow : ∀ edit ∈ Edit.renew (w.files.down layout.stagingDir) ::
      (search.stageEffect layout cleared).edits, w.files.down layout.stagingDir <+: edit.site :=
    LauncherSearch.below_of_stageEffect (layout.down_stagedLauncher_congr hstart)
  obtain ⟨cleared', hclear_start, hmid, hstaged'⟩ :=
    stage_seen_after hlinks hname hsearch h hstored.edited hreset hrenew
  have hstored' := store_seen_after (m := m) hlinks h (hrenew.append hstaged.edited)
    (hstart.imp_right fun hsame => hsame.trans hkept) hbelow
  have hkept' := hstaged'.edited.sameStart (LauncherSearch.not_removes_of_stageEffect _)
  have hlast := hstored'.edited.sameStart (Manifest.not_removes_of_storeEffect _)
  refine ⟨hstored'.outcome.trans hstored.outcome.symm, hstaged'.outcome.trans hstaged.outcome.symm,
    fun u => ?_, (hkept'.symm.trans hclear_start.symm).trans (hkept.trans hlast)⟩
  have hagree := Edit.agree_of_below (layout.outputs_apart w.files)
    (Manifest.below_of_storeEffect (m := m))
    fun edit hedit => hbelow edit (List.mem_cons_of_mem _ hedit)
  rw [hstaged'.edited.entry?, hmid.entry?, hstored'.edited.entry?, hstaged.edited.entry?,
    hagree.applyAll_comm]

/-- Writing the manifest and staging the launcher commute in a state without links, whether they succeed
or fail. -/
theorem outputs_independent (m : Manifest) (layout : BuildLayout) (search : LauncherSearch)
    (w : Workspace) (hlinks : Linkless w.files) (hname : search.name = launcherName)
    (hbuild : Step.up ∉ layout.buildDir.steps) (hsearch : ∀ dir ∈ search.dirs, Step.up ∉ dir.steps) :
    Action.Independent (m.store layout) (search.stage layout) w := by
  by_cases hpasses : w.files.Passes layout.root "manifest"
  · exact independent_of_passes hlinks hname
      (fun dir hdir => (Path.up_notMem_steps_iff dir).mp (hsearch dir hdir)) hpasses
  · exact independent_of_obstructed hlinks (BuildLayout.up_notMem_root hbuild) hpasses

open PackagingRequest in
theorem outputs_independent_sampleFiles :
    Action.Independent (sampleRequest.manifest.store sampleRequest.layout)
      ((sampleRequest.launcherSearch none).stage sampleRequest.layout) ⟨sampleFiles, []⟩ :=
  outputs_independent sampleRequest.manifest sampleRequest.layout (sampleRequest.launcherSearch none)
    ⟨sampleFiles, []⟩ (linkless_of_areLinkless (by decide +kernel)) rfl (by decide +kernel)
    (by decide +kernel)

end Both

end LaunchDist
