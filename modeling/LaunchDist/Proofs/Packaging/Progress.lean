import LaunchDist.Proofs.Packaging.Edits
/-!
# Packaging that succeeds

Packaging succeeds if every path can be looked up, only directories stand where directories are to be
made, and a launcher is found: no step takes away what a later one needs.
-/
namespace LaunchDist

open FileSystem
open LaunchDist.Path (Step IsEntryName)

namespace PackagingRequest

open LaunchDist.Distribution

/-- What is to be known of the files for packaging to succeed. -/
structure Ready (request : PackagingRequest) (environmentPath : Option Bytes) (fs : FileSystem) :
    Prop where
  links : Linkless fs
  validName : ProgramName.validate request.programName = .ok ()
  isEntryName : IsEntryName (Utf8.encode request.programName)
  supplied : request.Supplied fs
  isFile : ∀ a ∈ request.classpath, fs.isFile a.path = true
  manifestPath : Straight fs request.layout.manifestPath
  stagedLauncher : Straight fs request.layout.stagedLauncher
  places : Places fs request.distDir request.inputs
  build_fits : (Edit.dirs (fs.down request.layout.manifestDir)).Fits fs.entry?
  manifest_fits : fs.entry? (fs.down request.layout.manifestPath) = none ∨
    IsFile (fs.entry? (fs.down request.layout.manifestPath))
  dist_fits : (Edit.dirs (fs.down request.distDir)).Fits fs.entry?
  manifest_not_above : ¬ fs.down request.layout.manifestPath <+: fs.down request.distDir
  launcher_not_above : ¬ fs.down request.layout.stagedLauncher <+: fs.down request.distDir
  outside_manifest : ¬ Inside fs request.distDir (fs.down request.layout.manifestPath)
  outside_launcher : ¬ Inside fs request.distDir (fs.down request.layout.stagedLauncher)
  /-- Where a relative build directory starts is not removed by assembling. -/
  start_build : request.buildDir.isAbsolute = true ∨ ¬ Inside fs request.distDir fs.workingDir
  /-- Where a relative distribution directory starts is not removed by staging. -/
  start_dist : request.distDir.isAbsolute = true ∨
    ¬ fs.down request.layout.stagingDir <+: fs.workingDir
  launcher : ∀ cleared, EditedBy (request.openingEdits fs) fs cleared →
    ∃ candidate ∈ (request.launcherSearch environmentPath).candidates,
      cleared.isFile candidate = true

section Ready

variable {request : PackagingRequest} {environmentPath : Option Bytes} {w : Workspace}

theorem Ready.prepares (h : request.Ready environmentPath w.files) :
    ∃ written staged launcher,
      request.manifest.store request.layout w = .ok request.layout.manifestPath written ∧
      (request.launcherSearch environmentPath).stage request.layout written =
        .ok request.layout.stagedLauncher staged ∧
      request.Prepared environmentPath w.files staged.files launcher := by
  obtain ⟨written, hstore⟩ : ∃ written, request.manifest.store request.layout w =
      .ok request.layout.manifestPath written :=
    Manifest.store_succeeds h.links h.manifestPath h.build_fits h.manifest_fits
  have hup : Step.up ∉ request.buildDir.moves :=
    BuildLayout.up_notMem_buildDir h.manifestPath.up_notMem
  obtain ⟨_, _, hwritten⟩ := Manifest.store_edited h.links hup hstore
  have hsame : SameStart w.files written.files :=
    hwritten.sameStart (by simp [Manifest.storeEdits, Edit.Removes])
  have hdown : written.files.down request.layout.stagingDir =
      w.files.down request.layout.stagingDir := BuildLayout.down_stagingDir_congr (.inr hsame)
  have hroot : written.files.isDirAt (w.files.down request.layout.root) := by
    have hdir : written.files.isDirAt (w.files.down request.layout.manifestDir) := by
      rw [isDirAt_iff, hwritten.entry?, Manifest.storeEdits]
      change (Edit.put _ _).apply ((Edit.dirs _).apply _) _ = _
      rw [Edit.apply_put, Edit.apply_dirs, if_neg]
      · exact if_pos (List.prefix_refl _)
      · rw [request.layout.down_manifestDir, request.layout.down_manifestPath, List.append_right_inj]
        decide
    refine isDirAt_of_prefix _ _ _ hdir ?_
    rw [request.layout.down_manifestDir]
    exact List.prefix_append _ _
  have hroom : (Edit.renew (written.files.down request.layout.stagingDir)).Fits
      written.files.entry? := by
    intro u hu hne
    rw [hdown, request.layout.down_stagingDir] at hu hne
    have hdir := isDirAt_of_prefix _ _ _ hroot ((List.prefix_concat_iff.mp hu).resolve_left hne)
    exact .inr ((isDirAt_iff _ _).mp hdir)
  obtain ⟨staged, hstage⟩ : ∃ staged,
      (request.launcherSearch environmentPath).stage request.layout written =
        .ok request.layout.stagedLauncher staged :=
    LauncherSearch.stage_succeeds (hwritten.linkless h.links) rfl
      (hwritten.straight h.stagedLauncher (.inr hsame)) hroom fun cleared hcleared => by
        rw [hdown] at hcleared
        exact h.launcher cleared (hwritten.append hcleared)
  obtain ⟨_, _, launcher, hprepared⟩ := prepare_edited h.links hup hstore hstage
  exact ⟨written, staged, launcher, hstore, hstage, hprepared⟩

section Assembles

variable {staged : Workspace} {launcher : DirEntry} (h : request.Ready environmentPath w.files)
  (hprepared : request.Prepared environmentPath w.files staged.files launcher)

include h hprepared

theorem Ready.staged_start :
    request.distDir.isAbsolute = true ∨ SameStart w.files staged.files := by
  refine h.start_dist.imp_right fun hout => ?_
  apply hprepared.edited.sameStart
  intro edit hedit hremoved
  exact hout (below_stagingDir_of_removes hedit hremoved)

private theorem Ready.lasting {p : Path} {s : String} (hs : IsEntryName (Utf8.encode s))
    (habs : (p / s).isAbsolute = request.buildDir.isAbsolute)
    (hp : Straight staged.files (p / s)) (hfile : IsFile (staged.files.entry? (w.files.down (p / s))))
    (hout : ¬ Inside w.files request.distDir (w.files.down (p / s))) :
    Lasting staged.files request.distDir (p / s) := by
  have hstart : (p / s).isAbsolute = true ∨ SameStart w.files staged.files := by
    rw [habs]
    exact hprepared.start
  have hinside : ∀ {v}, Inside staged.files request.distDir v ↔ Inside w.files request.distDir v :=
    inside_congr hprepared.edited h.links (h.staged_start hprepared)
  have hdown : staged.files.down (p / s) = w.files.down (p / s) := down_congr hstart
  apply lasting_of_entry (hprepared.edited.linkless h.links) hs hp
  · rwa [hdown]
  · rwa [hdown, hinside]
  · rcases hstart with ha | hsame
    · exact .inl ha
    · rw [habs, hinside, hsame.1]
      exact h.start_build

private theorem Ready.isFile_staged : ∀ a ∈ request.classpath, staged.files.isFile a.path = true := by
  intro a ha
  obtain ⟨l, mode, content, hf⟩ := isFile_iff.mp (h.isFile a ha)
  refine isFile_iff.mpr ⟨l, mode, content,
    hprepared.edited.find (h.supplied.isAbsolute a ha) (fun u hu => ?_) hf⟩
  exact (h.supplied.clear a ha u hu).not_replaces hprepared

private theorem Ready.dist_fits_staged :
    (Edit.dirs (staged.files.down request.distDir)).Fits staged.files.entry? := by
  intro u hu
  rw [down_congr (h.staged_start hprepared)] at hu
  rw [hprepared.edited.entry?]
  refine Edit.applyAll_open (h.dist_fits u hu) fun e hput => ?_
  rcases mem_buildEdits hput with heq | heq | heq | heq
  · cases heq
  · cases heq
    exact h.manifest_not_above hu
  · cases heq
  · cases heq
    exact h.launcher_not_above hu

theorem Ready.assembles :
    ∃ w', assemble request.distDir request.inputs staged =
      .ok (planned request.distDir request.inputs) w' := by
  have hlinks := hprepared.edited.linkless h.links
  have hdist := h.staged_start hprepared
  have hmanifest : Lasting staged.files request.distDir request.layout.manifestPath :=
    h.lasting hprepared isEntryName_manifest request.layout.isAbsolute_manifestPath
      hprepared.manifestPath ⟨_, _, hprepared.entry?_manifest⟩ h.outside_manifest
  have hlauncher : Lasting staged.files request.distDir request.layout.stagedLauncher := by
    obtain ⟨mode, content, he⟩ := hprepared.isFile
    exact h.lasting hprepared isEntryName_launcherName request.layout.isAbsolute_stagedLauncher
      hprepared.stagedLauncher ⟨mode, content, hprepared.entry?_launcher.trans he⟩ h.outside_launcher
  exact assemble_succeeds hlinks h.validName h.isEntryName ⟨_, hprepared.atPath_manifest, rfl⟩
    (hprepared.outsideLibraries h.supplied hdist) (h.isFile_staged hprepared) hlauncher hmanifest
    (h.places.mono hprepared.edited hdist h.isEntryName h.supplied.isEntryName)
    (h.dist_fits_staged hprepared)

end Assembles

theorem package_succeeds (h : request.Ready environmentPath w.files) :
    ∃ w', request.package environmentPath w =
      .ok (planned request.distDir request.inputs) w' := by
  have hstarted : request.Ready environmentPath (request.started w).files := h
  obtain ⟨written, staged, launcher, hstore, hstage, hprepared⟩ := hstarted.prepares
  obtain ⟨w', hassemble⟩ := h.assembles hprepared
  exact ⟨w', package_ok_iff.mpr ⟨h.validName, _, written, _, staged, hstore, hstage, hassemble⟩⟩

end Ready

end PackagingRequest

end LaunchDist
