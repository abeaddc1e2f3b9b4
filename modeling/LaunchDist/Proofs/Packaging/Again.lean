import Mathlib.Data.List.Find
import LaunchDist.Proofs.Packaging.Manifest
import LaunchDist.Proofs.Packaging.Progress
/-!
# Packaging again

A request that has been packaged is ready to be packaged again: the second run makes the same edits as
the first one, and edits that are made again change nothing.
-/
namespace LaunchDist

open FileSystem
open LaunchDist.Path (Step IsEntryName)

namespace PackagingRequest

open LaunchDist.Distribution

variable {request : PackagingRequest} {environmentPath : Option Bytes} {launcher : DirEntry}
  {fs fs' made : FileSystem} {u : Location}

namespace PackagedBy

theorem edited (h : request.PackagedBy environmentPath fs fs' launcher) :
    EditedBy (request.packagingEdits launcher fs) fs fs' := by
  obtain ⟨staged, hprepared, hinstalled⟩ := h.prepared
  exact hprepared.edited.append hinstalled

theorem links (h : request.PackagedBy environmentPath fs fs' launcher) : Linkless fs := by
  obtain ⟨staged, hprepared, _⟩ := h.prepared
  exact hprepared.links

theorem not_replaces (h : request.PackagedBy environmentPath fs fs' launcher)
    (hu : request.Apart fs u) : ∀ edit ∈ request.packagingEdits launcher fs, ¬ edit.Replaces u := by
  intro edit hedit hr
  rcases List.mem_append.mp hedit with hedit | hedit
  · obtain ⟨staged, hprepared, _⟩ := h.prepared
    exact hu.not_replaces hprepared edit hedit hr
  · exact hu.2 ((h.inside edit hedit).mono hr.site_above)

theorem apart_iff (h : request.PackagedBy environmentPath fs fs' launcher) :
    request.Apart fs' u ↔ request.Apart fs u := by
  have hhome : request.layout.home fs' = request.layout.home fs := by
    rw [BuildLayout.home, BuildLayout.home, place, place]
    exact congrArg (· ++ _) (destination_congr (h.edited.trail_eq h.links h.start_build))
  rw [Apart, Apart, hhome, inside_congr h.edited h.links h.start_dist]

theorem supplied (h : request.PackagedBy environmentPath fs fs' launcher)
    (hsupplied : request.Supplied fs) : request.Supplied fs' where
  isEntryName := hsupplied.isEntryName
  isAbsolute := hsupplied.isAbsolute
  clear a ha u hu := by
    rw [h.edited.trail_eq h.links (.inl (hsupplied.isAbsolute a ha))] at hu
    exact h.apart_iff.mpr (hsupplied.clear a ha u hu)

theorem entry?_manifestPath (h : request.PackagedBy environmentPath fs fs' launcher) :
    fs'.entry? (fs.down request.layout.manifestPath) =
      some (request.manifest.storedEntry request.layout fs) := by
  obtain ⟨staged, hprepared, hinstalled⟩ := h.prepared
  refine (hinstalled.entry?_file_iff fun edit hedit hr => ?_).mpr hprepared.entry?_manifest
  exact h.outside_manifest ((h.inside edit hedit).mono hr.site_above)

theorem entry?_stagedLauncher (h : request.PackagedBy environmentPath fs fs' launcher) :
    fs'.entry? (fs.down request.layout.stagedLauncher) = some launcher := by
  obtain ⟨staged, hprepared, hinstalled⟩ := h.prepared
  obtain ⟨mode, content, he⟩ := hprepared.isFile
  obtain rfl := Option.some.inj he
  refine (hinstalled.entry?_file_iff fun edit hedit hr => ?_).mpr hprepared.entry?_launcher
  exact h.outside_launcher ((h.inside edit hedit).mono hr.site_above)

theorem isDirAt_manifestDir (h : request.PackagedBy environmentPath fs fs' launcher) :
    fs'.isDirAt (fs.down request.layout.manifestDir) := by
  apply isDirAt_of_below fs' _ (Utf8.encode Manifest.fileName) []
  have hdown : fs.down request.layout.manifestDir ++ [Utf8.encode Manifest.fileName] =
      fs.down request.layout.manifestPath := (down_entry isEntryName_manifest).symm
  rw [hdown, h.entry?_manifestPath]
  exact Option.some_ne_none _

theorem isDirAt_distDir (h : request.PackagedBy environmentPath fs fs' launcher) :
    fs'.isDirAt (fs.down request.distDir) := by
  have he : fs'.entry? (fs.down (binDirOf request.distDir / Manifest.fileName)) =
      some (request.manifest.storedEntry request.layout fs) := by
    rw [h.edited.entry?, packagingEdits, installEdits, ← List.append_assoc, Edit.applyAll_append]
    change (Edit.put _ _).apply _ _ = _
    rw [Edit.apply_put, if_pos rfl]
  apply isDirAt_of_below fs' _ binName [Utf8.encode Manifest.fileName]
  have hdown : fs.down (binDirOf request.distDir / Manifest.fileName) =
      fs.down request.distDir ++ [binName, Utf8.encode Manifest.fileName] := by
    rw [down_entry isEntryName_manifest, binDirOf, down_entry isEntryName_bin, List.append_assoc]
    rfl
  rw [← hdown, he]
  exact Option.some_ne_none _

theorem not_above (h : request.PackagedBy environmentPath fs fs' launcher)
    (hfile : IsFile (fs'.entry? u)) : ¬ u <+: fs.down request.distDir := by
  intro hp
  obtain ⟨mode, content, he⟩ := hfile
  have hdir := isDirAt_of_prefix _ _ _ h.isDirAt_distDir hp
  rw [isDirAt_iff, he] at hdir
  cases hdir

theorem isFile_stagedLauncher (h : request.PackagedBy environmentPath fs fs' launcher) :
    IsFile (fs'.entry? (fs.down request.layout.stagedLauncher)) := by
  obtain ⟨staged, hprepared, _⟩ := h.prepared
  rw [h.entry?_stagedLauncher]
  exact hprepared.isFile

theorem inside_iff (h : request.PackagedBy environmentPath fs fs' launcher) :
    Inside fs' request.distDir u ↔ Inside fs request.distDir u :=
  inside_congr h.edited h.links h.start_dist

theorem not_removes (h : request.PackagedBy environmentPath fs fs' launcher)
    (hcwd : fs.isDirAt fs.workingDir) (hlost : fs'.lostLevels = 0) :
    ∀ edit ∈ request.packagingEdits launcher fs, ¬ edit.Removes fs.workingDir := by
  rcases h.edited.start with ⟨_, hkept⟩ | ⟨_, hpos⟩
  · exact hkept hcwd
  · omega

theorem openingEdits_eq (h : request.PackagedBy environmentPath fs fs' launcher) :
    request.openingEdits fs' = request.openingEdits fs ∧
      request.manifest.storedEntry request.layout fs' =
        request.manifest.storedEntry request.layout fs := by
  have hmanifestDir : fs'.down request.layout.manifestDir = fs.down request.layout.manifestDir :=
    BuildLayout.down_manifestDir_congr h.start_build
  have hmanifestPath : fs'.down request.layout.manifestPath = fs.down request.layout.manifestPath :=
    BuildLayout.down_manifestPath_congr h.start_build
  have hstagingDir : fs'.down request.layout.stagingDir = fs.down request.layout.stagingDir :=
    BuildLayout.down_stagingDir_congr h.start_build
  -- The manifest keeps the permission bits that it has.
  have hmode : modeAt fs'.entry? (fs.down request.layout.manifestPath) =
      modeAt fs.entry? (fs.down request.layout.manifestPath) := by
    rw [modeAt, h.entry?_manifestPath, Manifest.storedEntry]
  have hstored : request.manifest.storedEntry request.layout fs' =
      request.manifest.storedEntry request.layout fs := by
    rw [Manifest.storedEntry, Manifest.storedEntry, hmanifestPath, hmode]
  refine ⟨?_, hstored⟩
  rw [openingEdits, openingEdits, Manifest.storeEdits, Manifest.storeEdits, hmanifestDir,
    hmanifestPath, hstored, hstagingDir]

theorem packagingEdits_eq (h : request.PackagedBy environmentPath fs fs' launcher)
    (hsupplied : request.Supplied fs) :
    request.packagingEdits launcher fs' = request.packagingEdits launcher fs := by
  obtain ⟨hopening, hstored⟩ := h.openingEdits_eq
  have hstagedLauncher : fs'.down request.layout.stagedLauncher =
      fs.down request.layout.stagedLauncher := BuildLayout.down_stagedLauncher_congr h.start_build
  have hfiles : ∀ a ∈ request.classpath, IsFile (fs'.entry? (fs'.destination a.path)) := by
    intro a ha
    obtain ⟨l, mode, content, hf⟩ := isFile_iff.mp (h.isFile a ha)
    obtain ⟨_, ⟨k, hr⟩, he⟩ := find_follow_iff.mp hf
    rw [hr.destination_eq]
    exact ⟨mode, content, he⟩
  have hlibraries := libraryEdits_congr h.edited h.links h.start_dist hsupplied.isEntryName
    hsupplied.isAbsolute
    (fun a ha => h.not_replaces (hsupplied.clear a ha _ (destination_mem_trail fs a.path))) hfiles
  have hname : fs'.down (binDirOf request.distDir / request.programName) =
      fs.down (binDirOf request.distDir / request.programName) :=
    down_part_congr "bin" isEntryName_bin h.isEntryName h.start_dist
  have hjson : fs'.down (binDirOf request.distDir / Manifest.fileName) =
      fs.down (binDirOf request.distDir / Manifest.fileName) :=
    down_part_congr "bin" isEntryName_bin isEntryName_manifest h.start_dist
  rw [packagingEdits, packagingEdits, buildEdits, buildEdits, installEdits, installEdits, hopening,
    hstagedLauncher, clearingEdits_congr h.start_dist, hlibraries, hname, hjson, hstored]

/-- No edit is made at a launcher in a directory apart: an edit inside the directory would be of another
name. -/
private theorem candidate_kept (h : request.PackagedBy environmentPath fs fs' launcher) {l : Location}
    (hapart : request.Apart fs l) :
    ∀ edit ∈ request.packagingEdits launcher fs,
      ¬ edit.Replaces (l ++ [Utf8.encode launcherName]) := by
  obtain ⟨hhome, hinside⟩ := hapart
  intro edit hedit hr
  rcases List.mem_append.mp hedit with hedit | hedit
  · obtain ⟨staged, hprepared, _⟩ := h.prepared
    rw [hprepared.home_eq] at hhome
    obtain ⟨hroot, hne⟩ := below_root_of_replaces hedit hr
    exact hhome ((List.prefix_concat_iff.mp hroot).resolve_left hne.symm)
  · have hends : ∀ {n : Name}, n ≠ Utf8.encode launcherName →
        fs.place request.distDir n <+: l ++ [Utf8.encode launcherName] →
        fs.place request.distDir n <+: l := by
      intro n hn hp
      refine (List.prefix_concat_iff.mp hp).resolve_left fun heq => hn ?_
      exact (List.cons.inj (List.append_inj' heq rfl).2).1
    rcases (h.inside edit hedit).mono hr.site_above with hp | hp
    · exact hinside (.inl (hends (by decide) hp))
    · exact hinside (.inr (hends (by decide) hp))

theorem find_candidate_iff (h : request.PackagedBy environmentPath fs fs' launcher) {dir : Path}
    (hup : Step.up ∉ dir.moves) (hclear : request.Clear fs dir) {edits : List Edit}
    (hedited : EditedBy edits fs made)
    (hsub : ∀ edit ∈ edits, edit ∈ request.packagingEdits launcher fs) {l : Location} {mode : Mode}
    {content : Bytes} :
    made.find .follow (dir / launcherName) = .ok (some l, .file mode content) ↔
      fs.find .follow (dir / launcherName) = .ok (some l, .file mode content) := by
  have hstart : dir.isAbsolute = true ∨ SameStart fs made := by
    cases ha : dir.isAbsolute with
    | true => exact .inl rfl
    | false =>
      refine .inr (hedited.sameStart fun edit hedit hremoved => ?_)
      exact h.not_replaces (hclear _ (workingDir_mem_trail ha)) edit (hsub edit hedit)
        hremoved.replaces
  by_cases hlost : dir.isAbsolute = true ∨ fs.lostLevels = 0
  · refine hedited.find_file_iff h.links isEntryName_launcherName hup
      (hstart.imp_left (Path.isAbsolute_entry dir _ isEntryName_launcherName).trans)
      fun edit hedit => ?_
    rw [down_entry isEntryName_launcherName, ← h.links.destination_eq_down hup hlost]
    exact h.candidate_kept (hclear _ (destination_mem_trail fs dir)) edit (hsub edit hedit)
  · -- Nothing is found from where a removed directory was.
    have hsame := hstart.resolve_left fun ha => hlost (.inl ha)
    constructor
    · intro hf
      have hmade := (hedited.linkless h.links).not_lost_of_find isEntryName_launcherName hup hf
      rw [hsame.2] at hmade
      exact absurd hmade hlost
    · intro hf
      exact absurd (h.links.not_lost_of_find isEntryName_launcherName hup hf) hlost

/-- When both runs look for a launcher, the candidates lead to the same files. -/
theorem find_candidates_iff (h : request.PackagedBy environmentPath fs fs' launcher)
    (hsearch : ∀ dir ∈ (request.launcherSearch environmentPath).dirs,
      Step.up ∉ dir.moves ∧ request.Clear fs dir) {cleared cleared' : FileSystem}
    (hopened : EditedBy (request.openingEdits fs) fs cleared)
    (hopened' : EditedBy (request.openingEdits fs') fs' cleared') {p : Path}
    (hp : p ∈ (request.launcherSearch environmentPath).candidates) {l : Location} {mode : Mode}
    {content : Bytes} :
    cleared'.find .follow p = .ok (some l, .file mode content) ↔
      cleared.find .follow p = .ok (some l, .file mode content) := by
  obtain ⟨dir, hdir, rfl⟩ := List.mem_map.mp hp
  obtain ⟨hup, hclear⟩ := hsearch dir hdir
  have hsub : ∀ edit ∈ request.openingEdits fs, edit ∈ request.packagingEdits launcher fs :=
    fun edit hedit => List.mem_append_left _ (List.mem_append_left _ hedit)
  have hsub' : ∀ edit ∈ request.packagingEdits launcher fs ++ request.openingEdits fs,
      edit ∈ request.packagingEdits launcher fs :=
    fun edit hedit => (List.mem_append.mp hedit).elim id (hsub edit)
  rw [h.openingEdits_eq.1] at hopened'
  exact (h.find_candidate_iff hup hclear (h.edited.append hopened') hsub').trans
    (h.find_candidate_iff hup hclear hopened hsub).symm

theorem launcher_eq (h : request.PackagedBy environmentPath fs fs' launcher)
    (hsearch : ∀ dir ∈ (request.launcherSearch environmentPath).dirs,
      Step.up ∉ dir.moves ∧ request.Clear fs dir) {fs'' : FileSystem} {launcher' : DirEntry}
    (h' : request.PackagedBy environmentPath fs' fs'' launcher') : launcher' = launcher := by
  obtain ⟨staged, hprepared, _⟩ := h.prepared
  obtain ⟨staged', hprepared', _⟩ := h'.prepared
  obtain ⟨cleared, source, hopened, hfound, he⟩ := hprepared.found
  obtain ⟨cleared', source', hopened', hfound', he'⟩ := hprepared'.found
  have hsame : ∀ p ∈ (request.launcherSearch environmentPath).candidates,
      cleared'.isFile p = cleared.isFile p := by
    intro p hp
    rw [Bool.eq_iff_iff, isFile_iff, isFile_iff]
    exact exists_congr fun l => exists₂_congr fun mode content =>
      h.find_candidates_iff hsearch hopened hopened' hp
  obtain rfl : source' = source := by
    rw [List.find?_congr hsame, hfound] at hfound'
    exact (Option.some.inj hfound').symm
  obtain ⟨l, mode, content, hf⟩ := isFile_iff.mp (List.find?_some hfound)
  have hf' := (h.find_candidates_iff hsearch hopened hopened' (List.mem_of_find?_eq_some hfound)).mpr hf
  obtain ⟨_, ⟨k, hr⟩, hl⟩ := find_follow_iff.mp hf
  obtain ⟨_, ⟨k', hr'⟩, hl'⟩ := find_follow_iff.mp hf'
  rw [hr.destination_eq, hl] at he
  rw [hr'.destination_eq, hl'] at he'
  exact (Option.some.inj he').symm.trans (Option.some.inj he)

theorem not_inside_workingDir (h : request.PackagedBy environmentPath fs fs' launcher)
    (hcwd : fs.isDirAt fs.workingDir) (hlost : fs'.lostLevels = 0) :
    ¬ Inside fs request.distDir fs.workingDir := by
  have hup : Step.up ∉ request.distDir.moves :=
    ((straight_entry_iff isEntryName_lib).mp h.places.lib).2.2.1
  have hstart : request.distDir.isAbsolute = true ∨ fs.lostLevels = 0 := by
    refine h.start_dist.imp_right fun hsame => ?_
    rw [← hsame.2]
    exact hlost
  have hkept := h.not_removes hcwd hlost
  rw [inside_iff_down h.links hup hstart]
  rintro (hp | hp)
  · refine hkept (.renew (fs.down (libDirOf request.distDir))) ?_ hp
    simp [packagingEdits, installEdits, clearingEdits]
  · refine hkept (.renew (fs.down (binDirOf request.distDir))) ?_ hp
    simp [packagingEdits, installEdits, clearingEdits]

private theorem again_start_build (h : request.PackagedBy environmentPath fs fs' launcher)
    (hcwd : fs.isDirAt fs.workingDir) :
    request.buildDir.isAbsolute = true ∨ ¬ Inside fs' request.distDir fs'.workingDir := by
  rcases h.start_build with ha | hsame
  · exact .inl ha
  · have hlost := h.manifestPath.not_lost
    rw [request.layout.isAbsolute_manifestPath] at hlost
    refine hlost.imp_right fun hlost => ?_
    rw [h.inside_iff, hsame.1]
    exact h.not_inside_workingDir hcwd hlost

private theorem again_start_dist (h : request.PackagedBy environmentPath fs fs' launcher)
    (hcwd : fs.isDirAt fs.workingDir) :
    request.distDir.isAbsolute = true ∨
      ¬ fs'.down request.layout.stagingDir <+: fs'.workingDir := by
  rcases h.start_dist with ha | hsame
  · exact .inl ha
  · refine h.places.not_lost.imp_right fun hlost hp => ?_
    rw [BuildLayout.down_stagingDir_congr h.start_build, hsame.1] at hp
    refine h.not_removes hcwd hlost (.renew (fs.down request.layout.stagingDir)) ?_ hp
    simp [packagingEdits, buildEdits, openingEdits]

private theorem candidate_again (h : request.PackagedBy environmentPath fs fs' launcher)
    (hsearch : ∀ dir ∈ (request.launcherSearch environmentPath).dirs,
      Step.up ∉ dir.moves ∧ request.Clear fs dir) {cleared' : FileSystem}
    (hopened' : EditedBy (request.openingEdits fs') fs' cleared') :
    ∃ candidate ∈ (request.launcherSearch environmentPath).candidates,
      cleared'.isFile candidate = true := by
  obtain ⟨staged, hprepared, _⟩ := h.prepared
  obtain ⟨cleared, source, hopened, hfound, _⟩ := hprepared.found
  obtain ⟨l, mode, content, hf⟩ := isFile_iff.mp (List.find?_some hfound)
  have hmem := List.mem_of_find?_eq_some hfound
  have hf' := (h.find_candidates_iff hsearch hopened hopened' hmem).mpr hf
  exact ⟨source, hmem, isFile_iff.mpr ⟨l, mode, content, hf'⟩⟩

theorem ready (h : request.PackagedBy environmentPath fs fs' launcher)
    (hvalid : ProgramName.validate request.programName = .ok ())
    (hcwd : fs.isDirAt fs.workingDir) (hsupplied : request.Supplied fs)
    (hsearch : ∀ dir ∈ (request.launcherSearch environmentPath).dirs,
      Step.up ∉ dir.moves ∧ request.Clear fs dir) : request.Ready environmentPath fs' where
  links := h.edited.linkless h.links
  validName := hvalid
  isEntryName := h.isEntryName
  supplied := h.supplied hsupplied
  isFile := h.isFile
  manifestPath := h.manifestPath
  stagedLauncher := h.stagedLauncher
  places := h.places
  build_fits := by
    rw [BuildLayout.down_manifestDir_congr h.start_build]
    exact fits_dirs_of_isDirAt h.isDirAt_manifestDir
  manifest_fits := by
    rw [BuildLayout.down_manifestPath_congr h.start_build]
    exact .inr ⟨_, _, h.entry?_manifestPath⟩
  dist_fits := by
    rw [down_congr h.start_dist]
    exact fits_dirs_of_isDirAt h.isDirAt_distDir
  manifest_not_above := by
    rw [BuildLayout.down_manifestPath_congr h.start_build, down_congr h.start_dist]
    exact h.not_above ⟨_, _, h.entry?_manifestPath⟩
  launcher_not_above := by
    rw [BuildLayout.down_stagedLauncher_congr h.start_build, down_congr h.start_dist]
    exact h.not_above h.isFile_stagedLauncher
  outside_manifest := by
    rw [h.inside_iff, BuildLayout.down_manifestPath_congr h.start_build]
    exact h.outside_manifest
  outside_launcher := by
    rw [h.inside_iff, BuildLayout.down_stagedLauncher_congr h.start_build]
    exact h.outside_launcher
  start_build := h.again_start_build hcwd
  start_dist := h.again_start_dist hcwd
  launcher _ hopened' := h.candidate_again hsearch hopened'

end PackagedBy

/-- Packaging the same request again, in the state that the first run has left, ends with the same
distribution and leaves every entry as it is, with its content and its permission bits. The artifacts
and the directories of the search path must be apart from the outputs of the build and from the two
directories of the distribution; and, as in any state of a process, where relative paths start must be a
directory. -/
theorem package_again (request : PackagingRequest) (environmentPath : Option Bytes)
    (w w' : Workspace) (d : Distribution) (hlinks : Linkless w.files)
    (hcwd : w.files.isDirAt w.files.workingDir)
    (hartifacts : ∀ a ∈ request.classpath, ∃ fs p, Artifact.atPath fs p = .ok a)
    (hbuild : Step.up ∉ request.buildDir.steps) (hdist : Step.up ∉ request.distDir.steps)
    (hsearch : ∀ dir ∈ (request.launcherSearch environmentPath).dirs, Step.up ∉ dir.steps)
    (hapart : ∀ a ∈ request.classpath, request.Clear w.files a.path)
    (hsearchapart : ∀ dir ∈ (request.launcherSearch environmentPath).dirs,
      request.Clear w.files dir)
    (h : request.package environmentPath w = .ok d w') :
    ∃ w'', request.package environmentPath w' = .ok d w'' ∧
      ∀ u, w''.files.entry? u = w'.files.entry? u := by
  have hup : ∀ {p : Path}, Step.up ∉ p.steps → Step.up ∉ p.moves :=
    (Path.up_notMem_steps_iff _).mp
  have hsupplied : request.Supplied w.files := supplied_of_atPath hartifacts hapart
  have hdirs : ∀ dir ∈ (request.launcherSearch environmentPath).dirs,
      Step.up ∉ dir.moves ∧ request.Clear w.files dir :=
    fun dir hdir => ⟨hup (hsearch dir hdir), hsearchapart dir hdir⟩
  obtain ⟨rfl, launcher, hfirst⟩ := package_edited hlinks (hup hbuild) (hup hdist) hsupplied h
  obtain ⟨w'', hagain⟩ :=
    package_succeeds (hfirst.ready (package_ok_iff.mp h).1 hcwd hsupplied hdirs)
  obtain ⟨_, launcher', hsecond⟩ := package_edited (hfirst.edited.linkless hlinks) (hup hbuild)
    (hup hdist) (hfirst.supplied hsupplied) hagain
  have hedited := hsecond.edited
  rw [hfirst.launcher_eq hdirs hsecond, hfirst.packagingEdits_eq hsupplied] at hedited
  refine ⟨w'', hagain, fun u => ?_⟩
  rw [hedited.entry?, hfirst.edited.entry?, Edit.applyAll_applyAll]

theorem package_again_sampleFiles :
    ∃ d w', sampleRequest.package none ⟨sampleFiles, []⟩ = .ok d w' ∧
      ∃ w'', sampleRequest.package none w' = .ok d w'' ∧
        ∀ u, w''.files.entry? u = w'.files.entry? u := by
  have hlinks : Linkless sampleFiles := linkless_of_areLinkless (by decide +kernel)
  have hartifacts : ∀ a ∈ sampleRequest.classpath, Artifact.atPath sampleFiles a.path = .ok a := by
    decide +kernel
  obtain ⟨d, w', h⟩ := package_sampleFiles
  have hagain := package_again sampleRequest none ⟨sampleFiles, []⟩ w' d hlinks (by decide)
    (fun a ha => ⟨_, _, hartifacts a ha⟩) (by decide +kernel) (by decide +kernel) (by decide +kernel)
    (by decide +kernel) (by decide +kernel) h
  exact ⟨d, w', h, hagain⟩

end PackagingRequest

end LaunchDist
