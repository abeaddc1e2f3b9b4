import LaunchDist.Proofs.FileSystem.Walkable
import LaunchDist.Proofs.Packaging.Progress
/-!
# The default distribution

By default a program is installed below its build directory, beside the outputs of the build. Packaging
then succeeds if no file stands where a directory is to be made and the paths are not too long: nothing
that one step makes anew holds what a later step needs.
-/
namespace LaunchDist

open FileSystem
open LaunchDist.Path (Step IsEntryName)

theorem usable_of_validate {name : String} (h : ProgramName.validate name = .ok ())
    (hslash : Path.separator ∉ Utf8.encode name) (hzero : 0 ∉ Utf8.encode name)
    (hlen : (Utf8.encode name).length ≤ maxNameLength) : Usable (Utf8.encode name) := by
  refine ⟨⟨hslash, ?_⟩, hzero, hlen⟩
  obtain ⟨_, _, n, rest, hsteps⟩ := Distribution.steps_of_validate h
  have hmoves : (Path.ofString name).moves = [Utf8.encode name].filterMap Path.step? := by
    rw [Path.moves, Path.segments]
    exact congrArg _ (List.splitOn_eq_singleton hslash)
  cases hstep : Path.step? (Utf8.encode name) with
  | none =>
    rw [List.filterMap_cons, hstep] at hmoves
    rcases (Path.ofString name).steps_cases with h' | h' <;> rw [h', hmoves] at hsteps <;> cases hsteps
  | some s =>
    rw [List.filterMap_cons, hstep] at hmoves
    obtain rfl : s = .name n := by
      rcases (Path.ofString name).steps_cases with h' | h' <;> rw [h', hmoves] at hsteps <;>
        exact (List.cons.inj hsteps).1
    rw [Path.eq_of_step?_eq_name hstep]

theorem usable_of_atPath {fs : FileSystem} {p : Path} {a : Artifact}
    (h : Artifact.atPath fs p = .ok a) : Usable (Utf8.encode a.fileName) := by
  obtain ⟨_, hl, _, hname⟩ := Distribution.atPath_ok h
  exact usable_of_canonicalize hl hname

namespace PackagingRequest

open LaunchDist.Distribution

/-- A request for the default distribution whose sources are in their places, with no file where a
directory is to be made. -/
structure Unobstructed (request : PackagingRequest) (environmentPath : Option Bytes)
    (fs : FileSystem) : Prop where
  links : Linkless fs
  distDir : request.distDir = request.layout.defaultDistDir request.programName
  up_notMem : Step.up ∉ request.buildDir.steps
  zero_notMem : 0 ∉ request.buildDir.bytes
  length_le : ∀ n ∈ Path.namesOf request.buildDir.steps, n.length ≤ maxNameLength
  validName : ProgramName.validate request.programName = .ok ()
  separator_notMem_name : Path.separator ∉ Utf8.encode request.programName
  zero_notMem_name : 0 ∉ Utf8.encode request.programName
  name_length_le : (Utf8.encode request.programName).length ≤ maxNameLength
  artifacts : ∀ a ∈ request.classpath, ∃ before p, Artifact.atPath before p = .ok a
  isFile : ∀ a ∈ request.classpath, fs.isFile a.path = true
  clear : ∀ a ∈ request.classpath, request.Clear fs a.path
  /-- A directory of the search path that is not made anew holds a launcher. -/
  launcher : ∃ dir ∈ (request.launcherSearch environmentPath).dirs, Step.up ∉ dir.steps ∧
    ¬ fs.down request.layout.stagingDir <+: fs.down dir ∧ fs.isFile (dir / launcherName) = true
  /-- No file is in the build directory's place or above it. -/
  buildDir : ∀ u ∈ (fs.down request.buildDir).inits, ¬ IsFile (fs.entry? u)
  root : ¬ IsFile (fs.entry? (fs.down request.layout.root))
  manifestDir : ¬ IsFile (fs.entry? (fs.down request.layout.manifestDir))
  installDir : ¬ IsFile (fs.entry? (fs.down (request.buildDir / "install")))
  home : ¬ IsFile (fs.entry? (fs.down request.distDir))
  manifestPath : ¬ fs.isDirAt (fs.down request.layout.manifestPath)

/-- Whether no socket stands where a directory or the manifest is to be made. -/
def SocketFree (request : PackagingRequest) (fs : FileSystem) : Prop :=
  ∀ u ∈ (fs.down request.layout.manifestPath).inits ++ (fs.down request.distDir).inits,
    fs.entry? u ≠ some .socket

section Defaults

variable {request : PackagingRequest} {environmentPath : Option Bytes} {fs : FileSystem}

instance : Decidable (request.SocketFree fs) :=
  List.decidableBAll _ _

theorem SocketFree.entry?_ne (h : request.SocketFree fs) {u : Location}
    (hu : u <+: fs.down request.layout.manifestPath ∨ u <+: fs.down request.distDir) :
    fs.entry? u ≠ some .socket :=
  h u (by rwa [List.mem_append, List.mem_inits, List.mem_inits])

theorem usable_install : Usable (Utf8.encode "install") := by decide

theorem Unobstructed.usable_programName (h : request.Unobstructed environmentPath fs) :
    Usable (Utf8.encode request.programName) :=
  usable_of_validate h.validName h.separator_notMem_name h.zero_notMem_name h.name_length_le

private theorem open_of_not_isFile (hlinks : Linkless fs) {u : Location}
    (hfile : ¬ IsFile (fs.entry? u)) (hsocket : fs.entry? u ≠ some .socket) :
    fs.entry? u = none ∨ fs.entry? u = some .dir :=
  (hlinks.entry?_cases u).imp_right fun h =>
    h.resolve_right fun h => h.elim hsocket hfile

private theorem fits_below (hlinks : Linkless fs) {l : Location} {s t : Name}
    (hsockets : ∀ u, u <+: l ++ [s] ++ [t] → fs.entry? u ≠ some .socket)
    (habove : ∀ u ∈ l.inits, ¬ IsFile (fs.entry? u)) (hs : ¬ IsFile (fs.entry? (l ++ [s])))
    (ht : ¬ IsFile (fs.entry? (l ++ [s] ++ [t]))) :
    (Edit.dirs (l ++ [s] ++ [t])).Fits fs.entry? := by
  intro u hu
  refine open_of_not_isFile hlinks ?_ (hsockets u hu)
  rcases List.prefix_concat_iff.mp hu with rfl | hu
  · exact ht
  · rcases List.prefix_concat_iff.mp hu with rfl | hu
    · exact hs
    · exact habove u ((List.mem_inits _ _).mpr hu)

namespace Unobstructed

theorem isAbsolute_distDir (h : request.Unobstructed environmentPath fs) :
    request.distDir.isAbsolute = request.buildDir.isAbsolute := by
  rw [h.distDir]
  exact (Path.isAbsolute_entry _ _ h.usable_programName.isEntryName).trans
    (Path.isAbsolute_entry _ _ usable_install.isEntryName)

theorem down_distDir (h : request.Unobstructed environmentPath fs) :
    fs.down request.distDir =
      fs.down request.buildDir ++ [Utf8.encode "install"] ++ [Utf8.encode request.programName] := by
  rw [h.distDir]
  have hname : fs.down (request.layout.defaultDistDir request.programName) =
      fs.down (request.buildDir / "install") ++ [Utf8.encode request.programName] :=
    down_entry h.usable_programName.isEntryName
  rw [hname, down_entry usable_install.isEntryName]

section Walk

variable (h : request.Unobstructed environmentPath fs)
  (hstart : request.buildDir.isAbsolute = true ∨
    fs.lostLevels = 0 ∧ fs.isDirAt fs.workingDir)

include h hstart

theorem walkable_buildDir : Walkable fs request.buildDir where
  zero_notMem := h.zero_notMem
  up_notMem := (Path.up_notMem_steps_iff _).mp h.up_notMem
  not_lost := hstart.imp_right And.left
  length_le := by
    have hlen := h.length_le
    rwa [Path.namesOf_steps] at hlen
  start := by
    rw [startOf]
    split
    · exact isDirAt_nil fs
    · rename_i hrelative
      exact (hstart.resolve_left hrelative).2

theorem walkable_root : Walkable fs request.layout.root :=
  (h.walkable_buildDir hstart).entry (by decide)

theorem walkable_distDir : Walkable fs request.distDir := by
  rw [h.distDir]
  exact ((h.walkable_buildDir hstart).entry usable_install).entry h.usable_programName

theorem install_above {u : Location} (hin : Inside fs request.distDir u) :
    fs.down (request.buildDir / "install") <+: u := by
  have hwalk := h.walkable_distDir hstart
  have habove : fs.down (request.buildDir / "install") <+: fs.down request.distDir := by
    rw [h.down_distDir, down_entry usable_install.isEntryName]
    exact List.prefix_append _ _
  rw [inside_iff_down h.links hwalk.up_notMem hwalk.not_lost] at hin
  rcases hin with hin | hin
  · exact (habove.trans (prefix_down_entry isEntryName_lib)).trans hin
  · exact (habove.trans (prefix_down_entry isEntryName_bin)).trans hin

theorem not_inside {rest : Location} :
    ¬ Inside fs request.distDir (fs.down request.layout.root ++ rest) := by
  intro hin
  have hp := h.install_above hstart hin
  rw [down_entry usable_install.isEntryName, request.layout.down_root, List.append_assoc] at hp
  change _ <+: fs.down request.buildDir ++ _ at hp
  rw [List.prefix_append_right_inj, List.singleton_append, List.cons_prefix_cons] at hp
  exact absurd hp.1 (by decide)

end Walk

theorem not_above {rest : Location} (h : request.Unobstructed environmentPath fs) :
    ¬ fs.down request.layout.root ++ rest <+: fs.down request.distDir := by
  rw [h.down_distDir, request.layout.down_root, List.append_assoc, List.append_assoc]
  change ¬ fs.down request.buildDir ++ _ <+: _
  rw [List.prefix_append_right_inj, List.singleton_append, List.singleton_append,
    List.cons_prefix_cons]
  rintro ⟨heq, _⟩
  exact absurd heq (by decide)

private theorem not_replaces_candidate {dir : Path} {edit : Edit}
    (hout : ¬ fs.down request.layout.stagingDir <+: fs.down dir)
    (hedit : edit ∈ request.openingEdits fs) : ¬ edit.Replaces (fs.down (dir / launcherName)) := by
  have hends : ∀ {l m : Location} {n : Name}, n ≠ Utf8.encode launcherName →
      l ++ [Utf8.encode launcherName] ≠ m ++ [n] := by
    intro l m n hn heq
    exact hn (List.cons.inj (List.append_inj' heq rfl).2).1.symm
  rw [down_entry isEntryName_launcherName]
  rcases mem_openingEdits hedit with rfl | rfl | rfl
  · exact id
  · intro hr
    have hplace : fs.down request.layout.manifestPath =
        fs.down request.layout.manifestDir ++ [Utf8.encode Manifest.fileName] :=
      down_entry isEntryName_manifest
    exact hends (by decide) (Eq.trans hr hplace)
  · intro hr
    rcases List.prefix_concat_iff.mp hr with heq | hp
    · rw [request.layout.down_stagingDir] at heq
      exact hends (by decide) heq.symm
    · exact hout hp

theorem candidate_found (h : request.Unobstructed environmentPath fs) {cleared : FileSystem}
    (hopened : EditedBy (request.openingEdits fs) fs cleared) :
    ∃ candidate ∈ (request.launcherSearch environmentPath).candidates,
      cleared.isFile candidate = true := by
  obtain ⟨dir, hdir, hup, hout, hfile⟩ := h.launcher
  refine ⟨dir / launcherName, List.mem_map_of_mem hdir, ?_⟩
  have hstart : (dir / launcherName).isAbsolute = true ∨ SameStart fs cleared := by
    rw [Path.isAbsolute_entry dir _ isEntryName_launcherName]
    cases ha : dir.isAbsolute with
    | true => exact .inl rfl
    | false =>
      refine .inr (hopened.sameStart fun edit hedit hremoved => hout ?_)
      have hbuild : edit ∈ request.buildEdits .dir fs := List.mem_append_left _ hedit
      have hdown : fs.down dir = fs.workingDir ++ Path.namesOf dir.moves := by
        rw [down, startOf, if_neg (by rw [ha]; decide)]
      rw [hdown]
      exact (below_stagingDir_of_removes hbuild hremoved).trans (List.prefix_append _ _)
  obtain ⟨l, mode, content, hf⟩ := isFile_iff.mp hfile
  refine isFile_iff.mpr ⟨l, mode, content, ?_⟩
  have hup' : Step.up ∉ dir.moves := dir.up_notMem_steps_iff.mp hup
  exact (hopened.find_file_iff h.links isEntryName_launcherName hup' hstart
    fun edit hedit => not_replaces_candidate hout hedit).mpr hf

private theorem isTooLong_stagedLauncher (hlen : isTooLong request.layout.manifestPath = false) :
    isTooLong request.layout.stagedLauncher = false := by
  have hroot : ∀ {s : String}, IsEntryName (Utf8.encode s) →
      (request.layout.root / s).bytes =
        request.layout.root.bytes ++ Path.separator :: Utf8.encode s :=
    fun hs => Path.bytes_entry_entry _ _ isEntryName_launcherName hs
  have hmanifest : request.layout.manifestPath.bytes.length = request.layout.root.bytes.length + 31 := by
    have hbytes : request.layout.manifestPath.bytes =
        (request.layout.root / "manifest").bytes ++ Path.separator :: Utf8.encode Manifest.fileName :=
      Path.bytes_entry_entry _ _ isEntryName_manifestDir isEntryName_manifest
    rw [hbytes, hroot isEntryName_manifestDir, List.append_assoc, List.length_append]
    rfl
  have hlauncher : request.layout.stagedLauncher.bytes.length =
      request.layout.root.bytes.length + 26 := by
    have hbytes : request.layout.stagedLauncher.bytes =
        (request.layout.root / "launcher").bytes ++ Path.separator :: Utf8.encode launcherName :=
      Path.bytes_entry_entry _ _ isEntryName_stagingDir isEntryName_launcherName
    rw [hbytes, hroot isEntryName_stagingDir, List.append_assoc, List.length_append]
    rfl
  rw [isTooLong, decide_eq_false_iff_not] at hlen ⊢
  omega

theorem places (h : request.Unobstructed environmentPath fs)
    (hstart : request.buildDir.isAbsolute = true ∨
      fs.lostLevels = 0 ∧ fs.isDirAt fs.workingDir)
    (hlibraries : ∀ a ∈ request.classpath, isTooLong (libDirOf request.distDir / a.fileName) = false)
    (hlauncher : isTooLong (binDirOf request.distDir / request.programName) = false)
    (hmanifest : isTooLong (binDirOf request.distDir / Manifest.fileName) = false) :
    Places fs request.distDir request.inputs := by
  have hlib : Walkable fs (libDirOf request.distDir) := (h.walkable_distDir hstart).entry (by decide)
  have hbin : Walkable fs (binDirOf request.distDir) := (h.walkable_distDir hstart).entry (by decide)
  have hlibrary : ∀ a ∈ request.classpath, Straight fs (libDirOf request.distDir / a.fileName) := by
    intro a ha
    obtain ⟨_, _, hat⟩ := h.artifacts a ha
    exact hlib.straight_entry (usable_of_atPath hat) (hlibraries a ha)
  have hjson : Straight fs (binDirOf request.distDir / Manifest.fileName) :=
    hbin.straight_entry (by decide) hmanifest
  have hprogram : request.program ∈ request.classpath := List.mem_cons_self
  constructor
  · obtain ⟨_, _, hat⟩ := h.artifacts _ hprogram
    exact (hlibrary _ hprogram).parent (isEntryName_of_atPath hat)
      (Path.bytes_ne_nil_of_steps (Path.steps_entry _ _ isEntryName_lib))
  · exact hjson.parent isEntryName_manifest
      (Path.bytes_ne_nil_of_steps (Path.steps_entry _ _ isEntryName_bin))
  · exact hlibrary
  · exact hbin.straight_entry h.usable_programName hlauncher
  · exact hjson

/-- A relative build directory starts outside what is made anew below it. -/
private theorem start_outside (h : request.Unobstructed environmentPath fs)
    (hstart : request.buildDir.isAbsolute = true ∨
      fs.lostLevels = 0 ∧ fs.isDirAt fs.workingDir) :
    (request.buildDir.isAbsolute = true ∨ ¬ Inside fs request.distDir fs.workingDir) ∧
      (request.distDir.isAbsolute = true ∨
        ¬ fs.down request.layout.stagingDir <+: fs.workingDir) := by
  rw [h.isAbsolute_distDir]
  by_cases ha : request.buildDir.isAbsolute = true
  · exact ⟨.inl ha, .inl ha⟩
  · refine ⟨.inr fun hin => ha ?_, .inr fun hp => ha ?_⟩
    · have habs := isAbsolute_of_entry_above usable_install.isEntryName (h.install_above hstart hin)
      rwa [Path.isAbsolute_entry _ _ usable_install.isEntryName] at habs
    · have habs : request.layout.stagingDir.isAbsolute = true :=
        isAbsolute_of_entry_above isEntryName_stagingDir hp
      rwa [request.layout.isAbsolute_stagingDir] at habs

theorem ready (h : request.Unobstructed environmentPath fs) (hsockets : request.SocketFree fs)
    (hstart : request.buildDir.isAbsolute = true ∨
      fs.lostLevels = 0 ∧ fs.isDirAt fs.workingDir)
    (hlen : isTooLong request.layout.manifestPath = false)
    (hplaces : Places fs request.distDir request.inputs) : request.Ready environmentPath fs where
  links := h.links
  validName := h.validName
  isEntryName := h.usable_programName.isEntryName
  supplied := supplied_of_atPath h.artifacts h.clear
  isFile := h.isFile
  manifestPath := by
    have hdir : Walkable fs request.layout.manifestDir := (h.walkable_root hstart).entry (by decide)
    exact hdir.straight_entry (by decide) hlen
  stagedLauncher := by
    have hdir : Walkable fs request.layout.stagingDir := (h.walkable_root hstart).entry (by decide)
    exact hdir.straight_entry (by decide) (isTooLong_stagedLauncher hlen)
  places := hplaces
  build_fits := by
    have hdir := h.manifestDir
    have hroot := h.root
    have hbelow : ∀ u, u <+: fs.down request.layout.manifestDir → fs.entry? u ≠ some .socket :=
      fun u hu => hsockets.entry?_ne (.inl (hu.trans (prefix_down_entry isEntryName_manifest)))
    rw [request.layout.down_manifestDir, request.layout.down_root] at hdir hbelow ⊢
    rw [request.layout.down_root] at hroot
    exact fits_below h.links hbelow h.buildDir hroot hdir
  manifest_fits := by
    by_cases hfile : IsFile (fs.entry? (fs.down request.layout.manifestPath))
    · exact .inr hfile
    · have hopen := open_of_not_isFile h.links hfile (hsockets.entry?_ne (.inl (List.prefix_refl _)))
      exact .inl (hopen.resolve_right fun hdir => h.manifestPath ((isDirAt_iff _ _).mpr hdir))
  dist_fits := by
    have hinstall := h.installDir
    have hhome := h.home
    have hbelow := fun u (hu : u <+: fs.down request.distDir) => hsockets.entry?_ne (.inr hu)
    rw [h.down_distDir] at hhome hbelow ⊢
    rw [down_entry usable_install.isEntryName] at hinstall
    exact fits_below h.links hbelow h.buildDir hinstall hhome
  manifest_not_above := by
    rw [request.layout.down_manifestPath]
    exact h.not_above
  launcher_not_above := by
    rw [request.layout.down_stagedLauncher]
    exact h.not_above
  outside_manifest := by
    rw [request.layout.down_manifestPath]
    exact h.not_inside hstart
  outside_launcher := by
    rw [request.layout.down_stagedLauncher]
    exact h.not_inside hstart
  start_build := (h.start_outside hstart).1
  start_dist := (h.start_outside hstart).2
  launcher _ hopened := h.candidate_found hopened

end Unobstructed

/-- Packaging succeeds only where the manifest can be looked up. -/
theorem straight_of_package {w w' : Workspace} {d : Distribution} (hlinks : Linkless w.files)
    (hup : Step.up ∉ request.buildDir.steps) (h : request.package environmentPath w = .ok d w') :
    Straight w.files request.layout.manifestPath := by
  obtain ⟨_, _, _, _, _, hstore, _⟩ := package_ok_iff.mp h
  have hup' : Step.up ∉ request.buildDir.moves := (Path.up_notMem_steps_iff _).mp hup
  exact (Manifest.store_edited (w := request.started w) hlinks hup' hstore).2.1

/-- Packaging into the default distribution succeeds, whatever stands in the directories that it makes
anew. No socket may be in the way either, a relative build directory must start in a directory that still
exists, and no path may be longer than a look-up takes. -/
theorem package_default_succeeds (request : PackagingRequest) (environmentPath : Option Bytes)
    (w : Workspace) (h : request.Unobstructed environmentPath w.files)
    (hsockets : request.SocketFree w.files)
    (hstart : request.buildDir.isAbsolute = true ∨
      w.files.lostLevels = 0 ∧ w.files.isDirAt w.files.workingDir)
    (hstored : isTooLong request.layout.manifestPath = false)
    (hlibraries : ∀ a ∈ request.classpath, isTooLong (libDirOf request.distDir / a.fileName) = false)
    (hlauncher : isTooLong (binDirOf request.distDir / request.programName) = false)
    (hmanifest : isTooLong (binDirOf request.distDir / Manifest.fileName) = false) :
    ∃ w', request.package environmentPath w =
      .ok (planned request.distDir request.inputs) w' :=
  package_succeeds
    (h.ready hsockets hstart hstored (h.places hstart hlibraries hlauncher hmanifest))

private theorem exists_atPath (fs : FileSystem)
    (h : ∀ a ∈ request.classpath, Artifact.atPath fs a.path = .ok a) :
    ∀ a ∈ request.classpath, ∃ before p, Artifact.atPath before p = .ok a :=
  fun a ha => ⟨fs, a.path, h a ha⟩

def defaultRequest : PackagingRequest :=
  { sampleRequest with distDir := sampleRequest.layout.defaultDistDir "app" }

/-- The sources of the sample, with files and directories in the way of what is made anew. -/
def crowdedFiles : FileSystem where
  children := sampleFiles.children ++ [
    (Utf8.encode "build", .dir [
      (Utf8.encode launcherName, .dir [(Utf8.encode "launcher", .file 0o644 [])]),
      (Utf8.encode "install", .dir [(Utf8.encode "app", .dir [
        (Utf8.encode "lib", .file 0o644 []),
        (Utf8.encode "bin", .dir [(Utf8.encode "app", .dir [(Utf8.encode "old", .dir [])])])])])])]
  workingDir := []

theorem package_default_succeeds_crowdedFiles :
    ∃ w', defaultRequest.package none ⟨crowdedFiles, []⟩ =
      .ok (planned defaultRequest.distDir defaultRequest.inputs) w' := by
  have h : defaultRequest.Unobstructed none crowdedFiles := by
    constructor
    case links => exact linkless_of_areLinkless (by decide +kernel)
    case distDir => rfl
    case artifacts => exact exists_atPath crowdedFiles (by decide +kernel)
    all_goals decide +kernel
  exact package_default_succeeds defaultRequest none ⟨crowdedFiles, []⟩ h (by decide +kernel)
    (.inr (by decide)) (by decide +kernel) (by decide +kernel) (by decide +kernel) (by decide +kernel)

/-- A build directory whose path is so long that none is left for a manifest. -/
def deepLayout : BuildLayout :=
  ⟨⟨Utf8.encode "b" ++ List.replicate 4060 Path.separator⟩⟩

def deepRequest : PackagingRequest :=
  { sampleRequest with
    dependencies := []
    buildDir := deepLayout.buildDir
    distDir := deepLayout.defaultDistDir "app" }

/-- The sources of the sample, where relative paths start in a directory that has been removed. -/
def strandedFiles : FileSystem :=
  { sampleFiles with lostLevels := 1 }

def strandedRequest : PackagingRequest :=
  { defaultRequest with searchPath := some (Utf8.encode "/path") }

/-- The sources of the sample, with a socket in the place of the build directory. -/
def socketFiles : FileSystem where
  children := sampleFiles.children ++ [(Utf8.encode "build", .socket)]
  workingDir := []

/-- Without the three conditions packaging may fail, although no regular file is in the way. -/
theorem package_default_deep_stranded :
    (deepRequest.Unobstructed none sampleFiles ∧
      ∀ d w', deepRequest.package none ⟨sampleFiles, []⟩ ≠ .ok d w') ∧
    (strandedRequest.Unobstructed none strandedFiles ∧
      ∀ d w', strandedRequest.package none ⟨strandedFiles, []⟩ ≠ .ok d w') ∧
    defaultRequest.Unobstructed none socketFiles ∧
      ∀ d w', defaultRequest.package none ⟨socketFiles, []⟩ ≠ .ok d w' := by
  have hdeep : deepRequest.Unobstructed none sampleFiles := by
    constructor
    case links => exact linkless_of_areLinkless (by decide +kernel)
    case distDir => rfl
    case artifacts => exact exists_atPath sampleFiles (by decide +kernel)
    all_goals decide +kernel
  have hstranded : strandedRequest.Unobstructed none strandedFiles := by
    constructor
    case links => exact linkless_of_areLinkless (by decide +kernel)
    case distDir => rfl
    case artifacts => exact exists_atPath strandedFiles (by decide +kernel)
    all_goals decide +kernel
  have hsocket : defaultRequest.Unobstructed none socketFiles := by
    constructor
    case links => exact linkless_of_areLinkless (by decide +kernel)
    case distDir => rfl
    case artifacts => exact exists_atPath socketFiles (by decide +kernel)
    all_goals decide +kernel
  refine ⟨⟨hdeep, fun d w' h => ?_⟩, ⟨hstranded, fun d w' h => ?_⟩, hsocket, fun d w' h => ?_⟩
  · have hlong : isTooLong deepRequest.layout.manifestPath = true := by decide +kernel
    have hshort := (straight_of_package hdeep.links hdeep.up_notMem h).nameable.isTooLong
    rw [hlong] at hshort
    cases hshort
  · rcases (straight_of_package hstranded.links hstranded.up_notMem h).not_lost with ha | hlost
    · exact absurd ha (by decide +kernel)
    · exact absurd hlost (by decide)
  · obtain ⟨_, _, _, _, _, hstore, _⟩ := package_ok_iff.mp h
    have hfails : Action.succeeds (defaultRequest.manifest.store defaultRequest.layout
        (defaultRequest.started ⟨socketFiles, []⟩)) = false := by decide +kernel
    rw [hstore] at hfails
    cases hfails

end Defaults

end PackagingRequest

end LaunchDist
