import LaunchDist.Proofs.Packaging.Preparing
/-!
# Packaging as edits

Where no link stands, all that packaging does is a list of edits that depends on the files before, and on
the launcher that is found once the manifest has been written and the staging directory been made anew.
-/
namespace LaunchDist

open FileSystem
open LaunchDist.Path (Step IsEntryName)

namespace PackagingRequest

open LaunchDist.Distribution

/-- The edits that come before the search for a launcher. -/
def openingEdits (request : PackagingRequest) (fs : FileSystem) : List Edit :=
  request.manifest.storeEdits request.layout fs ++ [.renew (fs.down request.layout.stagingDir)]

/-- The edits that make the outputs of a build, with the launcher that has been found. -/
def buildEdits (request : PackagingRequest) (launcher : DirEntry) (fs : FileSystem) : List Edit :=
  request.openingEdits fs ++ [.put (fs.down request.layout.stagedLauncher) (some launcher)]

/-- The edits that install a build. -/
def installEdits (request : PackagingRequest) (launcher : DirEntry) (fs : FileSystem) : List Edit :=
  clearingEdits request.distDir fs ++ libraryEdits request.distDir request.classpath fs ++
    [.put (fs.down (binDirOf request.distDir / request.programName)) (some launcher)] ++
    [.put (fs.down (binDirOf request.distDir / Manifest.fileName))
      (some (request.manifest.storedEntry request.layout fs))]

/-- All that packaging does to the files. -/
def packagingEdits (request : PackagingRequest) (launcher : DirEntry) (fs : FileSystem) : List Edit :=
  request.buildEdits launcher fs ++ request.installEdits launcher fs

section Outputs

variable {request : PackagingRequest} {launcher : DirEntry} {fs : FileSystem} {edit : Edit} {u : Location}

theorem mem_openingEdits (h : edit ∈ request.openingEdits fs) :
    edit = .dirs (fs.down request.layout.manifestDir) ∨
      edit = .put (fs.down request.layout.manifestPath)
        (some (request.manifest.storedEntry request.layout fs)) ∨
      edit = .renew (fs.down request.layout.stagingDir) := by
  simpa [openingEdits, Manifest.storeEdits, or_assoc] using h

theorem mem_buildEdits (h : edit ∈ request.buildEdits launcher fs) :
    edit = .dirs (fs.down request.layout.manifestDir) ∨
      edit = .put (fs.down request.layout.manifestPath)
        (some (request.manifest.storedEntry request.layout fs)) ∨
      edit = .renew (fs.down request.layout.stagingDir) ∨
      edit = .put (fs.down request.layout.stagedLauncher) (some launcher) := by
  simpa [buildEdits, openingEdits, Manifest.storeEdits, or_assoc] using h

theorem below_root_of_replaces (hedit : edit ∈ request.buildEdits launcher fs) (h : edit.Replaces u) :
    fs.down request.layout.root <+: u ∧ u ≠ fs.down request.layout.root := by
  rcases mem_buildEdits hedit with rfl | rfl | rfl | rfl
  · exact h.elim
  · obtain rfl : u = _ := h
    rw [request.layout.down_manifestPath]
    exact ⟨List.prefix_append _ _, by simp⟩
  · have hbelow : fs.down request.layout.stagingDir <+: u := h
    rw [request.layout.down_stagingDir] at hbelow
    refine ⟨(List.prefix_append _ _).trans hbelow, ?_⟩
    rintro rfl
    have hlen := hbelow.length_le
    rw [List.length_append, List.length_singleton] at hlen
    omega
  · obtain rfl : u = _ := h
    rw [request.layout.down_stagedLauncher]
    exact ⟨List.prefix_append _ _, by simp⟩

theorem below_stagingDir_of_removes (hedit : edit ∈ request.buildEdits launcher fs)
    (h : edit.Removes u) : fs.down request.layout.stagingDir <+: u := by
  rcases mem_buildEdits hedit with rfl | rfl | rfl | rfl
  · exact h.elim
  · exact h.elim
  · exact h
  · exact h.elim

end Outputs

/-- The state once the outputs of a build have been made, with the launcher that has been found. -/
structure Prepared (request : PackagingRequest) (environmentPath : Option Bytes)
    (fs staged : FileSystem) (launcher : DirEntry) : Prop where
  links : Linkless fs
  isFile : IsFile (some launcher)
  found : ∃ cleared source, EditedBy (request.openingEdits fs) fs cleared ∧
    (request.launcherSearch environmentPath).candidates.find? cleared.isFile = some source ∧
    cleared.entry? (cleared.destination source) = some launcher
  edited : EditedBy (request.buildEdits launcher fs) fs staged
  start : request.buildDir.isAbsolute = true ∨ SameStart fs staged
  manifestPath : Straight staged request.layout.manifestPath
  stagedLauncher : Straight staged request.layout.stagedLauncher

section Prepared

variable {request : PackagingRequest} {environmentPath : Option Bytes} {launcher : DirEntry}
  {w written w' : Workspace} {p q : Path}

theorem prepare_edited (hlinks : Linkless w.files) (hup : Step.up ∉ request.buildDir.moves)
    (hstore : request.manifest.store request.layout w = .ok p written)
    (hstage : (request.launcherSearch environmentPath).stage request.layout written = .ok q w') :
    p = request.layout.manifestPath ∧ q = request.layout.stagedLauncher ∧
      ∃ launcher, request.Prepared environmentPath w.files w'.files launcher := by
  obtain ⟨rfl, hpm, hwritten⟩ := Manifest.store_edited hlinks hup hstore
  have huproot : Step.up ∉ request.layout.root.moves :=
    BuildLayout.up_notMem_root ((Path.up_notMem_steps_iff _).mpr hup)
  obtain ⟨rfl, cleared, source, mode, content, hrenewed, hsource, he, hpl, hput⟩ :=
    LauncherSearch.stage_edited (hwritten.linkless hlinks) rfl huproot hstage
  have hsame : SameStart w.files written.files :=
    hwritten.sameStart (by simp [Manifest.storeEdits, Edit.Removes])
  have hput_same : SameStart cleared w'.files := hput.sameStart (by simp [Edit.Removes])
  have habs := request.layout.isAbsolute_stagedLauncher
  have hcleared : request.buildDir.isAbsolute = true ∨ SameStart w.files cleared := by
    have hlost := hpl.not_lost
    rw [habs] at hlost
    exact hlost.imp_right fun h => hsame.trans (hrenewed.sameStart_of_not_lost h)
  have hstart : request.buildDir.isAbsolute = true ∨ SameStart w.files w'.files :=
    hcleared.imp_right (·.trans hput_same)
  have hopened : EditedBy (request.openingEdits w.files) w.files cleared := by
    rw [down_congr (.inr hsame)] at hrenewed
    exact hwritten.append hrenewed
  have hbuilt : EditedBy (request.buildEdits (.file mode content) w.files) w.files w'.files := by
    rw [down_congr (by rw [habs]; exact hcleared)] at hput
    exact hopened.append hput
  refine ⟨rfl, rfl, .file mode content, hlinks, ⟨mode, content, rfl⟩,
    ⟨cleared, source, hopened, hsource, he⟩, hbuilt, hstart, ?_, hput.straight hpl (.inr hput_same)⟩
  exact hbuilt.straight hpm (hstart.imp_left request.layout.isAbsolute_manifestPath.trans)

namespace Prepared

variable {fs staged : FileSystem}

theorem entry?_manifest (h : request.Prepared environmentPath fs staged launcher) :
    staged.entry? (fs.down request.layout.manifestPath) =
      some (request.manifest.storedEntry request.layout fs) := by
  rw [h.edited.entry?, buildEdits, openingEdits, Manifest.storeEdits]
  change (Edit.put _ _).apply ((Edit.renew _).apply ((Edit.put _ _).apply _)) _ = _
  rw [Edit.apply_put, Edit.apply_renew, Edit.apply_put, request.layout.down_manifestPath,
    request.layout.down_stagingDir, request.layout.down_stagedLauncher, if_neg, if_neg, if_neg,
    if_pos rfl]
  · rw [List.prefix_append_right_inj]
    decide
  · rw [List.prefix_append_right_inj]
    decide
  · rw [List.append_right_inj]
    decide

theorem entry?_launcher (h : request.Prepared environmentPath fs staged launcher) :
    staged.entry? (fs.down request.layout.stagedLauncher) = some launcher := by
  rw [h.edited.entry?, buildEdits, Edit.applyAll_append]
  change (Edit.put _ _).apply _ _ = _
  rw [Edit.apply_put, if_pos rfl]

theorem atPath_manifest (h : request.Prepared environmentPath fs staged launcher) :
    Manifest.atPath staged request.layout.manifestPath = .ok request.manifest := by
  have hup := ((straight_entry_iff isEntryName_manifest).mp h.manifestPath).2.2.1
  have hf : staged.find .follow request.layout.manifestPath =
      .ok (some (staged.down request.layout.manifestPath),
        request.manifest.storedEntry request.layout fs) := by
    refine ((h.edited.linkless h.links).find_entry_iff (by decide) isEntryName_manifest hup).mpr
      ⟨h.manifestPath, rfl, ?_⟩
    exact (congrArg _ (BuildLayout.down_manifestPath_congr h.start)).trans h.entry?_manifest
  exact Manifest.atPath_of_find hf

/-- The outputs have been made where the build directory led before. -/
theorem home_eq (h : request.Prepared environmentPath fs staged launcher) :
    request.layout.home fs = fs.down request.layout.root := by
  have hup : Step.up ∉ request.buildDir.moves :=
    BuildLayout.up_notMem_buildDir h.manifestPath.up_notMem
  have hlost : request.buildDir.isAbsolute = true ∨ fs.lostLevels = 0 := by
    have hlost := h.manifestPath.not_lost
    rw [request.layout.isAbsolute_manifestPath] at hlost
    rcases h.start with ha | hsame
    · exact .inl ha
    · rw [hsame.2] at hlost
      exact hlost
  exact h.links.place_eq_down hup hlost isEntryName_launcherName

end Prepared

end Prepared

/-- Whether a location is neither among the outputs of a build nor inside its distribution. -/
def Apart (request : PackagingRequest) (fs : FileSystem) (u : Location) : Prop :=
  ¬ request.layout.home fs <+: u ∧ ¬ Inside fs request.distDir u

instance (request : PackagingRequest) (fs : FileSystem) (u : Location) :
    Decidable (request.Apart fs u) :=
  inferInstanceAs (Decidable (_ ∧ _))

/-- Whether the way of a path keeps apart from a build and from its distribution. -/
def Clear (request : PackagingRequest) (fs : FileSystem) (p : Path) : Prop :=
  ∀ u ∈ fs.trail p, request.Apart fs u

instance (request : PackagingRequest) (fs : FileSystem) (p : Path) :
    Decidable (request.Clear fs p) :=
  inferInstanceAs (Decidable (∀ u ∈ fs.trail p, request.Apart fs u))

/-- Artifacts that neither a build nor its distribution replaces. -/
structure Supplied (request : PackagingRequest) (fs : FileSystem) : Prop where
  isEntryName : ∀ a ∈ request.classpath, IsEntryName (Utf8.encode a.fileName)
  isAbsolute : ∀ a ∈ request.classpath, a.path.isAbsolute = true
  clear : ∀ a ∈ request.classpath, request.Clear fs a.path

/-- What is known of packaging that has been done by edits. -/
structure PackagedBy (request : PackagingRequest) (environmentPath : Option Bytes)
    (fs fs' : FileSystem) (launcher : DirEntry) : Prop where
  isEntryName : IsEntryName (Utf8.encode request.programName)
  prepared : ∃ staged, request.Prepared environmentPath fs staged launcher ∧
    EditedBy (request.installEdits launcher fs) staged fs'
  inside : ∀ edit ∈ request.installEdits launcher fs, Inside fs request.distDir edit.site
  isFile : ∀ a ∈ request.classpath, fs'.isFile a.path = true
  start_build : request.buildDir.isAbsolute = true ∨ SameStart fs fs'
  start_dist : request.distDir.isAbsolute = true ∨ SameStart fs fs'
  manifestPath : Straight fs' request.layout.manifestPath
  stagedLauncher : Straight fs' request.layout.stagedLauncher
  places : Places fs' request.distDir request.inputs
  outside_manifest : ¬ Inside fs request.distDir (fs.down request.layout.manifestPath)
  outside_launcher : ¬ Inside fs request.distDir (fs.down request.layout.stagedLauncher)

section Run

variable {request : PackagingRequest} {environmentPath : Option Bytes} {launcher : DirEntry}
  {fs staged fs' : FileSystem} {w w' : Workspace} {d : Distribution} {u : Location}

theorem Apart.not_replaces (h : request.Apart fs u)
    (hprepared : request.Prepared environmentPath fs staged launcher) :
    ∀ edit ∈ request.buildEdits launcher fs, ¬ edit.Replaces u := by
  intro edit hedit hr
  apply h.1
  rw [hprepared.home_eq]
  exact (below_root_of_replaces hedit hr).1

theorem supplied_of_atPath
    (hartifacts : ∀ a ∈ request.classpath, ∃ fs p, Artifact.atPath fs p = .ok a)
    (hclear : ∀ a ∈ request.classpath, request.Clear fs a.path) : request.Supplied fs where
  isEntryName := isEntryName_of_artifacts hartifacts
  isAbsolute a ha := by
    obtain ⟨_, _, hat⟩ := hartifacts a ha
    exact isAbsolute_of_atPath hat
  clear := hclear

namespace Prepared

theorem dist_start (h : request.Prepared environmentPath fs staged launcher)
    (hlost : request.distDir.isAbsolute = true ∨ staged.lostLevels = 0) :
    request.distDir.isAbsolute = true ∨ SameStart fs staged :=
  hlost.imp_right h.edited.sameStart_of_not_lost

theorem outsideLibraries (h : request.Prepared environmentPath fs staged launcher)
    (hsupplied : request.Supplied fs)
    (hdist : request.distDir.isAbsolute = true ∨ SameStart fs staged) :
    OutsideLibraries staged request.distDir request.classpath where
  isEntryName := hsupplied.isEntryName
  outside a ha := by
    have habs := hsupplied.isAbsolute a ha
    refine ⟨habs, fun u hu => ?_⟩
    rw [inside_congr h.edited h.links hdist]
    rw [h.edited.trail_eq h.links (.inl habs)] at hu
    exact (hsupplied.clear a ha u hu).2

/-- An output is a source of the distribution, as it is in no directory of such a name. -/
theorem plainSource (h : request.Prepared environmentPath fs staged launcher) {p : Path} {s t : Name}
    (hp : Straight staged p) (hdown : staged.down p = staged.down request.layout.root ++ [s, t])
    (hs : ¬ IsPart s) : PlainSource staged request.distDir p where
  plain := .inr hp.up_notMem
  source := by
    have hlinks := h.edited.linkless h.links
    refine ⟨fun u _ _ => hlinks u, .inr (.inr hp.up_notMem), fun _ l d n hd heq => hs ?_⟩
    rw [hlinks.destination_eq_down hp.up_notMem hp.not_lost, hdown, List.append_assoc] at heq
    obtain ⟨_, heq⟩ := List.append_inj' heq rfl
    rwa [(List.cons.inj heq).1]

/-- What is assembled are the outputs and the artifacts as they were before. -/
theorem assemblyEdits_eq (h : request.Prepared environmentPath fs staged launcher)
    (hsupplied : request.Supplied fs)
    (hassembled : AssembledBy request.distDir request.inputs staged fs') :
    assemblyEdits request.distDir request.inputs staged = request.installEdits launcher fs := by
  have hdist := h.dist_start hassembled.places.not_lost
  have hlinks := h.edited.linkless h.links
  have hfiles : ∀ a ∈ request.classpath, IsFile (staged.entry? (staged.destination a.path)) := by
    intro a ha
    apply hassembled.edited.fits.isFile
    refine List.mem_append_left _ (List.mem_append_left _ (List.mem_append_right _ ?_))
    exact List.mem_map_of_mem ha
  have hlibraries := libraryEdits_congr h.edited h.links hdist hsupplied.isEntryName
    hsupplied.isAbsolute
    (fun a ha => (hsupplied.clear a ha _ (destination_mem_trail fs a.path)).not_replaces h) hfiles
  have hlauncher : staged.entry? (staged.destination request.layout.stagedLauncher) =
      some launcher := by
    rw [hlinks.destination_eq_down h.stagedLauncher.up_notMem h.stagedLauncher.not_lost,
      BuildLayout.down_stagedLauncher_congr h.start, h.entry?_launcher]
  have hmanifest : staged.entry? (staged.destination request.layout.manifestPath) =
      some (request.manifest.storedEntry request.layout fs) := by
    rw [hlinks.destination_eq_down h.manifestPath.up_notMem h.manifestPath.not_lost,
      BuildLayout.down_manifestPath_congr h.start, h.entry?_manifest]
  have hname : staged.down (binDirOf request.distDir / request.programName) =
      fs.down (binDirOf request.distDir / request.programName) :=
    down_part_congr "bin" isEntryName_bin hassembled.isEntryName hdist
  have hjson : staged.down (binDirOf request.distDir / Manifest.fileName) =
      fs.down (binDirOf request.distDir / Manifest.fileName) :=
    down_part_congr "bin" isEntryName_bin isEntryName_manifest hdist
  rw [assemblyEdits, installEdits, clearingEdits_congr hdist]
  simp only [inputs]
  rw [hlibraries, hlauncher, hmanifest, hname, hjson]

end Prepared

theorem package_edited (hlinks : Linkless w.files) (hbuild : Step.up ∉ request.buildDir.moves)
    (hdist : Step.up ∉ request.distDir.moves) (hsupplied : request.Supplied w.files)
    (h : request.package environmentPath w = .ok d w') :
    d = planned request.distDir request.inputs ∧
      ∃ launcher, request.PackagedBy environmentPath w.files w'.files launcher := by
  obtain ⟨_, p, written, q, staged, hstore, hstage, h⟩ := package_ok_iff.mp h
  obtain ⟨rfl, rfl, launcher, hprepared⟩ :=
    prepare_edited (w := request.started w) hlinks hbuild hstore hstage
  change request.Prepared environmentPath w.files staged.files launcher at hprepared
  change assemble request.distDir request.inputs staged = .ok d w' at h
  have hlinks' := hprepared.edited.linkless hlinks
  have hstart := hprepared.dist_start (not_lost_of_assemble hlinks' hdist h)
  obtain ⟨rfl, hassembled⟩ := assemble_edited hlinks' hdist
    (hprepared.outsideLibraries hsupplied hstart)
    (hprepared.plainSource hprepared.stagedLauncher (request.layout.down_stagedLauncher _) (by decide))
    (hprepared.plainSource hprepared.manifestPath (request.layout.down_manifestPath _) (by decide)) h
  have hedits := hprepared.assemblyEdits_eq hsupplied hassembled
  have hedited := hassembled.edited
  rw [hedits] at hedited
  have hinside : ∀ {v}, Inside staged.files request.distDir v ↔ Inside w.files request.distDir v :=
    inside_congr hprepared.edited hlinks hstart
  have hstart_manifest := hassembled.start_manifest
  have hstart_launcher : request.layout.stagedLauncher.isAbsolute = true ∨
      SameStart staged.files w'.files := by
    rw [request.layout.isAbsolute_stagedLauncher, ← request.layout.isAbsolute_manifestPath]
    exact hstart_manifest
  have houtside : ∀ {p : Path}, Straight staged.files p →
      p.isAbsolute = request.buildDir.isAbsolute →
      ¬ Inside staged.files request.distDir (staged.files.destination p) →
      ¬ Inside w.files request.distDir (w.files.down p) := by
    intro p hp habs hout hin
    have hstart_path : p.isAbsolute = true ∨ SameStart w.files staged.files := by
      rw [habs]
      exact hprepared.start
    apply hout
    rwa [hlinks'.destination_eq_down hp.up_notMem hp.not_lost, down_congr hstart_path, hinside]
  refine ⟨rfl, launcher, hassembled.isEntryName, ⟨_, hprepared, hedited⟩,
    fun edit hedit => ?_, hassembled.isFile, ?_, ?_,
    hedited.straight hprepared.manifestPath hstart_manifest,
    hedited.straight hprepared.stagedLauncher hstart_launcher,
    hassembled.places.mono hedited hassembled.start hassembled.isEntryName hsupplied.isEntryName,
    houtside hprepared.manifestPath request.layout.isAbsolute_manifestPath hassembled.outside_manifest,
    houtside hprepared.stagedLauncher request.layout.isAbsolute_stagedLauncher
      hassembled.outside_launcher⟩
  · rw [← hedits] at hedit
    exact hinside.mp (hassembled.inside edit hedit)
  · rcases hprepared.start with ha | hsame
    · exact .inl ha
    · exact hstart_manifest.imp request.layout.isAbsolute_manifestPath.symm.trans hsame.trans
  · rcases hstart with ha | hsame
    · exact .inl ha
    · exact hassembled.start.imp_right hsame.trans

end Run

end PackagingRequest

end LaunchDist
