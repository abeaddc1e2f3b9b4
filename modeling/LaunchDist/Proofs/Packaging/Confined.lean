import LaunchDist.Proofs.Distribution.Confined
import LaunchDist.Proofs.Packaging
/-!
# What packaging leaves alone

Packaging changes nothing outside the place of its outputs and the two places of the distribution, but
for directories above them that were missing. The outputs are free of links, so what is written to them
lands below their place, and their places stay where they were until the distribution is assembled.
-/
namespace LaunchDist

open FileSystem
open LaunchDist.Path (Step IsEntryName)

theorem isEntryName_install : IsEntryName (Utf8.encode "install") := by decide

section Prepare

variable {layout : BuildLayout} {before fs : FileSystem} {w : Workspace}

namespace BuildLayout

theorem passable_root (hlinks : layout.Unlinked fs) (h : Passable fs layout.root) :
    Passable fs layout.buildDir ∧ fs.destination layout.root = layout.home fs :=
  Passable.entry isEntryName_launcherName h (hlinks _ (List.prefix_refl _))

theorem Undisturbed.put_confined {s t : String} {l : Location} {m : Mode}
    (h : layout.Undisturbed before fs) (hs : IsEntryName (Utf8.encode s))
    (ht : IsEntryName (Utf8.encode t)) (htarget : fs.target (layout.root / s / t) = .ok (l, m))
    (mode : Mode) (content : Bytes) :
    Confined [layout.home before] fs (fs.put l (.file mode content)) := by
  obtain ⟨hw, _, hreach⟩ := target_spec htarget
  obtain ⟨k, hr⟩ := hreach mode content
  obtain ⟨rfl, _⟩ := (h.trans (hw.steady_put mode content)).output_eq hs ht hr
  exact .put hw ⟨_, List.mem_singleton_self _, by simp⟩ mode content

end BuildLayout

private theorem manifestDir_confined (fs : FileSystem) (hup : Step.up ∉ layout.buildDir.steps)
    (hlinks : layout.Unlinked fs) :
    Action.stateAfter (makeDirs layout.manifestDir fs) = fs ∨ Passable fs layout.buildDir ∧
      Confined [layout.home fs] fs (Action.stateAfter (makeDirs layout.manifestDir fs)) := by
  refine (makeDirs_confined fs isEntryName_manifestDir (BuildLayout.up_notMem_root hup)).imp_right
    fun ⟨hpass, hc⟩ => ?_
  obtain ⟨hbuild, hroot⟩ := BuildLayout.passable_root hlinks hpass
  refine ⟨hbuild, hc.widen fun l hl => ⟨_, List.mem_singleton_self _, ?_⟩⟩
  rw [List.mem_singleton.mp hl, place, hroot]
  exact List.prefix_append _ _

theorem Manifest.store_confined {m : Manifest} (hup : Step.up ∉ layout.buildDir.steps)
    (hlinks : layout.Unlinked w.files) :
    (Action.stateAfter (m.store layout w)).files = w.files ∨ Passable w.files layout.buildDir ∧
      Confined [layout.home w.files] w.files (Action.stateAfter (m.store layout w)).files := by
  have hdirs := manifestDir_confined w.files hup hlinks
  cases h : m.store layout w with
  | error e w' =>
    rwa [show (Action.stateAfter (.error e w')).files = _ from (Manifest.store_error h).2]
  | ok p w' =>
    obtain ⟨rfl, made, l, mode, hmake, ht, hfiles⟩ := Manifest.store_ok h
    rw [hmake] at hdirs
    have hgrows := grows_makeDirs layout.manifestDir w.files
    rw [hmake] at hgrows
    have hmade : layout.Undisturbed w.files made :=
      ⟨⟨hgrows.linkAt?, .inl hgrows.sameStart⟩, hlinks, hup⟩
    have hput := hmade.put_confined isEntryName_manifestDir Distribution.isEntryName_manifest ht mode
      (Utf8.encode m.render)
    refine .inr ?_
    rw [show (Action.stateAfter (.ok layout.manifestPath w')).files = _ from hfiles]
    rcases hdirs with heq | ⟨hbuild, hc⟩
    · change made = w.files at heq
      subst heq
      refine ⟨?_, hput⟩
      obtain ⟨k, v, hdir, _⟩ := reaches_of_target Distribution.isEntryName_manifest ht
      obtain ⟨hroot, _⟩ := BuildLayout.reaches_dir hlinks isEntryName_manifestDir hdir
      exact (BuildLayout.reaches_root hlinks hroot).1.passable
        ((Path.up_notMem_steps_iff _).mp hup)
    · exact ⟨hbuild, hc.trans hput⟩

namespace LauncherSearch

theorem files_find {search : LauncherSearch} (w : Workspace) :
    (Action.stateAfter (search.find w)).files = w.files := by
  cases h : search.find w with
  | ok path w' => exact (find_ok h).2
  | error e w' => exact (find_error h).2

theorem stage_confined {search : LauncherSearch} {k : Nat} {l : Location}
    (hname : IsEntryName (Utf8.encode search.name)) (hb : layout.Undisturbed before w.files)
    (hroot : Reaches w.files layout.root k l) :
    Confined [layout.home before] w.files (Action.stateAfter (search.stage layout w)).files := by
  have hup := BuildLayout.up_notMem_root hb.up_notMem
  have hplace : w.files.place layout.root (Utf8.encode "launcher") =
      layout.home before ++ [Utf8.encode "launcher"] := by
    rw [place, hroot.destination_eq, hb.root_eq hroot]
  have hreset : Confined [layout.home before] w.files
      (Action.stateAfter (Action.resetDir layout.stagingDir w)).files := by
    rw [Action.resetDir, Action.files_changeAt]
    rcases resetDir_confined w.files isEntryName_stagingDir hup with heq | ⟨_, hc⟩
    · rw [show layout.stagingDir = layout.root / "launcher" from rfl, heq]
      exact .refl _ _
    · refine hc.widen fun l hl => ⟨_, List.mem_singleton_self _, ?_⟩
      rw [List.mem_singleton.mp hl, hplace]
      exact List.prefix_append _ _
  rw [stage]
  refine Action.stateAfter_bind
    (P := fun w' : Workspace => Confined [layout.home before] w.files w'.files) ?_ ?_
  · intro e w' h
    rwa [h] at hreset
  intro _ cleared h
  rw [h] at hreset
  have hcleared : layout.Undisturbed before cleared.files := by
    obtain ⟨_, home, hnew⟩ := resetDir_spec isEntryName_stagingDir hup
      (Distribution.changeAt_resetDir_ok h)
    refine hb.trans (hnew.steady fun u hu => ?_)
    rw [hplace] at hu
    rw [hb.steady.linkAt?, hb.unlinked u ((List.prefix_append _ _).trans hu)]
  -- What is left is to copy the launcher, if one is found.
  let I := fun fs => Confined [layout.home before] w.files fs ∧ layout.Undisturbed before fs
  have hcopy : ∀ launcher, Action.Preserves I
      (Action.copyFile launcher (layout.stagingDir / search.name)) := by
    intro launcher
    refine .copyFile fun fs fs' hI hcopied => ?_
    obtain ⟨_, mode, content, l', m, _, ht, rfl⟩ := copyFile_spec hcopied
    exact ⟨hI.1.trans (hI.2.put_confined isEntryName_stagingDir hname ht _ _),
      hI.2.trans ((target_spec ht).1.steady_put _ _)⟩
  have hrest : Action.Preserves I (search.find >>= fun launcher => do
      Action.copyFile launcher (layout.stagingDir / search.name)
      Action.report (.stagedLauncher launcher (layout.stagingDir / search.name))
      return layout.stagingDir / search.name) :=
    .bind (.of_same files_find) fun launcher => (hcopy launcher).bind fun _ => .of_same fun _ => rfl
  exact (hrest cleared ⟨hreset, hcleared⟩).1

end LauncherSearch

private theorem stored_confined {m : Manifest} {p : Path} {w' : Workspace}
    (hup : Step.up ∉ layout.buildDir.steps) (hlinks : layout.Unlinked w.files)
    (h : m.store layout w = .ok p w') :
    (∃ k l, Reaches w'.files layout.root k l) ∧ Passable w.files layout.buildDir ∧
      Confined [layout.home w.files] w.files w'.files := by
  obtain ⟨_, _, k, l, mode, hr, _⟩ := Manifest.store_spec hup hlinks h
  obtain ⟨_, _, hdir, _⟩ := (reaches_entry_iff Distribution.isEntryName_manifest).mp hr
  obtain ⟨_, _, hroot, _⟩ := (reaches_entry_iff isEntryName_manifestDir).mp hdir
  have hstate := Manifest.store_confined (m := m) hup hlinks
  rw [h] at hstate
  refine ⟨⟨_, _, hroot⟩, ?_⟩
  rcases hstate with heq | hstate
  · change w'.files = w.files at heq
    rw [heq] at hroot ⊢
    exact ⟨(BuildLayout.reaches_root hlinks hroot).1.passable ((Path.up_notMem_steps_iff _).mp hup),
      .refl _ _⟩
  · exact hstate

theorem prepare_confined {m : Manifest} (search : LauncherSearch) {p : Path} {w' : Workspace}
    (hname : IsEntryName (Utf8.encode search.name)) (hup : Step.up ∉ layout.buildDir.steps)
    (hlinks : layout.Unlinked w.files) (h : m.store layout w = .ok p w') :
    Passable w.files layout.buildDir ∧ Confined [layout.home w.files] w.files
      (Action.stateAfter (search.stage layout w')).files := by
  obtain ⟨⟨_, _, hroot⟩, hpass, hc⟩ := stored_confined hup hlinks h
  have hundisturbed := (Manifest.store_spec hup hlinks h).2.1
  exact ⟨hpass, hc.trans (LauncherSearch.stage_confined hname hundisturbed hroot)⟩

end Prepare

namespace PackagingRequest

open LaunchDist.Distribution

variable {request : PackagingRequest} {environmentPath : Option Bytes} {w : Workspace}

theorem stateAfter_package {P : FileSystem → Prop} (hstart : P w.files)
    (hstore : P (Action.stateAfter
      (request.manifest.store request.layout (request.started w))).files)
    (hstage : ∀ manifest written,
      request.manifest.store request.layout (request.started w) = .ok manifest written →
      P (Action.stateAfter
        ((request.launcherSearch environmentPath).stage request.layout written)).files)
    (hassemble : ∀ manifest written launcher staged,
      request.manifest.store request.layout (request.started w) = .ok manifest written →
      (request.launcherSearch environmentPath).stage request.layout written = .ok launcher staged →
      P (Action.stateAfter (assemble request.distDir
        ⟨request.programName, launcher, manifest, request.classpath⟩ staged)).files) :
    P (Action.stateAfter (request.package environmentPath w)).files := by
  rw [package]
  refine Action.stateAfter_bind (P := fun w' : Workspace => P w'.files) ?_ ?_
  · intro e w' h
    rwa [(Action.ofExcept_error_iff.mp h).2]
  intro _ w' h
  obtain ⟨_, rfl⟩ := Action.ofExcept_ok_iff.mp h
  refine Action.stateAfter_bind (P := fun w' : Workspace => P w'.files) ?_ ?_
  · intro e w' h
    exact absurd h Action.report_ne_error
  intro _ w' h
  obtain rfl := Action.report_ok_iff.mp h
  refine Action.stateAfter_bind (P := fun w' : Workspace => P w'.files) ?_ ?_
  · intro e written h
    change request.manifest.store request.layout (request.started w') = _ at h
    rwa [h] at hstore
  intro manifest written hstored
  refine Action.stateAfter_bind (P := fun w' : Workspace => P w'.files) ?_ ?_
  · intro e staged h
    have hP := hstage manifest written hstored
    rwa [h] at hP
  intro launcher staged hstaged
  exact hassemble manifest written launcher staged hstored hstaged

/-- Where packaging may change anything. -/
def territory (request : PackagingRequest) (fs : FileSystem) : List Location :=
  request.layout.home fs :: places fs request.distDir

/-- Wherever it stops, packaging has changed nothing, or the outputs alone, or both the outputs and the
distribution. If it has changed anything, the way to the build directory was there; and if it has changed
the distribution, the way there was there in the end, with the same links. -/
theorem package_cases (environmentPath : Option Bytes)
    (hnames : ∀ a ∈ request.classpath, IsEntryName (Utf8.encode a.fileName))
    (hbuild : Step.up ∉ request.buildDir.steps) (hdist : Step.up ∉ request.distDir.steps)
    (hlinks : request.layout.Unlinked w.files) :
    let fs' := (Action.stateAfter (request.package environmentPath w)).files
    fs' = w.files ∨ Passable w.files request.buildDir ∧
      (Confined [request.layout.home w.files] w.files fs' ∨
        Confined (request.territory w.files) w.files fs' ∧
          ProgramName.validate request.programName = .ok () ∧
          ∃ fs, Steady w.files fs ∧ Passable fs request.distDir) := by
  refine stateAfter_package (P := fun fs => fs = w.files ∨ Passable w.files request.buildDir ∧
    (Confined [request.layout.home w.files] w.files fs ∨
      Confined (request.territory w.files) w.files fs ∧
        ProgramName.validate request.programName = .ok () ∧
        ∃ fs, Steady w.files fs ∧ Passable fs request.distDir)) (.inl rfl) ?_ ?_ ?_
  · exact (Manifest.store_confined (w := request.started w) hbuild hlinks).imp_right fun h =>
      ⟨h.1, .inl h.2⟩
  · intro manifest written hstored
    obtain ⟨hpass, hc⟩ := prepare_confined (w := request.started w)
      (request.launcherSearch environmentPath) isEntryName_launcherName hbuild hlinks hstored
    exact .inr ⟨hpass, .inl hc⟩
  intro manifest written launcher staged hstored hstaged
  obtain ⟨hpass, hc⟩ := prepare_confined (w := request.started w)
    (request.launcherSearch environmentPath) isEntryName_launcherName hbuild hlinks hstored
  rw [hstaged] at hc
  have hsteady := (staged_of_store_stage (w := request.started w) isEntryName_search hbuild hlinks
    hstored hstaged).1.steady
  refine .inr ⟨hpass, ?_⟩
  rcases assemble_confined request.distDir
    ⟨request.programName, launcher, manifest, request.classpath⟩ staged
    ((Path.up_notMem_steps_iff _).mp hdist) hnames with heq | ⟨hvalid, hroot, hconfined⟩
  · left
    rwa [heq]
  · right
    -- The links are what they were, so the distribution has its old places.
    have hdest := hsteady.destination_eq hroot.not_lost
    have hplaces : places staged.files request.distDir = places w.files request.distDir := by
      rw [places, place, place, hdest]
      rfl
    rw [hplaces] at hconfined
    have hhome : [request.layout.home w.files] ⊆ request.territory w.files := by simp [territory]
    have hparts : places w.files request.distDir ⊆ request.territory w.files :=
      List.subset_cons_self ..
    exact ⟨(hc.mono hhome).trans (hconfined.mono hparts), hvalid, _, hsteady, hroot⟩

private theorem plainName_of_validate {name : String} {n : Name}
    (h : ProgramName.validate name = .ok ()) (hn : (Path.ofString name).fileName? = some n) :
    (Path.ofString name).isAbsolute = false ∧ Path.namesOf (Path.ofString name).moves = [n] := by
  obtain ⟨_, habs, m, rest, hsteps⟩ := steps_of_validate h
  have hrest := rest_of_validate h hsteps
  have hstays : Path.namesOf rest = [] := by
    rw [Path.namesOf, List.filterMap_eq_nil_iff]
    intro s hs
    rcases hrest s hs with rfl | rfl <;> rfl
  have hm : Path.namesOf (Path.ofString name).moves = [m] := by
    rw [← Path.namesOf_steps, hsteps, ← List.singleton_append, Path.namesOf_append, hstays]
    rfl
  have hmem : n ∈ Path.namesOf (Path.ofString name).moves :=
    List.mem_filterMap.mpr ⟨_, Path.mem_moves_of_fileName? hn, rfl⟩
  rw [hm, List.mem_singleton] at hmem
  exact ⟨habs, by rw [hm, hmem]⟩

private theorem not_prefix_of_ne {n m : Name} (l : Location) (r r' : Location) (h : n ≠ m) :
    ¬ l ++ n :: r <+: l ++ m :: r' := by
  intro hp
  rw [List.prefix_append_right_inj, List.cons_prefix_cons] at hp
  exact h hp.1

section Default

variable {fs : FileSystem} {n m : Name}

/-- What is installed below a build directory is apart from the outputs. -/
private theorem home_apart_of_default (hpass : Passable fs request.buildDir)
    (hinstall : fs.linkAt? (fs.place request.buildDir (Utf8.encode "install")) = none) :
    ¬ request.layout.home fs <+: fs.place (request.buildDir / "install") m ∧
      ¬ fs.place (request.buildDir / "install") m <+: request.layout.home fs := by
  have hplace : fs.place (request.buildDir / "install") m =
      fs.destination request.buildDir ++ Utf8.encode "install" :: [m] := by
    rw [place, hpass.destination_entry isEntryName_install hinstall, place, List.append_assoc]
    rfl
  rw [hplace]
  exact ⟨not_prefix_of_ne _ [] _ (by decide), not_prefix_of_ne _ _ [] (by decide)⟩

private theorem places_apart_of_default {before : FileSystem} (hsteady : Steady before fs)
    (hpass : Passable fs request.distDir)
    (hvalid : ProgramName.validate request.programName = .ok ())
    (hdist : request.distDir = request.layout.defaultDistDir request.programName)
    (hn : (Path.ofString request.programName).fileName? = some n) (hne : m ≠ n)
    (hown : before.linkAt? (before.place (request.buildDir / "install") n) = none) :
    ∀ l ∈ places before request.distDir, ¬ l <+: before.place (request.buildDir / "install") m ∧
      ¬ before.place (request.buildDir / "install") m <+: l := by
  obtain ⟨habs, hnames⟩ := plainName_of_validate hvalid hn
  have hlost := hpass.not_lost
  have hdestDist := hsteady.destination_eq hlost
  rw [hdist] at hlost hpass
  have hdest : fs.destination (request.buildDir / "install") =
      before.destination (request.buildDir / "install") := by
    refine hsteady.destination_eq ?_
    rwa [← Path.isAbsolute_join _ _ habs]
  have hplace : fs.place (request.buildDir / "install") n =
      before.place (request.buildDir / "install") n := by
    rw [place, place, hdest]
  have hroot : before.destination request.distDir = before.place (request.buildDir / "install") n := by
    rw [← hdestDist, hdist, ← hplace]
    refine (Passable.of_join habs hnames hpass ?_).2
    exact (hsteady.linkAt? _).trans (by rwa [← hplace] at hown)
  intro l hl
  obtain ⟨d, rfl⟩ : ∃ d, l = before.destination (request.buildDir / "install") ++ n :: [d] := by
    simp only [places, place, hroot, List.append_assoc, List.mem_cons, List.not_mem_nil,
      or_false] at hl
    rcases hl with rfl | rfl
    · exact ⟨_, rfl⟩
    · exact ⟨_, rfl⟩
  exact ⟨not_prefix_of_ne _ _ [] hne.symm, not_prefix_of_ne _ [] _ hne⟩

end Default

/-- What packaging changes, with whatever it ends, is inside the place of its outputs or one of the two
of the distribution, or is a missing directory above them; a link in one of the places is not followed.
Nothing happens to a directory apart from the three. Such is the distribution of another program below
the same build directory, if that of the program is no link to elsewhere. -/
theorem package_confined (request : PackagingRequest) (environmentPath : Option Bytes) (w : Workspace)
    (hartifacts : ∀ a ∈ request.classpath, ∃ fs p, Artifact.atPath fs p = .ok a)
    (hbuild : Step.up ∉ request.buildDir.steps) (hdist : Step.up ∉ request.distDir.steps)
    (hlinks : request.layout.Unlinked w.files) :
    let fs' := (Action.stateAfter (request.package environmentPath w)).files
    (∀ u, fs'.entry? u = w.files.entry? u ∨ ∃ l ∈ request.territory w.files,
      l <+: u ∨ u <+: l ∧ w.files.entry? u = none ∧ fs'.entry? u = some .dir) ∧
    (∀ o, (∀ l ∈ request.territory w.files, ¬ l <+: o ∧ ¬ o <+: l) →
      ∀ u, o <+: u → fs'.entry? u = w.files.entry? u) ∧
    ∀ n m, request.distDir = request.layout.defaultDistDir request.programName →
      (Path.ofString request.programName).fileName? = some n → m ≠ n →
      let other := w.files.place (request.buildDir / "install") m
      w.files.linkAt? (w.files.place (request.buildDir / "install") n) = none →
      (w.files.linkAt? (w.files.place request.buildDir (Utf8.encode "install")) = none ∨
        ¬ request.layout.home w.files <+: other ∧ ¬ other <+: request.layout.home w.files) →
      ∀ u, other <+: u → fs'.entry? u = w.files.entry? u := by
  intro fs'
  have hcases :=
    package_cases environmentPath (isEntryName_of_artifacts hartifacts) hbuild hdist hlinks
  have hconfined : Confined (request.territory w.files) w.files fs' := by
    rcases hcases with heq | ⟨_, hc | ⟨hc, _⟩⟩
    · rw [show fs' = w.files from heq]
      exact .refl _ _
    · exact hc.mono (by simp [territory])
    · exact hc
  refine ⟨hconfined.entry?, fun o ho u => hconfined.apart ho, ?_⟩
  intro n m hdefault hn hne other hown hinstall u hu
  rcases hcases with heq | ⟨hpass, hcases⟩
  · rw [show fs' = w.files from heq]
  have hhome : ¬ request.layout.home w.files <+: other ∧ ¬ other <+: request.layout.home w.files :=
    hinstall.elim (home_apart_of_default hpass) id
  rcases hcases with hc | ⟨hc, hvalid, fs, hsteady, hroot⟩
  · refine hc.apart (fun l hl => ?_) hu
    rwa [List.mem_singleton.mp hl]
  · refine hc.apart (fun l hl => ?_) hu
    rcases List.mem_cons.mp hl with rfl | hl
    · exact hhome
    · exact places_apart_of_default hsteady hroot hvalid hdefault hn hne hown l hl

/-- A request that asks for nothing else than the default place. -/
def siblingRequest : PackagingRequest where
  programName := "app"
  mainClass := ⟨"Main"⟩
  program := ⟨"app.jar", Path.ofString "/app.jar"⟩
  dependencies := []
  buildDir := Path.ofString "build"
  distDir := Path.ofString "build/install/app"
  searchPath := some (Utf8.encode "path")

/-- Another program that is installed below the same build directory, and what stands beside it. -/
def siblingFiles (beside : List (Name × Node)) : FileSystem where
  children := [
    (Utf8.encode "app.jar", .file 0o644 (Utf8.encode "app")),
    (Utf8.encode "path", .dir [(Utf8.encode launcherName, .file 0o755 (Utf8.encode "run"))]),
    (Utf8.encode "build", .dir [(Utf8.encode "install", .dir ((Utf8.encode "other", .dir [
      (Utf8.encode "bin", .dir [(Utf8.encode "other", .file 0o755 (Utf8.encode "old"))]),
      (Utf8.encode "lib", .dir [(Utf8.encode "old.jar", .file 0o644 (Utf8.encode "old"))])]) ::
        beside))])]
  workingDir := []

theorem package_confined_siblingFiles :
    let w' := Action.stateAfter (siblingRequest.package none ⟨siblingFiles [], []⟩)
    ∀ u, [Utf8.encode "build", Utf8.encode "install", Utf8.encode "other"] <+: u →
      w'.files.entry? u = FileSystem.entry? (siblingFiles []) u := by
  have hartifacts : ∀ a ∈ siblingRequest.classpath,
      Artifact.atPath (siblingFiles []) a.path = .ok a := by
    decide +kernel
  have hconfined := package_confined siblingRequest none ⟨siblingFiles [], []⟩
    (fun a ha => ⟨_, _, hartifacts a ha⟩) (by decide +kernel) (by decide +kernel)
    (BuildLayout.unlinked_of_entry?_home (by decide +kernel))
  exact hconfined.2.2 (Utf8.encode "app") (Utf8.encode "other") (by decide +kernel)
    (by decide +kernel) (by decide) (by decide +kernel) (.inl (by decide +kernel))

example : Action.endsIn (fun w' : Workspace =>
    w'.files.isFile (Path.ofString "build/install/other/lib/old.jar"))
    (siblingRequest.produce none (siblingRequest.started ⟨siblingFiles [], []⟩)) = true := by
  decide +kernel

def loopedRequest : PackagingRequest :=
  { siblingRequest with distDir := Path.ofString "d" }

/-- A distribution with a link from `bin` to `lib`. -/
def loopedFiles : FileSystem where
  children := [
    (Utf8.encode "app.jar", .file 0o644 (Utf8.encode "app")),
    (Utf8.encode "path", .dir [(Utf8.encode launcherName, .file 0o755 (Utf8.encode "run"))]),
    (Utf8.encode "d", .dir [
      (Utf8.encode "bin", .link (Path.ofString "lib")),
      (Utf8.encode "lib", .dir [(Utf8.encode "old.jar", .file 0o644 (Utf8.encode "old"))])])]
  workingDir := []

/-- A distribution that is a link to the one of another program. -/
def aliasedFiles : FileSystem :=
  siblingFiles [(Utf8.encode "app", .link (Path.ofString "other"))]

/-- What a link in one of the places leads to is emptied if it is another one of the places, and a
distribution that is a link to that of another program takes its place. -/
theorem package_through_links :
    ((∀ a ∈ loopedRequest.classpath, Artifact.atPath loopedFiles a.path = .ok a) ∧
      Step.up ∉ loopedRequest.buildDir.steps ∧ Step.up ∉ loopedRequest.distDir.steps ∧
      loopedRequest.layout.Unlinked loopedFiles ∧
      loopedFiles.inspect (Path.ofString "d/bin") = .ok (.link (Path.ofString "lib")) ∧
      loopedFiles.isFile (Path.ofString "d/bin/old.jar") ∧
      ∃ d w', loopedRequest.package none ⟨loopedFiles, []⟩ = .ok d w' ∧
        w'.files.isFile (Path.ofString "d/lib/old.jar") = false) ∧
    (∀ a ∈ siblingRequest.classpath, Artifact.atPath aliasedFiles a.path = .ok a) ∧
      Step.up ∉ siblingRequest.buildDir.steps ∧ Step.up ∉ siblingRequest.distDir.steps ∧
      siblingRequest.layout.Unlinked aliasedFiles ∧
      siblingRequest.distDir = siblingRequest.layout.defaultDistDir "app" ∧
      aliasedFiles.isFile (siblingRequest.layout.defaultDistDir "other" / "lib" / "old.jar") ∧
      ∃ d w', siblingRequest.package none ⟨aliasedFiles, []⟩ = .ok d w' ∧
        w'.files.isFile (siblingRequest.layout.defaultDistDir "other" / "lib" / "old.jar") = false := by
  have hlooped : loopedRequest.layout.Unlinked loopedFiles :=
    BuildLayout.unlinked_of_entry?_home (by decide +kernel)
  have haliased : siblingRequest.layout.Unlinked aliasedFiles :=
    BuildLayout.unlinked_of_entry?_home (by decide +kernel)
  refine ⟨⟨by decide +kernel, by decide +kernel, by decide +kernel, hlooped, by decide +kernel,
    by decide +kernel, ?_⟩, by decide +kernel, by decide +kernel, by decide +kernel, haliased,
    by decide +kernel, by decide +kernel, ?_⟩
  · have hrun : Action.endsIn (fun w' : Workspace => !w'.files.isFile (Path.ofString "d/lib/old.jar"))
        (loopedRequest.produce none (loopedRequest.started ⟨loopedFiles, []⟩)) = true := by
      decide +kernel
    obtain ⟨d, w', hproduce, hgone⟩ := Action.exists_of_endsIn hrun
    exact ⟨d, w', package_of_produce (by decide) (by decide +kernel) hlooped hproduce,
      by simpa using hgone⟩
  · have hrun : Action.endsIn (fun w' : Workspace =>
        !w'.files.isFile (siblingRequest.layout.defaultDistDir "other" / "lib" / "old.jar"))
        (siblingRequest.produce none (siblingRequest.started ⟨aliasedFiles, []⟩)) = true := by
      decide +kernel
    obtain ⟨d, w', hproduce, hgone⟩ := Action.exists_of_endsIn hrun
    exact ⟨d, w', package_of_produce (by decide) (by decide +kernel) haliased hproduce,
      by simpa using hgone⟩

end PackagingRequest

end LaunchDist
