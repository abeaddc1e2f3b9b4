import LaunchDist.Proofs.Distribution.Confined
import LaunchDist.Proofs.FileSystem.Spared
/-!
# What assembling spares

Whatever comes of an assembly, its sources are still there, as is all else outside the two directories
of the root, unless the way to the root is one that changes while they are made anew.
-/
namespace LaunchDist

namespace Distribution

open FileSystem
open LaunchDist.Path (Step IsEntryName)

/-- What is known once `lib` has been made anew at a root that does not lead through it. -/
structure LibOpened (before fs : FileSystem) (root : Path) : Prop where
  spares : Spares (before.place root libName <+: ·) before fs
  reaches : ∃ k, Reaches fs root k (before.destination root)
  isDirAt : fs.isDirAt (before.place root libName)
  linkAt? : ∀ u, before.place root libName <+: u → fs.linkAt? u = none
  way : Avoids before root root

namespace LibOpened

variable {before fs fs' : FileSystem} {root : Path} {u : Unit}

theorem of_resetDir (hway : Avoids before root root)
    (hnone : before.inspect (libDirOf root) = .error (.system .noEntry) →
      before.entry? (before.place root libName) = none)
    (h : FileSystem.resetDir (libDirOf root) before = .ok u fs) : LibOpened before fs root := by
  have hlib : ∀ u ∈ before.trail root, ¬ before.place root libName <+: u := fun u hu hin =>
    hway u hu (.inl hin)
  have hspares := resetDir_spares isEntryName_lib hlib
  rw [show resetDir (root / "lib") before = _ from h] at hspares
  obtain ⟨hreaches, hdir, hlinks⟩ := resetDir_opens isEntryName_lib hlib hnone h
  exact ⟨hspares, hreaches, hdir, hlinks, hway⟩

variable (h : LibOpened before fs root)

include h

theorem trail_eq : fs.trail root = before.trail root :=
  h.spares.trail_eq fun u hu hin => h.way u hu (.inl hin)

theorem place_eq (n : Name) : fs.place root n = before.place root n := by
  rw [place, place, destination_congr h.trail_eq]

theorem way_bin : ∀ u ∈ fs.trail root, ¬ fs.place root binName <+: u := by
  rw [h.trail_eq, h.place_eq]
  exact fun u hu hin => h.way u hu (.inr hin)

theorem bin_spares :
    Spares (before.place root binName <+: ·) fs
      (Action.stateAfter (FileSystem.resetDir (binDirOf root) fs)) := by
  rw [← h.place_eq]
  exact resetDir_spares isEntryName_bin h.way_bin

theorem bin_none (hreset : FileSystem.resetDir (binDirOf root) fs = .ok u fs')
    (hnone : fs.inspect (binDirOf root) = .error (.system .noEntry)) :
    fs.entry? (fs.place root binName) = none := by
  obtain ⟨k, hr⟩ := h.reaches
  obtain ⟨_, hf⟩ := find_of_isDir (isDir_of_resetDir isEntryName_bin hreset)
  have hv : fs.isDirAt (before.destination root) :=
    isDirAt_of_prefix _ _ _ h.isDirAt (List.prefix_append _ _)
  rw [h.place_eq]
  exact entry?_of_inspect_noEntry isEntryName_bin (nameable_of_find hf) (by decide) hr hv hnone

theorem enclosed (hreset : FileSystem.resetDir (binDirOf root) fs = .ok u fs') :
    Enclosed before fs' root (before.destination root) := by
  have hspares := h.bin_spares
  rw [hreset] at hspares
  change Spares _ fs fs' at hspares
  obtain ⟨hreaches, hbin, hbinLinks⟩ :=
    resetDir_opens isEntryName_bin h.way_bin (h.bin_none hreset) hreset
  rw [destination_congr h.trail_eq] at hreaches
  change fs'.isDirAt (fs.place root binName) at hbin
  change ∀ u, fs.place root binName <+: u → _ at hbinLinks
  rw [h.place_eq] at hbin hbinLinks
  have hapart : ∀ u, before.place root libName <+: u → ¬ before.place root binName <+: u := by
    intro u hl hb
    rcases List.prefix_or_prefix_of_prefix hl hb with hp | hp <;>
      rw [place, place, List.prefix_append_right_inj] at hp <;> exact absurd hp (by decide)
  have hlib := (isDirAt_iff _ _).mp h.isDirAt
  refine ⟨hreaches, fun d hd => .inr ?_, fun d hd n => ?_⟩
  · rcases hd with rfl | rfl
    · refine ⟨(isDirAt_iff _ _).mpr ?_, .inl List.prefix_rfl⟩
      exact (hspares.eq_of_ne_none (hapart _ List.prefix_rfl)
        (by rw [hlib]; exact Option.some_ne_none _)).trans hlib
    · exact ⟨hbin, .inr List.prefix_rfl⟩
  · rcases hd with rfl | rfl
    · have hn : before.place root libName <+: before.destination root ++ [libName] ++ [n] :=
        List.prefix_append _ _
      rw [hspares.linkAt? (hapart _ hn), h.linkAt? _ hn]
    · exact hbinLinks _ (List.prefix_append _ _)

end LibOpened

section Install

variable {root : Path} {inputs : AssemblyInputs} {w : Workspace}

private theorem stateAfter_resetDir {p : Path} {r : EStateM.Result Failure Workspace Unit}
    (h : Action.resetDir p w = r) :
    (Action.stateAfter r).files = Action.stateAfter (FileSystem.resetDir p w.files) := by
  rw [← h, Action.resetDir, Action.files_changeAt]

/-- Wherever it stops, an installation spares what is outside the two directories, if the way to the
root avoids them and `lib` is not missing just for want of a way to it. -/
theorem install_spares (hway : Avoids w.files root root)
    (hnone : w.files.inspect (libDirOf root) = .error (.system .noEntry) →
      w.files.entry? (w.files.place root libName) = none)
    (hnames : ∀ a ∈ inputs.artifacts, IsEntryName (Utf8.encode a.fileName))
    (hvalid : ProgramName.validate inputs.programName = .ok ()) :
    Spares (Inside w.files root) w.files (Action.stateAfter (install root inputs w)).files := by
  rw [install_eq]
  refine Action.stateAfter_bind
    (P := fun w' : Workspace => Spares (Inside w.files root) w.files w'.files) ?_ ?_
  · intro e w1 h
    rw [show w1.files = _ from stateAfter_resetDir h]
    exact (resetDir_spares isEntryName_lib fun u hu hin => hway u hu (.inl hin)).mono fun u => .inl
  intro _ w1 h
  have hlib := LibOpened.of_resetDir hway hnone (changeAt_resetDir_ok h)
  have hlibSpares : Spares (Inside w.files root) w.files w1.files :=
    hlib.spares.mono fun u => .inl
  refine Action.stateAfter_bind
    (P := fun w' : Workspace => Spares (Inside w.files root) w.files w'.files) ?_ ?_
  · intro e w2 h
    rw [show w2.files = _ from stateAfter_resetDir h]
    exact hlibSpares.trans (hlib.bin_spares.mono fun u => .inr)
  intro _ w2 h
  have hbinSpares : Spares (Inside w.files root) w1.files w2.files := by
    rw [show w2.files = _ from stateAfter_resetDir h]
    exact hlib.bin_spares.mono fun u => .inr
  have hfill := fill_confined hnames hvalid (hlib.enclosed (changeAt_resetDir_ok h))
  exact hlibSpares.trans (hbinSpares.trans (hfill.spares.mono fun u => inside_iff.mpr))

/-- Whatever comes of an assembly, what is outside the two directories of its root is still there with
the same content, and so are the sources that are found along ways outside them; the root may be any
path that does not go up, or one whose way avoids the two directories, if nothing stands in the place of
a `lib` that is not found. -/
theorem assemble_spares (root : Path) (inputs : AssemblyInputs) (w : Workspace)
    (hartifacts : ∀ a ∈ inputs.artifacts, ∃ fs p, Artifact.atPath fs p = .ok a)
    (hroot : Step.up ∉ root.steps ∨ Avoids w.files root root ∧
      (w.files.inspect (libDirOf root) = .error (.system .noEntry) →
        w.files.entry? (w.files.place root libName) = none)) :
    let fs' := (Action.stateAfter (assemble root inputs w)).files
    (∀ u, ¬ Inside w.files root u → w.files.entry? u ≠ none → fs'.entry? u = w.files.entry? u) ∧
    ∀ p l mode content, Avoids w.files root p →
      w.files.find .follow p = .ok (some l, .file mode content) →
      fs'.find .follow p = .ok (some l, .file mode content) := by
  intro fs'
  have hnames := isEntryName_of_artifacts hartifacts
  have hspares : Spares (Inside w.files root) w.files fs' := by
    rcases hroot with hup | ⟨hway, hnone⟩
    · rcases assemble_confined root inputs w ((Path.up_notMem_steps_iff _).mp hup) hnames with
        heq | ⟨_, _, hconfined⟩
      · rw [show fs' = w.files from heq]
        exact (Grows.refl _).spares _
      · exact hconfined.spares.mono fun u => inside_iff.mpr
    · rcases assemble_cases root inputs w with heq | ⟨hvalid, heq⟩
      · rw [show fs' = w.files from heq]
        exact (Grows.refl _).spares _
      · rw [show fs' = _ from congrArg (fun r => (Action.stateAfter r).files) heq]
        exact install_spares
          (w := { w with log := w.log ++ [.readManifest inputs.manifest] }) hway hnone hnames hvalid
  exact ⟨fun u hu hne => hspares.eq_of_ne_none hu hne, fun p l mode content hp hf => hspares.find hp hf⟩

theorem assemble_spares_looseFiles :
    let root := Path.ofString "dist/../dist"
    ∃ d w', assemble root looseInputs ⟨looseFiles, []⟩ = .ok d w' ∧
      w'.files.stat (Path.ofString "/a.jar") = .ok (.file 0o644 (Utf8.encode "library")) := by
  intro root
  obtain ⟨d, w', h⟩ : ∃ d w', assemble root looseInputs ⟨looseFiles, []⟩ = .ok d w' :=
    exists_assemble (by decide) atPath_looseFiles (by decide) (by decide +kernel)
  have hartifacts : ∀ a ∈ looseInputs.artifacts, Artifact.atPath looseFiles a.path = .ok a := by
    decide +kernel
  have hspared := assemble_spares root looseInputs ⟨looseFiles, []⟩
    (fun a ha => ⟨_, _, hartifacts a ha⟩) (.inr (by decide +kernel))
  rw [h] at hspared
  have hfound := hspared.2 (Path.ofString "/a.jar") [Utf8.encode "a.jar"] 0o644
    (Utf8.encode "library") (by decide +kernel) (by rfl)
  exact ⟨d, w', h, stat_of_find hfound⟩

end Install

/-- The inputs of an assembly from a library at some place. -/
def sourceInputs (p : Path) : AssemblyInputs :=
  { looseInputs with artifacts := [⟨"a.jar", p⟩] }

/-- What an assembly needs besides a library, and some more. -/
def sourceFiles (more : List (Name × Node)) : FileSystem where
  children := (Utf8.encode "run", .file 0o755 (Utf8.encode "launcher")) ::
    (Utf8.encode "m.json", .file 0o644 (Utf8.encode looseManifest.render)) :: more
  workingDir := []

def sourceLibrary : Name × Node :=
  (Utf8.encode "a.jar", .file 0o644 (Utf8.encode "library"))

/-- A library in the distribution that is to be assembled. -/
def reusedFiles : FileSystem :=
  sourceFiles [(Utf8.encode "dist", .dir [(Utf8.encode "lib", .dir [sourceLibrary])])]

/-- A library where a link in the place of `lib` leads. -/
def sharedFiles : FileSystem :=
  sourceFiles [
    (Utf8.encode "b", .dir [(Utf8.encode "lib", .link (Path.ofString "../store"))]),
    (Utf8.encode "store", .dir [sourceLibrary])]

/-- A library in the distribution to which a root leads once a link in the place of `lib` is gone. -/
def shiftedFiles : FileSystem :=
  sourceFiles [
    (Utf8.encode "q", .dir [(Utf8.encode "r", .dir [
      (Utf8.encode "lib", .link (Path.ofString "x/y")),
      (Utf8.encode "x", .dir [(Utf8.encode "y", .dir [])])])]),
    (Utf8.encode "r", .dir [(Utf8.encode "bin", .dir [sourceLibrary])])]

/-- Whether assembling a library leaves the library as it was. -/
def sparesLibrary (root : Path) (fs : FileSystem) (p : Path) : Bool :=
  decide ((Action.stateAfter (assemble root (sourceInputs p) ⟨fs, []⟩)).files.stat p = fs.stat p)

private theorem sparesLibrary_of_install {root p : Path} {fs : FileSystem} {l : Location}
    (hf : fs.find .follow looseInputs.manifest =
      .ok (some l, .file 0o644 (Utf8.encode looseManifest.render)))
    (h : (Action.stateAfter (install root (sourceInputs p)
      ⟨fs, [.readManifest looseInputs.manifest]⟩)).files.stat p ≠ fs.stat p) :
    sparesLibrary root fs p = false := by
  have hinstall : assemble root (sourceInputs p) ⟨fs, []⟩ =
      install root (sourceInputs p) ⟨fs, [.readManifest looseInputs.manifest]⟩ :=
    assemble_eq_install (by decide : ProgramName.validate looseInputs.programName = .ok ())
      ⟨looseManifest, Manifest.atPath_of_find hf, rfl⟩
  rw [sparesLibrary, hinstall]
  exact decide_eq_false h

/-- A library is lost that is in the distribution itself, and with a root that goes up another one may be,
outside it: if the root cannot be reached at first, a link is not removed from its `lib`; if the way to
the root passes through its `lib`, it leads elsewhere later. -/
theorem assemble_loses_library :
    (Artifact.atPath reusedFiles (Path.ofString "/dist/lib/a.jar") =
        .ok ⟨"a.jar", Path.ofString "/dist/lib/a.jar"⟩ ∧
      sparesLibrary (Path.ofString "dist") reusedFiles (Path.ofString "/dist/lib/a.jar") = false) ∧
    (Artifact.atPath sharedFiles (Path.ofString "/store/a.jar") =
        .ok ⟨"a.jar", Path.ofString "/store/a.jar"⟩ ∧
      Avoids sharedFiles (Path.ofString "a/../b") (Path.ofString "/store/a.jar") ∧
      sparesLibrary (Path.ofString "a/../b") sharedFiles (Path.ofString "/store/a.jar") = false) ∧
    Artifact.atPath shiftedFiles (Path.ofString "/r/bin/a.jar") =
        .ok ⟨"a.jar", Path.ofString "/r/bin/a.jar"⟩ ∧
      Avoids shiftedFiles (Path.ofString "q/r/lib/../../../r") (Path.ofString "/r/bin/a.jar") ∧
      sparesLibrary (Path.ofString "q/r/lib/../../../r") shiftedFiles (Path.ofString "/r/bin/a.jar") =
        false := by
  refine ⟨⟨by decide +kernel, sparesLibrary_of_install (l := [Utf8.encode "m.json"]) (by rfl) ?_⟩,
    ⟨by decide +kernel, by decide +kernel,
      sparesLibrary_of_install (l := [Utf8.encode "m.json"]) (by rfl) ?_⟩,
    by decide +kernel, by decide +kernel,
    sparesLibrary_of_install (l := [Utf8.encode "m.json"]) (by rfl) ?_⟩
  · decide +kernel
  · decide +kernel
  · decide +kernel

end Distribution

end LaunchDist
