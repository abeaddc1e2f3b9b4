import LaunchDist.Proofs.Distribution.Refusal
import LaunchDist.Proofs.Manifest.Rules
import LaunchDist.Proofs.Packaging
/-!
# The manifest of a packaged program

The manifest that packaging generates is the one that the check finds, and the check does not refuse it
unless a file name holds a backslash.
-/
namespace LaunchDist

open FileSystem
open LaunchDist.Distribution
open LaunchDist.Path (Step IsEntryName)

namespace PackagingRequest

theorem package_sampleFiles : ∃ d w', sampleRequest.package none ⟨sampleFiles, []⟩ = .ok d w' := by
  have hlinks : sampleRequest.layout.Unlinked sampleFiles :=
    BuildLayout.unlinked_of_entry?_home (by decide +kernel)
  have hproduce : ∃ d w',
      sampleRequest.produce none (sampleRequest.started ⟨sampleFiles, []⟩) = .ok d w' :=
    Action.exists_of_succeeds (by decide +kernel)
  obtain ⟨d, w', h⟩ := hproduce
  exact ⟨d, w', package_of_produce (w := ⟨sampleFiles, []⟩) (by decide) (by decide +kernel) hlinks h⟩

end PackagingRequest

namespace Manifest

/-- The generator and the check agree on the main class and on every class path but one with a
backslash in a file name: a manifest generated for other names is valid, so the check does not call it
invalid wherever it finds it, and the check finds it where packaging has installed it. -/
theorem generate_accepted (mainClass : String) (main : MainClass) (artifacts : List Artifact)
    (hmain : MainClass.ofString mainClass = .ok main) (hne : artifacts ≠ [])
    (hartifacts : ∀ a ∈ artifacts, ∃ fs p, Artifact.atPath fs p = .ok a) :
    ((generate main artifacts).validate = .ok () ↔ ∀ a ∈ artifacts, '\\' ∉ a.fileName.toList) ∧
    ((∀ a ∈ artifacts, '\\' ∉ a.fileName.toList) →
      (∀ (root : Path) (w : Workspace),
        atPath w.files (binDirOf root / fileName) = .ok (generate main artifacts) →
        ∀ problem w', check root w ≠ .error (.invalidManifest problem) w') ∧
      ∀ (request : PackagingRequest) (environmentPath : Option Bytes) (w w' : Workspace)
        (d : Distribution), request.mainClass = main → request.classpath = artifacts →
        Step.up ∉ request.buildDir.steps → Step.up ∉ request.distDir.steps →
        request.layout.Unlinked w.files →
        (∀ u ∈ w.files.trail request.buildDir, Inside w.files request.distDir u →
          w.files.linkAt? u = none) →
        request.package environmentPath w = .ok d w' →
        ∀ problem w'', check request.distDir w' ≠ .error (.invalidManifest problem) w'') := by
  have hvalid : (generate main artifacts).validate = .ok () ↔
      ∀ a ∈ artifacts, '\\' ∉ a.fileName.toList := by
    rw [validate_generate_iff hmain hne]
    refine forall₂_congr fun a ha => ?_
    obtain ⟨fs, p, hat⟩ := hartifacts a ha
    exact isLibraryEntry_append_iff (isEntryName_of_atPath hat)
  refine ⟨hvalid, fun hplain => ?_⟩
  have hfound : ∀ (root : Path) (w : Workspace),
      atPath w.files (binDirOf root / fileName) = .ok (generate main artifacts) →
      ∀ problem w', check root w ≠ .error (.invalidManifest problem) w' := by
    intro root w hat problem w' hcheck
    obtain ⟨m, hm, hinvalid⟩ := validate_of_check hcheck
    rw [hat, Except.ok.injEq] at hm
    rw [← hm, hvalid.mpr hplain] at hinvalid
    cases hinvalid
  refine ⟨hfound, ?_⟩
  intro request environmentPath w w' d hclass hclasspath hbuild hdist hlinks hway h
  apply hfound
  rw [← hclass, ← hclasspath]
  rw [← hclasspath] at hartifacts
  exact PackagingRequest.atPath_installed hartifacts hbuild hdist hlinks hway h

theorem generate_accepted_sampleFiles :
    (generate ⟨"Main"⟩ PackagingRequest.sampleRequest.classpath).validate = .ok () ∧
    ∃ d w', PackagingRequest.sampleRequest.package none ⟨PackagingRequest.sampleFiles, []⟩ =
        .ok d w' ∧
      ∀ problem w'', check (Path.ofString "dist") w' ≠ .error (.invalidManifest problem) w'' := by
  have hartifacts : ∀ a ∈ PackagingRequest.sampleRequest.classpath,
      Artifact.atPath PackagingRequest.sampleFiles a.path = .ok a := by decide +kernel
  obtain ⟨hvalid, haccepted⟩ := generate_accepted " Main " ⟨"Main"⟩
    PackagingRequest.sampleRequest.classpath (by decide) (List.cons_ne_nil _ _)
    (fun a ha => ⟨_, _, hartifacts a ha⟩)
  have hplain : ∀ a ∈ PackagingRequest.sampleRequest.classpath, '\\' ∉ a.fileName.toList := by
    decide +kernel
  obtain ⟨d, w', h⟩ := PackagingRequest.package_sampleFiles
  have hlinks : PackagingRequest.sampleRequest.layout.Unlinked PackagingRequest.sampleFiles :=
    BuildLayout.unlinked_of_entry?_home (by decide +kernel)
  have hchecked := (haccepted hplain).2 PackagingRequest.sampleRequest none
    ⟨PackagingRequest.sampleFiles, []⟩ w' d rfl rfl (by decide +kernel) (by decide +kernel) hlinks
    (by decide +kernel) h
  exact ⟨hvalid.mpr hplain, d, w', h, hchecked⟩

end Manifest

namespace PackagingRequest

def backslashRequest : PackagingRequest where
  programName := "app"
  mainClass := ⟨"Main"⟩
  program := ⟨"a\\b.jar", Path.ofString "/a\\b.jar"⟩
  dependencies := []
  buildDir := Path.ofString "build"
  distDir := Path.ofString "dist"
  searchPath := some (Utf8.encode "path")

/-- A program with a backslash in its file name, and a launcher on the search path. -/
def backslashFiles : FileSystem where
  children := [
    (Utf8.encode "a\\b.jar", .file 0o644 (Utf8.encode "app")),
    (Utf8.encode "path", .dir [(Utf8.encode launcherName, .file 0o755 (Utf8.encode "run"))])]
  workingDir := []

def emptyManifest : Manifest :=
  ⟨"java", "Main", 21, []⟩

/-- As `linkedFiles`, with a manifest of no program among the other outputs. -/
def plantedFiles : FileSystem :=
  linkedFiles.put [Utf8.encode "d", Utf8.encode "b", Utf8.encode launcherName,
    Utf8.encode "manifest", Utf8.encode Manifest.fileName]
    (.file 0o644 (Utf8.encode emptyManifest.render))

/-- A packaged program whose file name holds a backslash is refused for its manifest. So is one whose
build directory is reached by a link inside the distribution, if another manifest is found then. -/
theorem package_backslashFiles_refused :
    (MainClass.ofString "Main" = .ok backslashRequest.mainClass ∧
      (∀ a ∈ backslashRequest.classpath, Artifact.atPath backslashFiles a.path = .ok a) ∧
      (Manifest.generate backslashRequest.mainClass backslashRequest.classpath).validate =
        .error (.invalidManifest (.strayEntry "../lib/a\\b.jar")) ∧
      ∃ d w' w'', backslashRequest.package none ⟨backslashFiles, []⟩ = .ok d w' ∧
        check backslashRequest.distDir w' =
          .error (.invalidManifest (.strayEntry "../lib/a\\b.jar")) w'') ∧
    (MainClass.ofString "Main" = .ok linkedRequest.mainClass ∧
      (∀ a ∈ linkedRequest.classpath, Artifact.atPath plantedFiles a.path = .ok a) ∧
      (Manifest.generate linkedRequest.mainClass linkedRequest.classpath).validate = .ok () ∧
      ∃ d w' w'', linkedRequest.package none ⟨plantedFiles, []⟩ = .ok d w' ∧
        check linkedRequest.distDir w' = .error (.invalidManifest .emptyClasspath) w'') := by
  have hartifacts : ∀ a ∈ backslashRequest.classpath, Artifact.atPath backslashFiles a.path = .ok a := by
    decide +kernel
  have hlinks : backslashRequest.layout.Unlinked backslashFiles :=
    BuildLayout.unlinked_of_entry?_home (by decide +kernel)
  have hlinks' : linkedRequest.layout.Unlinked plantedFiles :=
    BuildLayout.unlinked_of_entry?_home (by decide +kernel)
  have hinvalid : backslashRequest.manifest.validate =
      .error (.invalidManifest (.strayEntry "../lib/a\\b.jar")) := by decide +kernel
  refine ⟨⟨by decide, hartifacts, hinvalid, ?_⟩, by decide, by decide +kernel, by decide +kernel, ?_⟩
  · have hrun : Action.endsIn (fun w' : Workspace =>
        w'.files.isDir (binDirOf backslashRequest.distDir) &&
          w'.files.isDir (libDirOf backslashRequest.distDir))
        (backslashRequest.produce none (backslashRequest.started ⟨backslashFiles, []⟩)) = true := by
      decide +kernel
    obtain ⟨d, w', hproduce, hdirs⟩ := Action.exists_of_endsIn hrun
    obtain ⟨hbin, hlib⟩ := Bool.and_eq_true_iff.mp hdirs
    have hpackage := package_of_produce (w := ⟨backslashFiles, []⟩) (by decide) (by decide +kernel)
      hlinks hproduce
    have hm := atPath_installed (fun a ha => ⟨_, _, hartifacts a ha⟩) (by decide +kernel)
      (by decide +kernel) hlinks (by decide +kernel) hpackage
    obtain ⟨w'', hcheck⟩ := check_of_invalid hbin hlib hm hinvalid
    exact ⟨d, w', w'', hpackage, hcheck⟩
  · have hrun : Action.endsIn (fun w' : Workspace =>
        w'.files.isDir (binDirOf linkedRequest.distDir) &&
          w'.files.isDir (libDirOf linkedRequest.distDir) &&
          decide (w'.files.find .follow (binDirOf linkedRequest.distDir / Manifest.fileName) =
            .ok (some [Utf8.encode "d", binName, Utf8.encode Manifest.fileName],
              .file 0o644 (Utf8.encode emptyManifest.render))))
        (linkedRequest.produce none (linkedRequest.started ⟨plantedFiles, []⟩)) = true := by
      decide +kernel
    obtain ⟨d, w', hproduce, hends⟩ := Action.exists_of_endsIn hrun
    obtain ⟨hdirs, hfind⟩ := Bool.and_eq_true_iff.mp hends
    obtain ⟨hbin, hlib⟩ := Bool.and_eq_true_iff.mp hdirs
    have hpackage := package_of_produce (w := ⟨plantedFiles, []⟩) (by decide) (by decide +kernel)
      hlinks' hproduce
    have hm := Manifest.atPath_of_find (of_decide_eq_true hfind)
    obtain ⟨w'', hcheck⟩ := check_of_invalid hbin hlib hm
      (by decide : emptyManifest.validate = .error (.invalidManifest .emptyClasspath))
    exact ⟨d, w', w'', hpackage, hcheck⟩

end PackagingRequest

end LaunchDist
