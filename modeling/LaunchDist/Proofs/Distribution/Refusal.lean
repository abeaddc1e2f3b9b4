import LaunchDist.Distribution
import LaunchDist.Proofs.Manifest.Store
/-!
# Why a distribution is refused

A distribution passes the check only if both of its directories are there and its manifest can be read.
It is refused for its manifest only if that is not valid.
-/
namespace LaunchDist

namespace Distribution

variable {root : Path} {w w' : Workspace}

theorem requireDirs_ok_iff {fs : FileSystem} :
    requireDirs fs root = .ok () ↔ fs.isDir (binDirOf root) ∧ fs.isDir (libDirOf root) := by
  rw [requireDirs]
  constructor
  · intro h
    split at h
    · cases h
    · rename_i hnone
      have hall := List.find?_eq_none.mp hnone
      exact ⟨by simpa using hall (binDirOf root) (by simp),
        by simpa using hall (libDirOf root) (by simp)⟩
  · rintro ⟨hbin, hlib⟩
    rw [List.find?_eq_none.mpr]
    intro dir hdir
    rcases List.mem_cons.mp hdir with rfl | hdir
    · simp [hbin]
    · obtain rfl := List.mem_singleton.mp hdir
      simp [hlib]

theorem requireLibraries_ok_iff {fs : FileSystem} {classpath : List String} :
    requireLibraries fs root classpath = .ok () ↔
      ∀ entry ∈ classpath, fs.isFile (binDirOf root / entry) = true := by
  rw [requireLibraries]
  constructor
  · intro h entry he
    split at h
    · cases h
    · rename_i hnone
      simpa using List.find?_eq_none.mp hnone entry he
  · intro h
    rw [List.find?_eq_none.mpr fun entry he => by simp [h entry he]]

theorem inspect_ok_iff {fs : FileSystem} {m : Manifest} {report : DistributionReport} :
    Distribution.inspect fs root m = .ok report ↔ m.validate = .ok () ∧
      (∀ entry ∈ m.classpath, fs.isFile (binDirOf root / entry) = true) ∧
      ∃ name, soleLauncher fs root = .ok name ∧
        report = ⟨name, m.entrypoint, m.javaVersion, m.classpath⟩ := by
  rw [← requireLibraries_ok_iff, Distribution.inspect]
  cases m.validate with
  | error failure => simp [bind, Except.bind]
  | ok u =>
    cases requireLibraries fs root m.classpath with
    | error failure => simp [bind, Except.bind]
    | ok u =>
      cases soleLauncher fs root with
      | error failure => simp [bind, Except.bind]
      | ok name => simp [bind, Except.bind, pure, Except.pure, eq_comm]

/-- What a check that succeeds has seen. -/
theorem check_ok {report : DistributionReport} (h : check root w = .ok report w') :
    w.files.isDir (binDirOf root) ∧ w.files.isDir (libDirOf root) ∧
      ∃ m, Manifest.atPath w.files (binDirOf root / Manifest.fileName) = .ok m ∧
        Distribution.inspect w.files root m = .ok report := by
  rw [check, Action.bind_ok_iff] at h
  obtain ⟨_, w1, hdirs, h⟩ := h
  obtain ⟨hdirs, rfl⟩ := Action.query_ok_iff.mp hdirs
  obtain ⟨m, w2, hload, h⟩ := Action.bind_ok_iff.mp h
  obtain ⟨hm, rfl⟩ := Manifest.load_ok_iff.mp hload
  have hinspect := (Action.query_ok_iff.mp h).1
  have hboth := requireDirs_ok_iff.mp hdirs
  exact ⟨hboth.1, hboth.2, m, hm, hinspect⟩

theorem check_fails (h : ∀ report w', check root w ≠ .ok report w') :
    ∃ failure w', check root w = .error failure w' := by
  cases hc : check root w with
  | ok report w' => exact absurd hc (h report w')
  | error failure w' => exact ⟨failure, w', rfl⟩

theorem check_fails_of_not_isDir
    (h : ¬ w.files.isDir (binDirOf root) ∨ ¬ w.files.isDir (libDirOf root)) :
    ∃ failure w', check root w = .error failure w' := by
  apply check_fails
  intro report w' hc
  have hseen := check_ok hc
  rcases h with hbin | hlib
  · exact hbin hseen.1
  · exact hlib hseen.2.1

theorem check_fails_of_no_manifest
    (h : ∀ m, Manifest.atPath w.files (binDirOf root / Manifest.fileName) ≠ .ok m) :
    ∃ failure w', check root w = .error failure w' := by
  apply check_fails
  intro report w' hc
  obtain ⟨_, _, m, hm, _⟩ := check_ok hc
  exact h m hm

theorem requireLibraries_ne_invalidManifest {fs : FileSystem} {classpath : List String}
    {problem : ManifestProblem} :
    requireLibraries fs root classpath ≠ .error (.invalidManifest problem) := by
  intro h
  rw [requireLibraries] at h
  split at h <;> cases h

theorem soleLauncher_ne_invalidManifest {fs : FileSystem} {problem : ManifestProblem} :
    soleLauncher fs root ≠ .error (.invalidManifest problem) := by
  intro h
  rw [soleLauncher] at h
  split at h
  · cases h
  · split at h <;> cases h

/-- Only the demands on manifests themselves make a manifest that can be read an invalid one. -/
theorem validate_of_check {problem : ManifestProblem}
    (h : check root w = .error (.invalidManifest problem) w') :
    ∃ m, Manifest.atPath w.files (binDirOf root / Manifest.fileName) = .ok m ∧
      m.validate = .error (.invalidManifest problem) := by
  rw [check, Action.bind_error_iff] at h
  rcases h with hdirs | ⟨_, w1, hdirs, h⟩
  · have hrequire := (Action.query_error_iff.mp hdirs).1
    rw [requireDirs] at hrequire
    split at hrequire <;> cases hrequire
  · obtain ⟨_, rfl⟩ := Action.query_ok_iff.mp hdirs
    rcases Action.bind_error_iff.mp h with hload | ⟨m, w2, hload, h⟩
    · have hread := (Manifest.load_error hload).1
      rw [Manifest.atPath] at hread
      split at hread
      · cases hread
      · rename_i text _
        cases hp : Manifest.parse text with
        | ok m => rw [hp] at hread; cases hread
        | error fault => rw [hp] at hread; cases hread
    · obtain ⟨hm, rfl⟩ := Manifest.load_ok_iff.mp hload
      refine ⟨m, hm, ?_⟩
      have hinspect := (Action.query_error_iff.mp h).1
      rw [Distribution.inspect] at hinspect
      cases hv : m.validate with
      | error failure =>
        rw [hv] at hinspect
        cases hinspect
        rfl
      | ok u =>
        exfalso
        rw [hv] at hinspect
        cases hl : requireLibraries w1.files root m.classpath with
        | error failure =>
          rw [hl] at hinspect
          cases hinspect
          exact requireLibraries_ne_invalidManifest hl
        | ok u =>
          rw [hl] at hinspect
          cases hs : soleLauncher w1.files root with
          | error failure =>
            rw [hs] at hinspect
            cases hinspect
            exact soleLauncher_ne_invalidManifest hs
          | ok name =>
            rw [hs] at hinspect
            cases hinspect

theorem check_eq_inspect {m : Manifest} (hbin : w.files.isDir (binDirOf root))
    (hlib : w.files.isDir (libDirOf root))
    (hm : Manifest.atPath w.files (binDirOf root / Manifest.fileName) = .ok m) :
    check root w = Action.ofExcept (Distribution.inspect w.files root m)
      { w with log := w.log ++ [.readManifest (binDirOf root / Manifest.fileName)] } := by
  have hdirs : Action.query (requireDirs · root) w = .ok () w :=
    Action.query_ok_iff.mpr ⟨requireDirs_ok_iff.mpr ⟨hbin, hlib⟩, rfl⟩
  rw [check, Action.bind_of_ok hdirs, Action.bind_of_ok (Manifest.load_ok_iff.mpr ⟨hm, rfl⟩)]
  rfl

theorem check_of_find {fs : FileSystem} {m : Manifest} {l : Location} {mode : Mode}
    {report : DistributionReport} (hbin : fs.isDir (binDirOf root)) (hlib : fs.isDir (libDirOf root))
    (hf : fs.find .follow (binDirOf root / Manifest.fileName) =
      .ok (some l, .file mode (Utf8.encode m.render)))
    (h : Distribution.inspect fs root m = .ok report) :
    ∃ w', check root ⟨fs, []⟩ = .ok report w' := by
  have hm := Manifest.atPath_of_find hf
  rw [check_eq_inspect (w := ⟨fs, []⟩) hbin hlib hm, h]
  exact ⟨_, rfl⟩

theorem check_of_invalid {m : Manifest} {failure : Failure} (hbin : w.files.isDir (binDirOf root))
    (hlib : w.files.isDir (libDirOf root))
    (hm : Manifest.atPath w.files (binDirOf root / Manifest.fileName) = .ok m)
    (hinvalid : m.validate = .error failure) : ∃ w', check root w = .error failure w' := by
  have hinspect : Distribution.inspect w.files root m = .error failure := by
    rw [Distribution.inspect, hinvalid]
    rfl
  rw [check_eq_inspect hbin hlib hm, hinspect]
  exact ⟨_, rfl⟩

end Distribution

end LaunchDist
