import LaunchDist.Proofs.FileSystem.Unseen
import LaunchDist.Proofs.Launcher.Staging
/-!
# Staging what has been found

A search may be asked for the launcher before it is to be staged. Staging searches again, once the staging
directory has been emptied, and stages the same file if emptying the staging directory changes nothing
that the search looks at.
-/
namespace LaunchDist

open FileSystem
open LaunchDist.Path (Step IsEntryName)

namespace LauncherSearch

/-- Whether a search looks at a path in a state: it finds nothing before. -/
def LooksAt (search : LauncherSearch) (fs : FileSystem) (q : Path) : Prop :=
  ∃ earlier later, search.candidates = earlier ++ q :: later ∧ ∀ p ∈ earlier, ¬ fs.isFile p

section Search

variable {search : LauncherSearch} {fs fs' : FileSystem} {p : Path}

theorem LooksAt.of_find? (h : search.candidates.find? fs.isFile = some p) : search.LooksAt fs p := by
  obtain ⟨_, earlier, later, hcandidates, hnone⟩ := List.find?_eq_some_iff_append.mp h
  exact ⟨earlier, later, hcandidates, fun q hq => by simpa using hnone q hq⟩

theorem find?_candidates_congr (hsame : ∀ q, search.LooksAt fs q → fs'.isFile q = fs.isFile q)
    (h : search.candidates.find? fs.isFile = some p) :
    search.candidates.find? fs'.isFile = some p := by
  obtain ⟨hfile, earlier, later, hcandidates, hnone⟩ := List.find?_eq_some_iff_append.mp h
  refine List.find?_eq_some_iff_append.mpr ⟨?_, earlier, later, hcandidates, fun q hq => ?_⟩
  · rw [hsame p (.of_find? h)]
    exact hfile
  · obtain ⟨first, rest, rfl⟩ := List.append_of_mem hq
    have hlooks : search.LooksAt fs q := by
      refine ⟨first, rest ++ p :: later, by simp [hcandidates], fun r hr => ?_⟩
      simpa using hnone r (List.mem_append_left _ hr)
    rw [hsame q hlooks]
    exact hnone q hq

end Search

section Stage

variable {search : LauncherSearch} {layout : BuildLayout} {w w' : Workspace} {p : Path}

/-- Once the staging directory is emptied, only an operation at a path can fail if there is a launcher. -/
theorem failure_of_stage {failure : Failure}
    (hfound : ∀ cleared, FileSystem.resetDir layout.stagingDir w.files = .ok () cleared →
      search.candidates.find? cleared.isFile = some p)
    (h : search.stage layout w = .error failure w') : ∃ q e, failure = .io q e := by
  cases hreset : Action.resetDir layout.stagingDir w with
  | error failure' w1 =>
    rw [stage, Action.bind_error_iff.mpr (.inl hreset)] at h
    cases h
    obtain ⟨e, _, rfl, _⟩ := Action.changeAt_error hreset
    exact ⟨_, e, rfl⟩
  | ok u w1 =>
    obtain ⟨cleared, hcleared, rfl⟩ := Action.changeAt_ok_iff.mp hreset
    rw [stage_of_found hcleared (hfound cleared hcleared)] at h
    have hfails : Action.FailsAtPaths (do
        Action.copyFile p (layout.stagingDir / search.name)
        Action.report (.stagedLauncher p (layout.stagingDir / search.name))
        return layout.stagingDir / search.name : Action Path) :=
      (Action.FailsAtPaths.copyFile _ _).bind fun _ => .of_never fun _ _ _ hreport => by cases hreport
    exact hfails _ _ _ h

/-- The directory into which the launcher is copied, where no link stands in its place, and nothing that
may not change. -/
private theorem reaches_stagingDir {cleared : FileSystem}
    (hway : Step.up ∉ layout.buildDir.steps ∨ w.files.OwnWay layout.root "launcher")
    (hreset : FileSystem.resetDir layout.stagingDir w.files = .ok () cleared) :
    ∃ k l, Reaches cleared layout.stagingDir k l ∧
      ∀ n, cleared.linkAt? (l ++ [n]) = none ∧
        (cleared.entry? (l ++ [n]) = none ∨
          w.files.MayChange layout.root (Utf8.encode "launcher") (l ++ [n])) := by
  rcases hway with hup | hown
  · obtain ⟨l, hempty⟩ := isEmptyDir_of_resetDir hup hreset
    obtain ⟨k, hr⟩ := reaches_of_find_dir (by decide) hempty.directory
    refine ⟨k, l, hr, fun n => ?_⟩
    exact ⟨by rw [linkAt?, hempty.free], .inl (hempty.free n)⟩
  · obtain ⟨⟨k, hroot⟩, hdir, hlinks⟩ :=
      resetDir_opens isEntryName_stagingDir hown.avoids hown.missing hreset
    have hne := entry?_ne_none_of_isDirAt hdir
    refine ⟨k, _, (reaches_entry_iff isEntryName_stagingDir).mpr ⟨k, _, hroot, ?_,
      .enter (isDirAt_of_below _ _ _ [] hne) (by decide) hne (hlinks _ List.prefix_rfl) (.done _ _)⟩,
      fun n => ⟨hlinks _ (List.prefix_append _ _), .inr (.inl (List.prefix_append _ _))⟩⟩
    exact isDirAt_of_below _ _ _ [] hne

end Stage

/-- What a search has found is what is staged, if making the staging directory anew does not touch what the
search looks at. Staging may fail, but not for the lack of a launcher. -/
theorem stage_of_find (search : LauncherSearch) (layout : BuildLayout) (w w' : Workspace) (p : Path)
    (hname : IsEntryName (Utf8.encode search.name))
    (hway : Step.up ∉ layout.buildDir.steps ∨ w.files.OwnWay layout.root "launcher")
    (hfind : search.find w = .ok p w')
    (hlooks : ∀ q, search.LooksAt w.files q →
      w.files.Untouched layout.root (Utf8.encode "launcher") q) :
    (∀ failure w', search.stage layout w = .error failure w' → ∃ q e, failure = .io q e) ∧
      ∀ staged w', search.stage layout w = .ok staged w' →
        ∃ mode content, w.files.stat p = .ok (.file mode content) ∧
          w'.files.inspect staged = .ok (.file mode content) := by
  obtain ⟨hfound, _⟩ := find_ok hfind
  have hroot : Step.up ∉ layout.root.moves ∨ w.files.OwnWay layout.root "launcher" :=
    hway.imp_left BuildLayout.up_notMem_root
  have hagain : ∀ cleared, FileSystem.resetDir layout.stagingDir w.files = .ok () cleared →
      search.candidates.find? cleared.isFile = some p := fun cleared hreset =>
    find?_candidates_congr (fun q hq => (hlooks q hq).isFile isEntryName_stagingDir hroot hreset) hfound
  refine ⟨fun failure w1 h => failure_of_stage hagain h, fun staged w1 h => ?_⟩
  obtain ⟨rfl, cleared, source, hreset, hsource, hcopy⟩ := stage_ok h
  obtain ⟨files, hfiles, rfl⟩ := Action.changeAt_ok_iff.mp hreset
  obtain rfl : p = source := Option.some.inj ((hagain files hfiles).symm.trans hsource)
  obtain ⟨v, mode, content, hf⟩ := isFile_iff.mp (List.find?_some hfound)
  have hunmet := (hlooks p (.of_find? hfound)).resolve_right (·.not_found hf)
  obtain ⟨hstart, hsame⟩ := same_of_resetDir isEntryName_stagingDir hroot hfiles hunmet
  have hf' : files.find .follow p = .ok (some v, .file mode content) := find_of_meets hstart hsame hf
  obtain ⟨k, l, hr, hplace⟩ := reaches_stagingDir hway hfiles
  obtain ⟨hlink, hfree⟩ := hplace (Utf8.encode search.name)
  refine ⟨mode, content, stat_of_find hf, inspect_of_copyFile hname hr hlink hf' ?_ hcopy⟩
  -- The launcher that has been found is not in the staging directory.
  rintro rfl
  rcases hfree with hnone | hchange
  · rw [(locate_of_find_some hf').2] at hnone
    cases hnone
  · obtain ⟨_, ⟨_, hreach⟩, _⟩ := find_follow_iff.mp hf
    exact hunmet _ (.of_mem (entry?_ne_none_of_find hf) hreach.mem_trail) hchange

/-- A search in a directory that is missing, in the staging directory, which holds another entry, and in
the one that has the launcher. -/
def freshSearch : LauncherSearch where
  searchPath := some (Utf8.encode "a:b/my-java-launcher/launcher:path")

/-- A launcher in one directory, and something else in the staging directory. -/
def freshFiles : FileSystem where
  children := [
    (Utf8.encode "path", .dir [
      (Utf8.encode "my-java-launcher", .file 0o755 (Utf8.encode "run"))]),
    (Utf8.encode "b", .dir [(Utf8.encode "my-java-launcher", .dir [(Utf8.encode "launcher", .dir [
      (Utf8.encode "old", .file 0o644 (Utf8.encode "old"))])])])]
  workingDir := []

theorem stage_of_find_freshFiles :
    IsEntryName (Utf8.encode freshSearch.name) ∧ Step.up ∉ restagedLayout.buildDir.steps ∧
      (∀ q, freshSearch.LooksAt freshFiles q →
        freshFiles.Untouched restagedLayout.root (Utf8.encode "launcher") q) ∧
      ∃ p w, freshSearch.find ⟨freshFiles, []⟩ = .ok p w ∧
        ∃ staged w', freshSearch.stage restagedLayout ⟨freshFiles, []⟩ = .ok staged w' ∧
          ∃ mode content, freshFiles.stat p = .ok (.file mode content) ∧
            w'.files.inspect staged = .ok (.file mode content) := by
  have hname : IsEntryName (Utf8.encode freshSearch.name) := isEntryName_launcherName
  have hup : Step.up ∉ restagedLayout.buildDir.steps := by decide +kernel
  have hlooks : ∀ q, freshSearch.LooksAt freshFiles q →
      freshFiles.Untouched restagedLayout.root (Utf8.encode "launcher") q := by
    rintro q ⟨earlier, later, hcandidates, _⟩
    have hq : q ∈ freshSearch.candidates := by
      rw [hcandidates]
      simp
    rw [show freshSearch.candidates = [Path.ofString "a/my-java-launcher",
      Path.ofString "b/my-java-launcher/launcher/my-java-launcher",
      Path.ofString "path/my-java-launcher"] by decide +kernel] at hq
    simp only [List.mem_cons, List.not_mem_nil, or_false] at hq
    rcases hq with rfl | rfl | rfl
    · exact .of_avoids (by decide +kernel)
    · exact .inr ⟨.inr (by decide +kernel), by decide +kernel, by decide +kernel⟩
    · exact .of_avoids (by decide +kernel)
  obtain ⟨p, w, hfind⟩ := Action.exists_of_succeeds (r := freshSearch.find ⟨freshFiles, []⟩)
    (by decide +kernel)
  obtain ⟨staged, w', hstage⟩ := Action.exists_of_succeeds
    (r := freshSearch.stage restagedLayout ⟨freshFiles, []⟩) (by decide +kernel)
  exact ⟨hname, hup, hlooks, p, w, hfind, staged, w', hstage,
    (stage_of_find _ _ _ _ _ hname (.inl hup) hfind hlooks).2 _ _ hstage⟩

/-- A search in the staging directory alone. -/
def stagingSearch : LauncherSearch where
  searchPath := some (Utf8.encode "b/my-java-launcher/launcher")

/-- A search that goes through a directory that is missing, to one that has a launcher. -/
def passingSearch : LauncherSearch where
  searchPath := some (Utf8.encode "c/../b/my-java-launcher/launcher:path")

/-- A launcher in one directory, and a link to it in the staging directory of another build. -/
def linkedFiles : FileSystem where
  children := [
    (Utf8.encode "path", .dir [
      (Utf8.encode "my-java-launcher", .file 0o755 (Utf8.encode "run"))]),
    (Utf8.encode "b", .dir [(Utf8.encode "my-java-launcher", .dir [(Utf8.encode "launcher", .dir [
      (Utf8.encode "my-java-launcher", .link (Path.ofString "/path/my-java-launcher"))])])])]
  workingDir := []

def pathSearch : LauncherSearch where
  searchPath := some (Utf8.encode "path")

/-- What has been found may be gone once the staging directory is empty, another launcher may be found
first behind a directory that is made on the way to it, and a launcher may be copied to itself where the
path of the build directory goes up from a missing directory. -/
theorem stage_forgets_find :
    ((∃ w, stagingSearch.find ⟨restagedFiles, []⟩ =
        .ok (Path.ofString "b/my-java-launcher/launcher/my-java-launcher") w) ∧
      ∃ w', stagingSearch.stage restagedLayout ⟨restagedFiles, []⟩ =
        .error (.launcherNotFound launcherName [Path.ofString "b/my-java-launcher/launcher"]) w') ∧
    ((∃ w, passingSearch.find ⟨restagedFiles, []⟩ =
        .ok (Path.ofString "path/my-java-launcher") w) ∧
      restagedFiles.read (Path.ofString "path/my-java-launcher") = .ok (Utf8.encode "run") ∧
      ∃ p w', passingSearch.stage ⟨Path.ofString "c"⟩ ⟨restagedFiles, []⟩ = .ok p w' ∧
        w'.files.read p = .ok (Utf8.encode "old")) ∧
    (∃ w, pathSearch.find ⟨linkedFiles, []⟩ = .ok (Path.ofString "path/my-java-launcher") w) ∧
      linkedFiles.read (Path.ofString "path/my-java-launcher") = .ok (Utf8.encode "run") ∧
      ∃ p w', pathSearch.stage ⟨Path.ofString "c/../b"⟩ ⟨linkedFiles, []⟩ = .ok p w' ∧
        w'.files.read p = .ok [] := by
  have hpassing : Action.endsIn
      (fun w' => w'.files.read (Path.ofString "c/my-java-launcher/launcher/my-java-launcher") =
        .ok (Utf8.encode "old"))
      (passingSearch.stage ⟨Path.ofString "c"⟩ ⟨restagedFiles, []⟩) = true := by decide +kernel
  have hlinked : Action.endsIn
      (fun w' => w'.files.read (Path.ofString "c/../b/my-java-launcher/launcher/my-java-launcher") =
        .ok [])
      (pathSearch.stage ⟨Path.ofString "c/../b"⟩ ⟨linkedFiles, []⟩) = true := by decide +kernel
  obtain ⟨p, w, hstage, hread⟩ := Action.exists_of_endsIn hpassing
  obtain ⟨p', w', hstage', hread'⟩ := Action.exists_of_endsIn hlinked
  obtain ⟨rfl, _⟩ := stage_ok hstage
  obtain ⟨rfl, _⟩ := stage_ok hstage'
  refine ⟨⟨⟨_, find_of_found (by decide +kernel)⟩, _, Action.eq_error_of_failure? (by decide +kernel)⟩,
    ⟨⟨_, find_of_found (by decide +kernel)⟩, by decide +kernel, _, w, hstage, of_decide_eq_true hread⟩,
    ⟨_, find_of_found (by decide +kernel)⟩, by decide +kernel, _, w', hstage', of_decide_eq_true hread'⟩

end LauncherSearch

end LaunchDist
