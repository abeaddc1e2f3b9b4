import LaunchDist.Proofs.FileSystem.Emptying
import LaunchDist.Proofs.Packaging.Preparing
/-!
# What staging the launcher leaves

The staging directory is emptied before the search. The first directory of the search path that then has
the launcher supplies the only entry of the staging directory; if there is none, it stays empty.
-/
namespace LaunchDist

open FileSystem
open LaunchDist.Path (Step IsEntryName)

/-- The entries of a list are what stands between its separators, but for those that are empty. -/
theorem Path.splitList_spec (list : Bytes) :
    ∃ entries : List Bytes, (∀ entry ∈ entries, listSeparator ∉ entry) ∧
      [listSeparator].intercalate entries = list ∧
      splitList list = (entries.filter (· ≠ [])).map Path.mk :=
  ⟨list.splitOn listSeparator, notMem_of_mem_splitOn _ _, List.intercalate_splitOn _, rfl⟩

namespace LauncherSearch

section Search

variable {search : LauncherSearch} {fs : FileSystem}

/-- Whether a search looks in the entries of its search path, in their order. One that is not given
has no entries. -/
def FollowsPath (search : LauncherSearch) : Prop :=
  ∃ entries : List Bytes, (∀ entry ∈ entries, Path.listSeparator ∉ entry) ∧
    [Path.listSeparator].intercalate entries = search.searchPath.getD [] ∧
    search.dirs = (entries.filter (· ≠ [])).map Path.mk

theorem followsPath (search : LauncherSearch) : search.FollowsPath := by
  rw [FollowsPath, dirs]
  cases search.searchPath with
  | none => exact ⟨[], by simp, rfl, rfl⟩
  | some list => exact Path.splitList_spec list

/-- Whether a directory of the search path has the launcher and those before it do not. -/
def IsFirst (search : LauncherSearch) (fs : FileSystem) (dir : Path) : Prop :=
  fs.isFile (dir / search.name) ∧ ∃ earlier later, search.dirs = earlier ++ dir :: later ∧
    ∀ d ∈ earlier, ¬ fs.isFile (d / search.name)

theorem find?_candidates_eq_some {source : Path}
    (h : search.candidates.find? fs.isFile = some source) :
    ∃ dir, search.IsFirst fs dir ∧ source = dir / search.name := by
  rw [candidates, List.find?_map, Option.map_eq_some_iff] at h
  obtain ⟨dir, hfind, rfl⟩ := h
  obtain ⟨hfile, earlier, later, hdirs, hnone⟩ := List.find?_eq_some_iff_append.mp hfind
  exact ⟨dir, ⟨hfile, earlier, later, hdirs, fun d hd => by simpa using hnone d hd⟩, rfl⟩

theorem find?_candidates_eq_none :
    search.candidates.find? fs.isFile = none ↔ ∀ dir ∈ search.dirs, ¬ fs.isFile (dir / search.name) := by
  rw [candidates, List.find?_eq_none, List.forall_mem_map]

end Search

end LauncherSearch

namespace FileSystem

section Entry

variable {fs : FileSystem} {p : Path} {s : String} {k : Nat} {l : Location} {mode : Mode}
  {content : Bytes}

theorem target_of_free (hs : IsEntryName (Utf8.encode s)) (hn : Nameable (p / s))
    (hlen : (Utf8.encode s).length ≤ maxNameLength) (hr : Reaches fs p k l) (hl : fs.isDirAt l)
    (hfree : fs.entry? (l ++ [Utf8.encode s]) = none) :
    fs.target (p / s) = .ok (l ++ [Utf8.encode s], newFileMode) := by
  have hspot : fs.lookupSteps .create k l [.name (Utf8.encode s)] = .ok (.vacant l (Utf8.encode s)) :=
    (lookupSteps_lastEntry (by decide) (by rw [linkAt?, hfree])).mpr ⟨hl, hlen, by rw [if_pos hfree]⟩
  rw [target, locate_of_reachesAlong (by decide) hn (Path.steps_entry p s hs) _ hspot]
  rw [Path.isAbsolute_entry p s hs]
  exact (reaches_iff_moves hl).mp hr

theorem inspect_entry (hs : IsEntryName (Utf8.encode s)) (hn : Nameable (p / s))
    (hlen : (Utf8.encode s).length ≤ maxNameLength) (hr : Reaches fs p k l) {e : DirEntry}
    (he : fs.entry? (l ++ [Utf8.encode s]) = some e) : fs.inspect (p / s) = .ok e := by
  have hne : fs.entry? (l ++ [Utf8.encode s]) ≠ none := by
    rw [he]
    exact Option.some_ne_none _
  have hspot : fs.locate .inspect (p / s) = .ok (.found (l ++ [Utf8.encode s])) :=
    (locate_entry_iff (.inl rfl) hs).mpr
      ⟨hn, hlen, k, l, hr, isDirAt_of_below fs l _ [] hne, by rw [if_neg hne]⟩
  rw [inspect, find, hspot]
  simp only [he]
  rfl

theorem inspect_of_copyFile {fs' : FileSystem} {source : Path} {v : Location}
    (hs : IsEntryName (Utf8.encode s)) (hr : Reaches fs p k l)
    (hlink : fs.linkAt? (l ++ [Utf8.encode s]) = none)
    (hf : fs.find .follow source = .ok (some v, .file mode content))
    (hne : v ≠ l ++ [Utf8.encode s]) (h : fs.copyFile source (p / s) = .ok fs') :
    fs'.inspect (p / s) = .ok (.file mode content) := by
  obtain ⟨start, mode', content', l', m, hf', ht, rfl⟩ := copyFile_spec h
  rw [hf] at hf'
  cases hf'
  obtain ⟨hw, hn, _⟩ := target_spec ht
  obtain ⟨_, hlen, rfl⟩ := target_entry hr hs.isAbsolute hs.steps hlink (.inr rfl) ht
  rw [if_neg hne]
  exact inspect_entry hs hn hlen (hr.mono (hw.keeps_put _ _) (.inr (sameStart_put ..)))
    (hw.entry?_put_self _ _)

theorem entry_of_find {e : DirEntry} {v : Location} (hs : IsEntryName (Utf8.encode s))
    (hf : fs.find .follow (p / s) = .ok (some v, e)) :
    0 ∉ Utf8.encode s ∧ (Utf8.encode s).length ≤ maxNameLength := by
  obtain ⟨hloc, _⟩ := locate_of_find_some hf
  obtain ⟨k, l, _, _, hspot⟩ := reaches_before (by decide) (Path.steps_entry p s hs) hloc
  exact ⟨fun hzero => (nameable_of_find hf).zero_notMem
      ((Path.zero_mem_join p _ hs.isAbsolute).mpr (.inr hzero)),
    length_le_of_lookupSteps hspot _ List.mem_cons_self⟩

end Entry

/-- Whether a path names a directory, and not a link to one, with a single entry. -/
structure HoldsOnly (fs : FileSystem) (p : Path) (name : String) (e : DirEntry) : Prop where
  directory : fs.inspect p = .ok .dir
  list : fs.list p = .ok [Utf8.encode name]
  entry : fs.inspect (p / name) = .ok e

section Empty

variable {fs : FileSystem} {root source : Path} {s t : String} {l v : Location} {mode : Mode}
  {content : Bytes}

theorem namesAt_eq_singleton {n : Name} (h : ∀ m, fs.entry? (l ++ [m]) ≠ none ↔ m = n) :
    fs.namesAt l = [n] := by
  apply List.perm_singleton.mp
  apply (List.perm_ext_iff_of_nodup (nodup_namesAt fs l) (List.nodup_singleton n)).mpr
  intro m
  rw [mem_namesAt_iff, List.mem_singleton, h m]

namespace IsEmptyDir

theorem entry? (h : IsEmptyDir fs root l) : fs.entry? l = some .dir :=
  (locate_of_find_some h.directory).2

theorem free (h : IsEmptyDir fs root l) (n : Name) : fs.entry? (l ++ [n]) = none :=
  h.below _ (List.prefix_append _ _) (by simp)

theorem writable (h : IsEmptyDir fs root l) (n : Name) : Writable fs (l ++ [n]) :=
  ⟨by simp, by rw [List.dropLast_concat]; exact (isDirAt_iff _ _).mpr h.entry?, .inl (h.free n)⟩

theorem entry?_put_iff (h : IsEmptyDir fs root l) (n m : Name) :
    FileSystem.entry? (fs.put (l ++ [n]) (.file mode content)) (l ++ [m]) ≠ none ↔ m = n := by
  rw [(h.writable n).entry?_put]
  by_cases hm : m = n
  · rw [if_pos (by rw [hm])]
    exact iff_of_true (Option.some_ne_none _) hm
  · have hne : l ++ [m] ≠ l ++ [n] := by
      intro heq
      exact hm (List.cons.inj (List.append_cancel_left heq)).1
    rw [if_neg hne, h.free m]
    exact iff_of_false (fun h => h rfl) hm

theorem holdsOnly_put (ht : IsEntryName (Utf8.encode t)) (hs : IsEntryName (Utf8.encode s))
    (h : IsEmptyDir fs (root / t) l) (hn : Nameable (root / t / s))
    (hlen : (Utf8.encode s).length ≤ maxNameLength) :
    HoldsOnly (fs.put (l ++ [Utf8.encode s]) (.file mode content)) (root / t) s
      (.file mode content) := by
  have hw := h.writable (Utf8.encode s)
  have hkeeps := hw.keeps_put mode content
  have hsame := sameStart_put fs (l ++ [Utf8.encode s]) (.file mode content)
  have hdir : ∀ u, fs.entry? u = some .dir →
      FileSystem.entry? (fs.put (l ++ [Utf8.encode s]) (.file mode content)) u = some .dir := fun u hu =>
    (isDirAt_iff _ _).mp (hkeeps.isDirAt u ((isDirAt_iff _ _).mpr hu))
  obtain ⟨_, hr⟩ := reaches_of_find_dir (by decide) h.directory
  obtain ⟨_, hf⟩ := inspect_ok h.inspect
  have htlen : (Utf8.encode t).length ≤ maxNameLength := by
    obtain ⟨_, _, hloc, _⟩ := location_of_find (by decide) (Path.namesOf_entry_ne_nil root t ht) hf
    exact ((locate_entry_iff (.inl rfl) ht).mp hloc).2.1
  obtain ⟨_, home, hhome, _, _, hentry⟩ := find_entry (.inl rfl) ht hf
  constructor
  · exact inspect_entry ht (nameable_of_find hf) htlen (hhome.mono hkeeps (.inr hsame))
      (hdir _ hentry)
  · have hfind : FileSystem.find (fs.put (l ++ [Utf8.encode s]) (.file mode content)) .follow
        (root / t) = .ok (some l, .dir) :=
      find_follow_iff.mpr ⟨nameable_of_find hf, ⟨_, hr.mono hkeeps (.inr hsame)⟩, hdir _ h.entry?⟩
    rw [FileSystem.list, hfind]
    exact congrArg Except.ok (namesAt_eq_singleton (h.entry?_put_iff _))
  · exact inspect_entry hs hn hlen (hr.mono hkeeps (.inr hsame)) (hw.entry?_put_self mode content)

theorem copyFile_eq (hs : IsEntryName (Utf8.encode s)) (h : IsEmptyDir fs root l)
    (hn : Nameable (root / s)) (hlen : (Utf8.encode s).length ≤ maxNameLength)
    (hf : fs.find .follow source = .ok (some v, .file mode content)) :
    fs.copyFile source (root / s) = .ok (fs.put (l ++ [Utf8.encode s]) (.file mode content)) := by
  obtain ⟨_, hr⟩ := reaches_of_find_dir (by decide) h.directory
  have hfree := h.free (Utf8.encode s)
  have hne : v ≠ l ++ [Utf8.encode s] := by
    rintro rfl
    rw [(locate_of_find_some hf).2] at hfree
    cases hfree
  rw [copyFile, hf]
  simp only [target_of_free hs hn hlen hr ((isDirAt_iff _ _).mpr h.entry?) hfree, if_neg hne]

end IsEmptyDir

end Empty

end FileSystem

namespace LauncherSearch

/-- How staging ends once the staging directory has been emptied. -/
inductive EndsStaging (search : LauncherSearch) (staging : Path) (cleared : Workspace) :
    EStateM.Result Failure Workspace Path → Prop where
  /-- The launcher of the first directory that has one is the only entry of the staging directory. -/
  | staged (dir : Path) (mode : Mode) (content : Bytes) (w' : Workspace)
      (first : search.IsFirst cleared.files dir)
      (stat : cleared.files.stat (dir / search.name) = .ok (.file mode content))
      (fits : isTooLong (staging / search.name) = false)
      (only : HoldsOnly w'.files staging search.name (.file mode content)) :
      EndsStaging search staging cleared (.ok (staging / search.name) w')
  /-- There is a launcher, but no path at which to stage it. -/
  | tooLong (dir : Path) (w' : Workspace) (first : search.IsFirst cleared.files dir)
      (long : isTooLong (staging / search.name) = true) (files : w'.files = cleared.files) :
      EndsStaging search staging cleared
        (.error (.io (staging / search.name) (.system .nameTooLong)) w')
  | missing (none : ∀ dir ∈ search.dirs, ¬ cleared.files.isFile (dir / search.name)) :
      EndsStaging search staging cleared (.error (.launcherNotFound search.name search.dirs) cleared)

section Stage

variable {search : LauncherSearch} {layout : BuildLayout} {w : Workspace} {cleared : FileSystem}
  {l : Location} {dir : Path}

theorem isEmptyDir_of_resetDir (hup : Step.up ∉ layout.buildDir.steps)
    (hreset : FileSystem.resetDir layout.stagingDir w.files = .ok () cleared) :
    ∃ l, IsEmptyDir cleared layout.stagingDir l := by
  have hne : layout.stagingDir.bytes ≠ [] :=
    Path.bytes_ne_nil_of_steps (Path.steps_entry layout.root _ isEntryName_stagingDir)
  have hup' : Step.up ∉ layout.stagingDir.moves :=
    (Path.up_notMem_moves_entry layout.root _ isEntryName_stagingDir).mpr
      (BuildLayout.up_notMem_root hup)
  exact (madeAnew_of_resetDir hne hreset).empty (.inl ((Path.up_notMem_steps_iff _).mpr hup'))

/-- A launcher that is found in the emptied state becomes the only entry of the staging directory, if
its path is not too long. -/
private theorem endsStaging_of_found (hname : IsEntryName (Utf8.encode search.name))
    (hreset : FileSystem.resetDir layout.stagingDir w.files = .ok () cleared)
    (hempty : IsEmptyDir cleared layout.stagingDir l) (hfirst : search.IsFirst cleared dir)
    (hsource : search.candidates.find? cleared.isFile = some (dir / search.name)) :
    EndsStaging search layout.stagingDir { w with files := cleared } (search.stage layout w) := by
  obtain ⟨v, mode, content, hf⟩ := isFile_iff.mp hfirst.1
  obtain ⟨hzero, hlen⟩ := entry_of_find hname hf
  have hzero' : 0 ∉ (layout.stagingDir / search.name).bytes := by
    intro hm
    rcases (Path.zero_mem_join _ _ hname.isAbsolute).mp hm with hm | hm
    · exact (nameable_of_find hempty.directory).zero_notMem hm
    · exact hzero hm
  cases hlong : isTooLong (layout.stagingDir / search.name) with
  | false =>
    have hn : Nameable (layout.stagingDir / search.name) :=
      ⟨hlong, hzero', Path.bytes_ne_nil_of_steps (Path.steps_entry _ _ hname)⟩
    obtain ⟨w', hstage, hfiles⟩ :=
      stage_of_ok hreset hsource (hempty.copyFile_eq hname hn hlen hf)
    rw [hstage]
    refine .staged dir mode content w' hfirst (stat_of_find hf) hlong ?_
    rw [hfiles]
    exact hempty.holdsOnly_put isEntryName_stagingDir hname hn hlen
  | true =>
    have hcopy : cleared.copyFile (dir / search.name) (layout.stagingDir / search.name) =
        .error (layout.stagingDir / search.name, .system .nameTooLong) := by
      rw [copyFile, hf]
      simp only [target, locate, if_pos (show isTooLong (layout.stagingDir / search.name) ∧
        ¬ (layout.stagingDir / search.name).bytes.contains 0 by simpa [hlong] using hzero')]
    have hcopied := Action.copyFile_of_error
      (w := { files := cleared, log := w.log ++ [.foundLauncher (dir / search.name)] }) hcopy
    rw [stage_of_found hreset hsource, Action.bind_error_iff.mpr (.inl hcopied)]
    exact .tooLong dir _ hfirst hlong rfl

theorem endsStaging_of_resetDir (hname : IsEntryName (Utf8.encode search.name))
    (hreset : FileSystem.resetDir layout.stagingDir w.files = .ok () cleared)
    (hempty : IsEmptyDir cleared layout.stagingDir l) :
    EndsStaging search layout.stagingDir { w with files := cleared } (search.stage layout w) := by
  cases hsource : search.candidates.find? cleared.isFile with
  | some source =>
    obtain ⟨dir, hfirst, rfl⟩ := find?_candidates_eq_some hsource
    exact endsStaging_of_found hname hreset hempty hfirst hsource
  | none =>
    have hfind := find_of_missing (w := { w with files := cleared }) hsource
    rw [stage, Action.bind_of_ok (resetDir_of_ok hreset), Action.bind_error_iff.mpr (.inl hfind)]
    exact .missing (find?_candidates_eq_none.mp hsource)

end Stage

/-- Staging empties the staging directory and fails if that does. Else it ends with the launcher of the
first directory of the search path that has one, as the only entry of the staging directory. Without one,
the staging directory stays empty. -/
theorem stage_outcome (search : LauncherSearch) (layout : BuildLayout) (w : Workspace)
    (hname : IsEntryName (Utf8.encode search.name)) (hup : Step.up ∉ layout.buildDir.steps) :
    search.FollowsPath ∧
      ((∃ failure w', Action.resetDir layout.stagingDir w = .error failure w' ∧
        search.stage layout w = .error failure w') ∨
      ∃ cleared l, Action.resetDir layout.stagingDir w = .ok () cleared ∧
        IsEmptyDir cleared.files layout.stagingDir l ∧
        EndsStaging search layout.stagingDir cleared (search.stage layout w)) := by
  refine ⟨search.followsPath, ?_⟩
  cases hreset : Action.resetDir layout.stagingDir w with
  | error failure w' =>
    refine .inl ⟨failure, w', rfl, ?_⟩
    rw [stage]
    exact Action.bind_error_iff.mpr (.inl hreset)
  | ok u cleared =>
    obtain ⟨files, hfiles, rfl⟩ := Action.changeAt_ok_iff.mp hreset
    obtain ⟨l, hempty⟩ := isEmptyDir_of_resetDir hup hfiles
    exact .inr ⟨_, l, rfl, hempty, endsStaging_of_resetDir hname hfiles hempty⟩

/-- A launcher in one directory, and an older one where it is to be staged. -/
def restagedFiles : FileSystem where
  children := [
    (Utf8.encode "path", .dir [
      (Utf8.encode "my-java-launcher", .file 0o755 (Utf8.encode "run"))]),
    (Utf8.encode "b", .dir [(Utf8.encode "my-java-launcher", .dir [(Utf8.encode "launcher", .dir [
      (Utf8.encode "my-java-launcher", .file 0o755 (Utf8.encode "old"))])])])]
  workingDir := []

/-- A search in a directory that is missing, in the staging directory, and twice where the launcher
is. -/
def restagedSearch : LauncherSearch where
  searchPath := some (Utf8.encode "a::b/my-java-launcher/launcher:path:path")

def restagedLayout : BuildLayout :=
  ⟨Path.ofString "b"⟩

theorem stage_outcome_restagedFiles :
    IsEntryName (Utf8.encode restagedSearch.name) ∧ Step.up ∉ restagedLayout.buildDir.steps ∧
      ∃ p w', restagedSearch.stage restagedLayout ⟨restagedFiles, []⟩ = .ok p w' ∧
        HoldsOnly w'.files restagedLayout.stagingDir restagedSearch.name
          (.file 0o755 (Utf8.encode "run")) := by
  have hname : IsEntryName (Utf8.encode restagedSearch.name) := isEntryName_launcherName
  have hup : Step.up ∉ restagedLayout.buildDir.steps := by decide +kernel
  have hends : Action.endsIn (fun w' => w'.files.inspect
      (restagedLayout.stagingDir / restagedSearch.name) = .ok (.file 0o755 (Utf8.encode "run")))
      (restagedSearch.stage restagedLayout ⟨restagedFiles, []⟩) = true := by decide +kernel
  obtain ⟨p, w', hstage, htest⟩ := Action.exists_of_endsIn hends
  obtain ⟨_, ⟨_, _, _, h⟩ | ⟨_, _, _, _, h⟩⟩ :=
    stage_outcome restagedSearch restagedLayout ⟨restagedFiles, []⟩ hname hup
  · rw [hstage] at h
    cases h
  · rw [hstage] at h
    cases h with
    | staged dir mode content _ _ _ _ only =>
      have hentry := only.entry
      rw [of_decide_eq_true htest] at hentry
      cases hentry
      exact ⟨hname, hup, _, w', hstage, only⟩

/-- A build directory whose path is so long that none is left for a launcher in the staging
directory. -/
def stretchedLayout : BuildLayout :=
  ⟨⟨Utf8.encode "c" ++ List.replicate 4060 Path.separator⟩⟩

/-- The staging directory of a long path can be emptied, but nothing be put into it. -/
theorem stage_stretched_fails :
    Step.up ∉ stretchedLayout.buildDir.steps ∧
      ∃ cleared w', Action.resetDir stretchedLayout.stagingDir ⟨restagedFiles, []⟩ = .ok () cleared ∧
        restagedSearch.stage stretchedLayout ⟨restagedFiles, []⟩ =
          .error (.io (stretchedLayout.stagingDir / restagedSearch.name) (.system .nameTooLong)) w' := by
  have hup : Step.up ∉ stretchedLayout.buildDir.steps := by decide +kernel
  have hends : Action.endsIn (fun w' => (restagedSearch.candidates.find? w'.files.isFile).isSome)
      (Action.resetDir stretchedLayout.stagingDir ⟨restagedFiles, []⟩) = true := by decide +kernel
  obtain ⟨_, cleared, hreset, htest⟩ := Action.exists_of_endsIn hends
  obtain ⟨files, hfiles, rfl⟩ := Action.changeAt_ok_iff.mp hreset
  obtain ⟨l, hempty⟩ := isEmptyDir_of_resetDir hup hfiles
  have hlong : isTooLong (stretchedLayout.stagingDir / restagedSearch.name) = true := by
    decide +kernel
  have h : EndsStaging restagedSearch stretchedLayout.stagingDir _ _ :=
    endsStaging_of_resetDir isEntryName_launcherName hfiles hempty
  generalize restagedSearch.stage stretchedLayout ⟨restagedFiles, []⟩ = ended at h ⊢
  cases h with
  | staged dir mode content w' first stat fits only =>
    rw [hlong] at fits
    cases fits
  | tooLong dir w' first long files => exact ⟨hup, _, w', hreset, rfl⟩
  | missing none =>
    rw [find?_candidates_eq_none.mpr none] at htest
    cases htest

end LauncherSearch

end LaunchDist
