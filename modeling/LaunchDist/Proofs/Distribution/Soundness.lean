import LaunchDist.Proofs.Distribution.Layout
import LaunchDist.Proofs.Distribution.Recheck
import LaunchDist.Proofs.Path.Shorter
/-!
# What a checked distribution holds

The check looks for the libraries from `bin`, as the launcher does, so it finds those next to the
directory that `bin` leads to. In `bin` it counts the entries and looks at their names.
-/
namespace LaunchDist

namespace Distribution

open FileSystem
open LaunchDist.Path (Step IsEntryName)

variable {fs : FileSystem} {root : Path} {name : String} {k : Nat} {l : Location} {s : Step}

/-- The way of a class path entry: to the root, to `bin`, back from where that leads, to `lib` and one
step on. -/
theorem leads_of_library (hsep : Path.separator ∉ Utf8.encode name) (hne : Utf8.encode name ≠ [])
    (hr : Reaches fs (binDirOf root / (Manifest.libraryRoot ++ name)) k l) :
    ∃ s, (Path.ofString name).steps = [s] ∧ ∃ k0 home k1 bin k2 lib,
      fs.ReachesAlong root.isAbsolute root.moves k0 home ∧
      Leads fs k0 home [.name binName] k1 bin ∧ fs.isDirAt bin ∧
      Leads fs k1 bin.dropLast [.name libName] k2 lib ∧ Leads fs k2 lib [s] k l := by
  obtain ⟨habs, hmoves, s, hs, hsteps⟩ := Manifest.steps_library hsep hne
  have hjoin : binDirOf root / (Manifest.libraryRoot ++ name) =
      (binDirOf root).join (Path.ofString (Manifest.libraryRoot ++ name)) := rfl
  have hbin : (binDirOf root).moves = root.moves ++ [.name binName] :=
    Path.moves_entry root "bin" isEntryName_bin
  rw [Reaches, hjoin, Path.isAbsolute_join _ _ habs, Path.steps_join _ _ habs hmoves, hbin, hsteps,
    isAbsolute_binDirOf, List.append_assoc] at hr
  obtain ⟨k0, home, hroot, hl⟩ := hr.split fun _ => rfl
  obtain ⟨k1, bin, hl1, hl⟩ := Leads.split [.name binName] _ hl
  cases hl with
  | stay hstay => simp at hstay
  | up hd hl =>
    obtain ⟨k2, lib, hl2, hl3⟩ := Leads.split [.name libName] [s] hl
    exact ⟨s, hs, k0, home, k1, bin, k2, lib, hroot, hl1, hd, hl2, hl3⟩

theorem isEntryName_of_library (hsep : Path.separator ∉ Utf8.encode name)
    (hne : Utf8.encode name ≠ [])
    (hr : Reaches fs (binDirOf root / (Manifest.libraryRoot ++ name)) k l)
    (hfile : ¬ fs.isDirAt l) : IsEntryName (Utf8.encode name) := by
  obtain ⟨s, hs, _, _, _, _, _, _, _, _, _, _, hlast⟩ := leads_of_library hsep hne hr
  have habs : (Path.ofString name).isAbsolute = false :=
    (Path.steps_of_separator_notMem _ hsep hne).1
  cases s with
  | name n =>
    obtain ⟨rfl, hn⟩ := Path.isEntryName_of_steps _ n habs hs
    exact hn
  | here | up | slash => exact absurd (hlast.isDirAt_end (by simp)) hfile

/-- Where `bin` leads to a directory right in that of the root, a library is found from there too. -/
theorem reaches_library (hn : IsEntryName (Utf8.encode name))
    (hr : Reaches fs (binDirOf root / (Manifest.libraryRoot ++ name)) k l)
    (hbeside : (fs.destination (binDirOf root)).dropLast = fs.destination root) :
    ∃ k', Reaches fs (libDirOf root / name) k' l := by
  obtain ⟨s, hs, k0, home, k1, bin, k2, lib, hroot, hbin, hd, hlib, hlast⟩ :=
    leads_of_library hn.1 hn.ne_nil hr
  obtain rfl : s = .name (Utf8.encode name) := by
    have hsteps : (Path.ofString name).steps = [.name (Utf8.encode name)] := hn.steps
    rw [hsteps] at hs
    exact (List.cons.inj hs).1.symm
  have hhome := hbin.isDirAt_start hd
  have hreaches := (reaches_iff_moves hhome).mpr hroot
  have hreachesBin : Reaches fs (binDirOf root) k1 bin :=
    (reaches_entry_iff isEntryName_bin).mpr ⟨k0, home, hreaches, hhome, hbin⟩
  rw [hreaches.destination_eq, hreachesBin.destination_eq] at hbeside
  rw [hbeside] at hlib
  -- The way to `lib` that leaves out `bin` has its links left to follow.
  obtain ⟨d, rfl⟩ := Nat.exists_eq_add_of_le hbin.links_le
  have hmoves : (libDirOf root).moves = root.moves ++ [.name libName] :=
    Path.moves_entry root "lib" isEntryName_lib
  refine ⟨k + d, ?_⟩
  rw [Reaches, Path.isAbsolute_entry _ _ hn, Path.steps_entry _ _ hn, hmoves, List.append_assoc,
    libDirOf, Path.isAbsolute_entry _ _ isEntryName_lib]
  exact hroot.append ((hlib.more d).append (hlast.more d))

theorem nameable_library (hn : IsEntryName (Utf8.encode name))
    (h : Nameable (binDirOf root / (Manifest.libraryRoot ++ name))) :
    Nameable (libDirOf root / name) := by
  obtain ⟨habs, _⟩ := Manifest.steps_library hn.1 hn.ne_nil
  have hentry : (Path.ofString (Manifest.libraryRoot ++ name)).bytes =
      Utf8.encode "../lib" ++ Path.separator :: Utf8.encode name := Manifest.encode_library name
  refine ⟨?_, ?_, Path.bytes_ne_nil_of_steps (Path.steps_entry _ _ hn)⟩
  · have hbin := (Path.length_join (binDirOf root) _ habs).1
    have hlib := (Path.length_join (libDirOf root) (Path.ofString name) hn.isAbsolute).2
    have heq : (libDirOf root).bytes.length = (binDirOf root).bytes.length :=
      Path.length_join_congr root isEntryName_lib.isAbsolute isEntryName_bin.isAbsolute rfl
    have hlen : (Path.ofString name).bytes.length + 7 ≤
        (Path.ofString (Manifest.libraryRoot ++ name)).bytes.length := by
      have hup : (Utf8.encode "../lib").length = 6 := rfl
      change (Utf8.encode name).length + 7 ≤ _
      rw [hentry, List.length_append, List.length_cons, hup]
      omega
    have hlong := h.isTooLong
    rw [isTooLong, decide_eq_false_iff_not, Nat.not_lt] at hlong ⊢
    refine hlib.trans (Nat.le_trans ?_ (hbin.trans hlong))
    omega
  · intro hzero
    refine h.zero_notMem ((Path.zero_mem_join (binDirOf root) _ habs).mpr ?_)
    rcases (Path.zero_mem_join (libDirOf root) _ hn.isAbsolute).mp hzero with hzero | hzero
    · refine .inl ((Path.zero_mem_join root _ isEntryName_bin.isAbsolute).mpr (.inl ?_))
      exact ((Path.zero_mem_join root _ isEntryName_lib.isAbsolute).mp hzero).resolve_right (by decide)
    · exact .inr (Manifest.zero_mem_library.mpr hzero)

theorem beside_of_linkAt? (hbin : fs.isDir (binDirOf root))
    (hl : fs.linkAt? (fs.place root binName) = none) :
    (fs.destination (binDirOf root)).dropLast = fs.destination root := by
  obtain ⟨l?, hf⟩ := find_of_isDir hbin
  obtain ⟨l, rfl, _⟩ := location_of_find (by decide) (Path.namesOf_entry_ne_nil root _ isEntryName_bin) hf
  obtain ⟨_, ⟨k, hr⟩, _⟩ := find_follow_iff.mp hf
  obtain ⟨_, hplace, _⟩ := Reaches.below isEntryName_bin hr hl
  rw [show fs.destination (binDirOf root) = l from hr.destination_eq, hplace, place,
    List.dropLast_concat]

/-- Every class path entry of a checked distribution names a file in the `lib` next to the directory
that `bin` leads to, which is the distribution's own one unless `bin` is a link to elsewhere. -/
theorem libraries_of_check (root : Path) (w w' : Workspace) (report : DistributionReport)
    (h : check root w = .ok report w') :
    ∀ entry ∈ report.classpath, ∃ name, entry = Manifest.libraryRoot ++ name ∧
      IsEntryName (Utf8.encode name) ∧ w.files.isFile (binDirOf root / entry) ∧
      (w.files.linkAt? (w.files.place root binName) = none ∨
          (w.files.destination (binDirOf root)).dropLast = w.files.destination root →
        w.files.isFile (libDirOf root / name)) := by
  intro entry he
  obtain ⟨hbin, _, m, _, hinspect⟩ := check_ok h
  obtain ⟨hvalid, hfiles, _, _, rfl⟩ := inspect_ok_iff.mp hinspect
  obtain ⟨name, rfl, hsep, hne⟩ :=
    Manifest.exists_of_isLibraryEntry (Manifest.isLibraryEntry_of_validate hvalid entry he)
  have hfile := hfiles _ he
  obtain ⟨l, mode, content, hf⟩ := isFile_iff.mp hfile
  obtain ⟨hnameable, ⟨k, hr⟩, hentry⟩ := find_follow_iff.mp hf
  have hn : IsEntryName (Utf8.encode name) := by
    refine isEntryName_of_library hsep hne hr fun hd => ?_
    rw [isDirAt_iff, hentry] at hd
    cases hd
  refine ⟨name, rfl, hn, hfile, fun hbeside => ?_⟩
  obtain ⟨k', hr'⟩ := reaches_library hn hr (hbeside.elim (beside_of_linkAt? hbin) id)
  exact isFile_iff.mpr ⟨l, mode, content,
    find_follow_iff.mpr ⟨nameable_library hn hnameable, ⟨k', hr'⟩, hentry⟩⟩

/-- A distribution in which all is as it should be. -/
def soundDist : Node :=
  .dir [
    (Utf8.encode "bin", .dir [
      (Utf8.encode "app", .file 0o755 (Utf8.encode "run")),
      (Utf8.encode Manifest.fileName, .file 0o644 (Utf8.encode looseManifest.render))]),
    (Utf8.encode "lib", .dir [(Utf8.encode "a.jar", .file 0o644 (Utf8.encode "library"))])]

/-- A distribution whose `bin` is a link to that of another one. -/
def borrowedFiles : FileSystem where
  children := [
    (Utf8.encode "d", .dir [
      (Utf8.encode "bin", .link (Path.ofString "../o/bin")),
      (Utf8.encode "lib", .dir [])]),
    (Utf8.encode "o", soundDist)]
  workingDir := []

theorem libraries_of_check_borrowedFiles :
    ∃ w', check (Path.ofString "o") ⟨borrowedFiles, []⟩ =
        .ok ⟨"app", "Main", 21, ["../lib/a.jar"]⟩ w' ∧
      borrowedFiles.isFile (libDirOf (Path.ofString "o") / "a.jar") := by
  have hf : borrowedFiles.find .follow (binDirOf (Path.ofString "o") / Manifest.fileName) =
      .ok (some [Utf8.encode "o", binName, Utf8.encode Manifest.fileName],
        .file 0o644 (Utf8.encode looseManifest.render)) := by rfl
  obtain ⟨w', h⟩ : ∃ w', check (Path.ofString "o") ⟨borrowedFiles, []⟩ =
      .ok ⟨"app", "Main", 21, ["../lib/a.jar"]⟩ w' :=
    check_of_find (by decide +kernel) (by decide +kernel) hf (by decide +kernel)
  refine ⟨w', h, ?_⟩
  obtain ⟨name, hname, _, _, hlib⟩ := libraries_of_check _ _ _ _ h "../lib/a.jar" (by simp)
  have heq : name = "a.jar" := by
    have hlist : Manifest.libraryRoot.toList ++ name.toList =
        Manifest.libraryRoot.toList ++ "a.jar".toList := by
      rw [← String.toList_append, ← hname]
      decide
    exact String.toList_injective (List.append_cancel_left hlist)
  rw [← heq]
  exact hlib (.inl (by decide +kernel))

/-- The libraries of another distribution do for one that takes its `bin` from there. -/
theorem check_borrowedFiles_without_library :
    (∃ w', check (Path.ofString "d") ⟨borrowedFiles, []⟩ =
      .ok ⟨"app", "Main", 21, ["../lib/a.jar"]⟩ w') ∧
    borrowedFiles.isFile (libDirOf (Path.ofString "d") / "a.jar") = false := by
  have hf : borrowedFiles.find .follow (binDirOf (Path.ofString "d") / Manifest.fileName) =
      .ok (some [Utf8.encode "o", binName, Utf8.encode Manifest.fileName],
        .file 0o644 (Utf8.encode looseManifest.render)) := by rfl
  exact ⟨check_of_find (by decide +kernel) (by decide +kernel) hf (by decide +kernel),
    by decide +kernel⟩

/-- The names that are not shown as that of the manifest are one, and that of the manifest is written
just as it is shown. -/
theorem perm_of_otherNames {names : List Name} {launcher : String} (hnodup : names.Nodup)
    (hmanifest : Utf8.encode Manifest.fileName ∈ names) (h : otherNames names = [launcher]) :
    ∃ n, names.Perm [n, Utf8.encode Manifest.fileName] ∧ n ≠ Utf8.encode Manifest.fileName ∧
      Utf8.decodeLossy n = launcher ∧ launcher ≠ Manifest.fileName := by
  rw [otherNames, List.filter_map, List.map_eq_singleton_iff] at h
  obtain ⟨n, hfilter, hshown⟩ := h
  have hn : n ∈ names ∧ Utf8.decodeLossy n ≠ Manifest.fileName := by
    have hmem : n ∈ names.filter _ := hfilter ▸ List.mem_singleton_self n
    simpa using hmem
  have hne : n ≠ Utf8.encode Manifest.fileName := by
    rintro rfl
    exact hn.2 (Utf8.decodeLossy_encode _)
  refine ⟨n, ?_, hne, hshown, hshown ▸ hn.2⟩
  refine (List.perm_ext_iff_of_nodup hnodup (by simpa using hne)).mpr fun a => ?_
  rw [List.mem_cons, List.mem_singleton]
  constructor
  · intro ha
    by_cases hshow : Utf8.decodeLossy a = Manifest.fileName
    · exact .inr (Utf8.eq_encode_of_decodeLossy hshow (by decide))
    · have hmem : a ∈ names.filter ((fun s => decide (s ≠ Manifest.fileName)) ∘ Utf8.decodeLossy) :=
        List.mem_filter.mpr ⟨ha, by simpa using hshow⟩
      rw [hfilter] at hmem
      exact .inl (List.mem_singleton.mp hmem)
  · rintro (rfl | rfl)
    · exact hn.1
    · exact hmanifest

/-- Besides the manifest file, `bin` of a checked distribution holds one entry, whose name shows as
that of the launcher. -/
theorem entries_of_check (root : Path) (w w' : Workspace) (report : DistributionReport)
    (h : check root w = .ok report w') :
    w.files.isFile (binDirOf root / Manifest.fileName) ∧
    ∃ names n, w.files.list (binDirOf root) = .ok names ∧
      names.Perm [n, Utf8.encode Manifest.fileName] ∧ n ≠ Utf8.encode Manifest.fileName ∧
      Utf8.decodeLossy n = report.launcherName ∧ report.launcherName ≠ Manifest.fileName := by
  obtain ⟨hbin, _, m, hm, hinspect⟩ := check_ok h
  obtain ⟨_, _, launcher, hsole, rfl⟩ := inspect_ok_iff.mp hinspect
  obtain ⟨mode, content, _, hstat, _⟩ := Manifest.atPath_ok_iff.mp hm
  refine ⟨by rw [FileSystem.isFile, hstat], ?_⟩
  obtain ⟨l?, hf⟩ := find_of_isDir hbin
  obtain ⟨v, rfl, _⟩ := location_of_find (by decide)
    (Path.namesOf_entry_ne_nil root _ isEntryName_bin) hf
  have hlist : w.files.list (binDirOf root) = .ok (w.files.namesAt v) := by
    rw [FileSystem.list, hf]
  have hmanifest : Utf8.encode Manifest.fileName ∈ w.files.namesAt v := by
    obtain ⟨l, hfile⟩ := find_of_stat_file hstat
    obtain ⟨_, ⟨k, hr⟩, _⟩ := find_follow_iff.mp hfile
    obtain ⟨_, v', hr', _, hl⟩ := (reaches_entry_iff isEntryName_manifest).mp hr
    obtain ⟨_, ⟨_, hv⟩, _⟩ := find_follow_iff.mp hf
    obtain rfl := (Reaches.unique hr' hv).2
    rw [mem_namesAt_iff]
    cases hl with
    | stay hs => simp at hs
    | enter _ _ he => exact he
    | follow _ _ hl => exact entry?_ne_none_of_linkAt? hl
  rw [soleLauncher, hlist] at hsole
  have hother : otherNames (w.files.namesAt v) = [launcher] := by
    simp only at hsole
    split at hsole
    · rename_i hnames
      rw [hnames, Except.ok.inj hsole]
    · cases hsole
    · cases hsole
  obtain ⟨n, hperm, hne, hshown, hlauncher⟩ := perm_of_otherNames (nodup_namesAt _ v) hmanifest hother
  exact ⟨_, n, hlist, hperm, hne, hshown, hlauncher⟩

/-- A distribution with a directory in place of the launcher. -/
def hollowFiles : FileSystem where
  children := [(Utf8.encode "d", .dir [
    (Utf8.encode "bin", .dir [
      (Utf8.encode "app", .dir []),
      (Utf8.encode Manifest.fileName, .file 0o644 (Utf8.encode looseManifest.render))]),
    (Utf8.encode "lib", .dir [(Utf8.encode "a.jar", .file 0o644 (Utf8.encode "library"))])])]
  workingDir := []

private theorem check_hollowFiles :
    ∃ w', check (Path.ofString "d") ⟨hollowFiles, []⟩ =
      .ok ⟨"app", "Main", 21, ["../lib/a.jar"]⟩ w' := by
  have hf : hollowFiles.find .follow (binDirOf (Path.ofString "d") / Manifest.fileName) =
      .ok (some [Utf8.encode "d", binName, Utf8.encode Manifest.fileName],
        .file 0o644 (Utf8.encode looseManifest.render)) := by rfl
  exact check_of_find (by decide +kernel) (by decide +kernel) hf (by decide +kernel)

theorem entries_of_check_hollowFiles :
    (∃ w', check (Path.ofString "d") ⟨hollowFiles, []⟩ =
      .ok ⟨"app", "Main", 21, ["../lib/a.jar"]⟩ w') ∧
    ∃ names n, hollowFiles.list (binDirOf (Path.ofString "d")) = .ok names ∧
      names.Perm [n, Utf8.encode Manifest.fileName] ∧ Utf8.decodeLossy n = "app" := by
  obtain ⟨w', h⟩ := check_hollowFiles
  obtain ⟨_, names, n, hlist, hperm, _, hshown, _⟩ := entries_of_check _ _ _ _ h
  exact ⟨⟨w', h⟩, names, n, hlist, hperm, hshown⟩

/-- What the check takes for the launcher need not be a file. -/
theorem check_hollowFiles_without_launcher :
    (∃ w', check (Path.ofString "d") ⟨hollowFiles, []⟩ =
      .ok ⟨"app", "Main", 21, ["../lib/a.jar"]⟩ w') ∧
    hollowFiles.list (binDirOf (Path.ofString "d")) =
      .ok [Utf8.encode "app", Utf8.encode Manifest.fileName] ∧
    hollowFiles.isFile (binDirOf (Path.ofString "d") / "app") = false :=
  ⟨check_hollowFiles, by decide +kernel, by decide +kernel⟩

end Distribution

end LaunchDist
