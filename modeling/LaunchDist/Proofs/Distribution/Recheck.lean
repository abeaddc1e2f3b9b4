import LaunchDist.Proofs.Distribution.Refusal
import LaunchDist.Proofs.FileSystem.Listing
import LaunchDist.Proofs.FileSystem.Sources
import LaunchDist.Proofs.FileSystem.Steady
import LaunchDist.Proofs.Manifest.Rules
/-!
# Checking an unchanged distribution

A distribution without links is checked by looking at its two directories and at the way to its root
alone. If these are as they were, so is the outcome.
-/
namespace LaunchDist

namespace Distribution

open FileSystem
open LaunchDist.Path (Step IsEntryName)

/-- Whether nothing has happened to a distribution without links, or on the way to its root. -/
structure Untouched (fs fs' : FileSystem) (root : Path) : Prop where
  start : root.isAbsolute = true ∨ SameStart fs fs'
  way : ∀ u ∈ fs.trail root, fs'.entry? u = fs.entry? u
  inside : ∀ u, Inside fs root u → fs'.entry? u = fs.entry? u
  linkAt? : ∀ u, Inside fs root u → fs.linkAt? u = none

namespace Untouched

variable {fs fs' : FileSystem} {root p q : Path} {k : Nat} {l v : Location} {e : DirEntry} {s : String}
  {w w' w1 : Workspace}

/-- What a path finds is found again, if its way does not leave the distribution. -/
theorem find_eq (h : Untouched fs fs' root) (habs : p.isAbsolute = root.isAbsolute)
    (hway : ∀ u ∈ fs.trail p, u ∈ fs.trail root ∨ Inside fs root u)
    (hf : fs.find .follow p = .ok (some l, e)) : fs'.find .follow p = .ok (some l, e) := by
  refine find_of_same hf ?_ fun u hu => (hway u hu).elim (h.way u) (h.inside u)
  rw [habs]
  exact h.start

theorem way_part (h : Untouched fs fs' root) (hs : IsEntryName (Utf8.encode s))
    (hd : IsPart (Utf8.encode s)) (hr : Reaches fs (root / s) k v) :
    Reaches fs root k (fs.destination root) ∧ v = fs.place root (Utf8.encode s) ∧
      Inside fs root v ∧ ∀ u ∈ fs.trail (root / s), u ∈ fs.trail root ∨ Inside fs root u := by
  have hinside : Inside fs root (fs.place root (Utf8.encode s)) := by
    rcases hd with hd | hd
    · exact .inl (by rw [hd])
    · exact .inr (by rw [hd])
  obtain ⟨hroot, rfl, htrail⟩ := Reaches.below hs hr (h.linkAt? _ hinside)
  exact ⟨hroot, rfl, hinside, fun u hu => (htrail u hu).imp_right fun heq => by rwa [heq]⟩

theorem isDir_part (h : Untouched fs fs' root) (hs : IsEntryName (Utf8.encode s))
    (hd : IsPart (Utf8.encode s)) (hdir : fs.isDir (root / s)) :
    ∃ k v, Reaches fs (root / s) k v ∧ fs.isDirAt v ∧
      fs.find .follow (root / s) = .ok (some v, .dir) ∧
      fs'.find .follow (root / s) = .ok (some v, .dir) := by
  obtain ⟨l?, hf⟩ := find_of_isDir hdir
  obtain ⟨l, rfl, _⟩ := location_of_find (by decide) (Path.namesOf_entry_ne_nil root s hs) hf
  obtain ⟨_, ⟨k, hr⟩, he⟩ := find_follow_iff.mp hf
  obtain ⟨_, _, _, hway⟩ := h.way_part hs hd hr
  exact ⟨k, l, hr, (isDirAt_iff _ _).mpr he, hf,
    h.find_eq (Path.isAbsolute_entry root s hs) hway hf⟩

theorem way_manifest (h : Untouched fs fs' root) (hr : Reaches fs (binDirOf root) k v)
    (hv : fs.isDirAt v) :
    ∀ u ∈ fs.trail (binDirOf root / Manifest.fileName), u ∈ fs.trail root ∨ Inside fs root u := by
  obtain ⟨_, rfl, hin, hbin⟩ := h.way_part isEntryName_bin (.inr rfl) hr
  have hinside : Inside fs root
      (fs.place root (Utf8.encode "bin") ++ [Utf8.encode Manifest.fileName]) :=
    .inr (List.prefix_append _ _)
  intro u hu
  rcases (mem_trail_entry isEntryName_manifest hr hv u).mp hu with hu | hu
  · exact hbin u hu
  · rw [trailSteps_enter _ _ _ _ _ (h.linkAt? _ hinside), trailSteps_nil] at hu
    rcases List.mem_cons.mp hu with rfl | hu
    · exact .inr hin
    · obtain rfl := List.mem_singleton.mp hu
      exact .inr hinside

theorem trailSteps_last (h : Untouched fs fs' root) (s : Step) :
    ∀ u ∈ fs.trailSteps k (fs.place root libName) [s], u ∈ fs.trail root ∨ Inside fs root u := by
  have hlib : Inside fs root (fs.place root libName) := .inl List.prefix_rfl
  intro u hu
  cases s with
  | here | slash =>
    rw [trailSteps_stay _ _ _ _ _ (by simp), trailSteps_nil] at hu
    obtain rfl := List.mem_singleton.mp hu
    exact .inr hlib
  | up =>
    rw [trailSteps_up, trailSteps_nil] at hu
    rcases List.mem_cons.mp hu with rfl | hu
    · exact .inr hlib
    · obtain rfl := List.mem_singleton.mp hu
      rw [place, List.dropLast_concat]
      exact .inl (destination_mem_trail fs root)
  | name n =>
    have hin : Inside fs root (fs.place root libName ++ [n]) := .inl (List.prefix_append _ _)
    rw [trailSteps_enter _ _ _ _ _ (h.linkAt? _ hin), trailSteps_nil] at hu
    rcases List.mem_cons.mp hu with rfl | hu
    · exact .inr hlib
    · obtain rfl := List.mem_singleton.mp hu
      exact .inr hin

theorem way_library (h : Untouched fs fs' root) (hr : Reaches fs (binDirOf root) k v)
    (hv : fs.isDirAt v) {entry : String} (he : Manifest.isLibraryEntry entry = true) :
    (binDirOf root / entry).isAbsolute = root.isAbsolute ∧
      ∀ u ∈ fs.trail (binDirOf root / entry), u ∈ fs.trail root ∨ Inside fs root u := by
  obtain ⟨name, rfl, hsep, hne⟩ := Manifest.exists_of_isLibraryEntry he
  obtain ⟨habs, hmoves, s, _, hsteps⟩ := Manifest.steps_library hsep hne
  obtain ⟨_, rfl, hin, hbin⟩ := h.way_part isEntryName_bin (.inr rfl) hr
  have hjoin : binDirOf root / (Manifest.libraryRoot ++ name) =
      (binDirOf root).join (Path.ofString (Manifest.libraryRoot ++ name)) := rfl
  rw [hjoin, Path.isAbsolute_join _ _ habs, isAbsolute_binDirOf]
  refine ⟨rfl, fun u hu => ?_⟩
  rcases (mem_trail_join habs hmoves hr hv u).mp hu with hu | hu
  · exact hbin u hu
  · have hlib : fs.linkAt? (fs.destination root ++ [libName]) = none :=
      h.linkAt? _ (.inl List.prefix_rfl)
    rw [hsteps, trailSteps_up, place, List.dropLast_concat, trailSteps_enter _ _ _ _ _ hlib] at hu
    rcases List.mem_cons.mp hu with rfl | hu
    · exact .inr hin
    rcases List.mem_cons.mp hu with rfl | hu
    · exact .inl (destination_mem_trail fs root)
    · exact h.trailSteps_last s u hu

theorem isFile_library (h : Untouched fs fs' root) (hr : Reaches fs (binDirOf root) k v)
    (hv : fs.isDirAt v) {entry : String} (he : Manifest.isLibraryEntry entry = true)
    (hfile : fs.isFile (binDirOf root / entry)) : fs'.isFile (binDirOf root / entry) := by
  obtain ⟨habs, hway⟩ := h.way_library hr hv he
  obtain ⟨l, mode, content, hf⟩ := isFile_iff.mp hfile
  exact isFile_iff.mpr ⟨l, mode, content, h.find_eq habs hway hf⟩

theorem soleLauncher_eq (h : Untouched fs fs' root) (hr : Reaches fs (binDirOf root) k v)
    (hf : fs.find .follow (binDirOf root) = .ok (some v, .dir))
    (hf' : fs'.find .follow (binDirOf root) = .ok (some v, .dir)) :
    soleLauncher fs' root = soleLauncher fs root := by
  obtain ⟨_, rfl, _, _⟩ := h.way_part isEntryName_bin (.inr rfl) hr
  have hnames : fs'.namesAt (fs.place root (Utf8.encode "bin")) =
      fs.namesAt (fs.place root (Utf8.encode "bin")) :=
    namesAt_congr fun n => h.inside _ (.inr (List.prefix_append _ _))
  have hlist : fs'.list (binDirOf root) = fs.list (binDirOf root) := by
    rw [list, list, hf, hf']
    exact congrArg Except.ok hnames
  rw [soleLauncher, soleLauncher, hlist]

theorem check_ok (h : Untouched w.files w'.files root) {report : DistributionReport}
    (hcheck : check root w = .ok report w1) : ∃ w2, check root w' = .ok report w2 := by
  obtain ⟨hbin, hlib, m, hm, hinspect⟩ := Distribution.check_ok hcheck
  obtain ⟨k, v, hr, hv, hf, hf'⟩ := h.isDir_part isEntryName_bin (.inr rfl) hbin
  obtain ⟨_, _, _, _, _, hflib'⟩ := h.isDir_part isEntryName_lib (.inl rfl) hlib
  have hbin' : w'.files.isDir (binDirOf root) := by
    rw [FileSystem.isDir, stat_of_find (p := binDirOf root) hf']
  have hlib' : w'.files.isDir (libDirOf root) := by
    rw [FileSystem.isDir, stat_of_find (p := libDirOf root) hflib']
  have hm' : Manifest.atPath w'.files (binDirOf root / Manifest.fileName) = .ok m := by
    obtain ⟨mode, content, text, hstat, hdecode, hparse⟩ := Manifest.atPath_ok_iff.mp hm
    obtain ⟨l, hfile⟩ := find_of_stat_file hstat
    have habs : (binDirOf root / Manifest.fileName).isAbsolute = root.isAbsolute :=
      (Path.isAbsolute_entry _ _ isEntryName_manifest).trans (isAbsolute_binDirOf root)
    have hfile' := h.find_eq habs (h.way_manifest hr hv) hfile
    exact Manifest.atPath_ok_iff.mpr ⟨mode, content, text, stat_of_find hfile', hdecode, hparse⟩
  obtain ⟨hvalid, hlibraries, name, hsole, rfl⟩ := inspect_ok_iff.mp hinspect
  have hinspect' : Distribution.inspect w'.files root m =
      .ok ⟨name, m.entrypoint, m.javaVersion, m.classpath⟩ := by
    refine inspect_ok_iff.mpr ⟨hvalid, fun entry he => ?_, name, ?_, rfl⟩
    · exact h.isFile_library hr hv (Manifest.isLibraryEntry_of_validate hvalid entry he)
        (hlibraries entry he)
    · rw [h.soleLauncher_eq hr hf hf', hsole]
  rw [check_eq_inspect hbin' hlib' hm', hinspect']
  exact ⟨_, rfl⟩

end Untouched

end Distribution

end LaunchDist
