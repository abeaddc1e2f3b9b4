import LaunchDist.Proofs.Distribution.Soundness
import LaunchDist.Proofs.FileSystem.Twin
/-!
# Distributions elsewhere

What the check says of a distribution without links depends on the tree at its root, and on the place
of the root only as far as the system takes no path that is too long.
-/
namespace LaunchDist

/-- The kinds of failures. -/
inductive Failure.Kind where
  | configuration
  | launcherNotFound
  | io
  | serialize
  | manifestParse
  | invalidManifest
  | invalidDistribution
  deriving DecidableEq, Repr

def Failure.kind : Failure → Failure.Kind
  | .configuration _ => .configuration
  | .launcherNotFound _ _ => .launcherNotFound
  | .io _ _ => .io
  | .serialize _ => .serialize
  | .manifestParse _ _ => .manifestParse
  | .invalidManifest _ => .invalidManifest
  | .invalidDistribution _ _ => .invalidDistribution

namespace Distribution

open FileSystem
open LaunchDist.Path (Step IsEntryName)

/-- What is said of a distribution: a report, or of what kind the failure is. -/
def verdict {α : Type} (result : Except Failure α) : Except Failure.Kind α :=
  result.mapError Failure.kind

theorem verdict_ok_iff {α : Type} {result : Except Failure α} {a : α} :
    verdict result = .ok a ↔ result = .ok a := by
  cases result <;> simp [verdict, Except.mapError]

theorem verdict_bind {α β : Type} {x x' : Except Failure α} {f f' : α → Except Failure β}
    (hx : verdict x = verdict x')
    (hf : ∀ a, x = .ok a → x' = .ok a → verdict (f a) = verdict (f' a)) :
    verdict (x >>= f) = verdict (x' >>= f') := by
  cases x with
  | error failure =>
    cases x' with
    | error failure' => exact congrArg Except.error (Except.error.inj hx)
    | ok a => cases hx
  | ok a =>
    cases x' with
    | error failure' => cases hx
    | ok a' =>
      obtain rfl := Except.ok.inj hx
      exact hf a rfl rfl

variable {fs fs' : FileSystem} {root root' : Path} {w : Workspace} {m : Manifest}
  {classpath : List String}

theorem outcome_check :
    Action.outcome (check root w) = (do
      requireDirs w.files root
      let m ← Manifest.atPath w.files (binDirOf root / Manifest.fileName)
      Distribution.inspect w.files root m) := by
  cases hdirs : requireDirs w.files root with
  | error failure =>
    rw [check, Action.bind_error_iff.mpr (.inl (Action.query_error_iff.mpr ⟨hdirs, rfl⟩))]
    rfl
  | ok u =>
    rw [check, Action.bind_of_ok (Action.query_ok_iff.mpr ⟨hdirs, rfl⟩)]
    cases hm : Manifest.atPath w.files (binDirOf root / Manifest.fileName) with
    | error failure =>
      have hload : Manifest.load (binDirOf root / Manifest.fileName) w = .error failure w :=
        Action.bind_error_iff.mpr (.inl (Action.query_error_iff.mpr ⟨hm, rfl⟩))
      rw [Action.bind_error_iff.mpr (.inl hload)]
      rfl
    | ok m =>
      rw [Action.bind_of_ok (Manifest.load_ok_iff.mpr ⟨hm, rfl⟩)]
      exact Action.outcome_query

theorem verdict_requireDirs :
    verdict (requireDirs fs root) =
      if fs.isDir (binDirOf root) ∧ fs.isDir (libDirOf root) then .ok ()
      else .error .invalidDistribution := by
  split
  · rename_i h
    exact verdict_ok_iff.mpr (requireDirs_ok_iff.mpr h)
  · rename_i h
    rw [requireDirs]
    split
    · rfl
    · rename_i hnone
      exact absurd (requireDirs_ok_iff.mp (by rw [requireDirs, hnone])) h

theorem verdict_requireLibraries :
    verdict (requireLibraries fs root classpath) =
      if ∀ entry ∈ classpath, fs.isFile (binDirOf root / entry) = true then .ok ()
      else .error .invalidDistribution := by
  split
  · rename_i h
    exact verdict_ok_iff.mpr (requireLibraries_ok_iff.mpr h)
  · rename_i h
    rw [requireLibraries]
    split
    · rfl
    · rename_i hnone
      exact absurd (requireLibraries_ok_iff.mp (by rw [requireLibraries, hnone])) h

theorem verdict_soleLauncher (h : fs'.list (binDirOf root') = fs.list (binDirOf root)) :
    verdict (soleLauncher fs' root') = verdict (soleLauncher fs root) := by
  rw [soleLauncher, soleLauncher, h]
  cases fs.list (binDirOf root) with
  | error failure => rfl
  | ok names =>
    simp only
    split <;> rfl

private theorem isInner_bin : IsInner (Path.ofString "bin") :=
  ⟨by decide, ⟨_, _, rfl⟩, by decide⟩

private theorem isInner_lib : IsInner (Path.ofString "lib") :=
  ⟨by decide, ⟨_, _, rfl⟩, by decide⟩

private theorem isInner_manifest : IsInner (Path.ofString "bin" / Manifest.fileName) :=
  ⟨by decide, ⟨_, _, rfl⟩, by decide⟩

private theorem manifest_eq (root : Path) :
    binDirOf root / Manifest.fileName = root.join (Path.ofString "bin" / Manifest.fileName) :=
  Path.join_entry_join root "bin" isEntryName_bin (Path.ofString Manifest.fileName)
    isEntryName_manifest.isAbsolute

private theorem library_eq {entry : String} (h : Manifest.isLibraryEntry entry = true) :
    IsInner (Path.ofString "bin" / entry) ∧
      ∀ root, binDirOf root / entry = root.join (Path.ofString "bin" / entry) := by
  obtain ⟨name, rfl, hsep, hne⟩ := Manifest.exists_of_isLibraryEntry h
  obtain ⟨habs, hmoves, s, _, hsteps⟩ := Manifest.steps_library hsep hne
  have hbin : (Path.ofString "bin").moves = [.name binName] := isEntryName_bin.moves
  have hinner : (Path.ofString "bin" / (Manifest.libraryRoot ++ name)).steps =
      [.name binName, .up, .name libName, s] := by
    have hjoin := Path.steps_join (Path.ofString "bin") _ habs hmoves
    rw [hbin, hsteps] at hjoin
    exact hjoin
  refine ⟨⟨?_, ⟨_, _, hinner⟩, ?_⟩, fun root => Path.join_entry_join root "bin" isEntryName_bin _ habs⟩
  · exact (Path.isAbsolute_join _ _ habs).trans (by decide)
  · rw [hinner]
    cases s <;> rfl

/-- The paths that the check of a distribution looks up, those of the libraries as far as the manifest
can be read. -/
def consulted (fs : FileSystem) (root : Path) : List Path :=
  let classpath := match Manifest.atPath fs (binDirOf root / Manifest.fileName) with
    | .ok m => m.classpath
    | .error _ => []
  [binDirOf root, libDirOf root, binDirOf root / Manifest.fileName] ++
    classpath.map (binDirOf root / ·)

theorem isTooLong_of_consulted
    (h : (consulted fs' root').map isTooLong = (consulted fs root).map isTooLong) :
    isTooLong (binDirOf root') = isTooLong (binDirOf root) ∧
    isTooLong (libDirOf root') = isTooLong (libDirOf root) ∧
    isTooLong (binDirOf root' / Manifest.fileName) = isTooLong (binDirOf root / Manifest.fileName) ∧
    ∀ m, Manifest.atPath fs' (binDirOf root' / Manifest.fileName) = .ok m →
      Manifest.atPath fs (binDirOf root / Manifest.fileName) = .ok m →
      ∀ entry ∈ m.classpath, isTooLong (binDirOf root' / entry) = isTooLong (binDirOf root / entry) := by
  simp only [consulted, List.map_cons, List.cons_append, List.nil_append, List.cons.injEq,
    List.map_map] at h
  obtain ⟨hbin, hlib, hmanifest, h⟩ := h
  refine ⟨hbin, hlib, hmanifest, fun m hm' hm => ?_⟩
  simp only [hm, hm'] at h
  exact List.map_inj_left.mp h

section Twin

variable {l l' : Location}

theorem verdict_atPath (h : Twin fs root l fs' root' l')
    (hlong : isTooLong (binDirOf root' / Manifest.fileName) =
      isTooLong (binDirOf root / Manifest.fileName)) :
    verdict (Manifest.atPath fs' (binDirOf root' / Manifest.fileName)) =
      verdict (Manifest.atPath fs (binDirOf root / Manifest.fileName)) := by
  rw [manifest_eq, manifest_eq] at hlong ⊢
  rw [Manifest.atPath, Manifest.atPath]
  cases ht : fs.readText (root.join (Path.ofString "bin" / Manifest.fileName)) with
  | ok text =>
    rw [h.readText_ok isInner_manifest hlong ht]
    simp only
    cases Manifest.parse text <;> rfl
  | error failure =>
    cases ht' : fs'.readText (root'.join (Path.ofString "bin" / Manifest.fileName)) with
    | error failure' => rfl
    | ok text =>
      rw [h.symm.readText_ok isInner_manifest hlong.symm ht'] at ht
      cases ht

/-- What is said of equal trees at two roots. -/
theorem verdict_of_twin {w' : Workspace} (h : Twin w.files root l w'.files root' l')
    (hlong : (consulted w'.files root').map isTooLong = (consulted w.files root).map isTooLong) :
    verdict (Action.outcome (check root' w')) = verdict (Action.outcome (check root w)) := by
  obtain ⟨hbin, hlib, hmanifest, hentries⟩ := isTooLong_of_consulted hlong
  have hbinDir : w'.files.isDir (binDirOf root') = w.files.isDir (binDirOf root) :=
    h.isDir_eq isInner_bin hbin
  have hlibDir : w'.files.isDir (libDirOf root') = w.files.isDir (libDirOf root) :=
    h.isDir_eq isInner_lib hlib
  rw [outcome_check, outcome_check]
  refine verdict_bind ?_ fun u _ hdirs => ?_
  · rw [verdict_requireDirs, verdict_requireDirs, hbinDir, hlibDir]
  refine verdict_bind (verdict_atPath h hmanifest) fun m hm' hm => ?_
  rw [Distribution.inspect, Distribution.inspect]
  refine verdict_bind rfl fun u hvalid _ => ?_
  refine verdict_bind ?_ fun u _ _ => ?_
  · rw [verdict_requireLibraries, verdict_requireLibraries]
    refine if_congr (forall₂_congr fun entry he => ?_) rfl rfl
    obtain ⟨hinner, heq⟩ := library_eq (Manifest.isLibraryEntry_of_validate hvalid entry he)
    have hlibrary := hentries m hm' hm entry he
    rw [heq root, heq root'] at hlibrary ⊢
    rw [h.isFile_eq hinner hlibrary]
  refine verdict_bind (verdict_soleLauncher ?_) fun name _ _ => rfl
  exact h.list_eq isInner_bin hbin (requireDirs_ok_iff.mp hdirs).1

end Twin

section Tree

variable {w w' : Workspace} {found found' : Option Location} {e e' : DirEntry}

theorem twin_of_isDir (hf : fs.find .follow root = .ok (found, e))
    (hf' : fs'.find .follow root' = .ok (found', e'))
    (hsame : ∀ rel, fs'.treeAt found' rel = fs.treeAt found rel)
    (hlinkless : ∀ rel target, fs.treeAt found rel ≠ some (.link target))
    (hbin : fs.isDir (binDirOf root)) : ∃ l l', Twin fs root l fs' root' l' := by
  have htree := treeAt_of_isDir isEntryName_bin hf hlinkless hbin
  obtain ⟨l, rfl, hl⟩ := find_of_treeAt hf htree
  obtain ⟨l', rfl, hl'⟩ := find_of_treeAt hf' ((hsame _).trans htree)
  exact ⟨l, l', hl, hl', hsame, linkAt?_of_treeAt hlinkless⟩

theorem verdict_of_trees (hf : w.files.find .follow root = .ok (found, e))
    (hf' : w'.files.find .follow root' = .ok (found', e'))
    (hsame : ∀ rel, w'.files.treeAt found' rel = w.files.treeAt found rel)
    (hlinkless : ∀ rel target, w.files.treeAt found rel ≠ some (.link target))
    (hlong : (consulted w'.files root').map isTooLong = (consulted w.files root).map isTooLong) :
    verdict (Action.outcome (check root' w')) = verdict (Action.outcome (check root w)) := by
  by_cases hbin : w.files.isDir (binDirOf root)
  · obtain ⟨l, l', htwin⟩ := twin_of_isDir hf hf' hsame hlinkless hbin
    exact verdict_of_twin htwin hlong
  by_cases hbin' : w'.files.isDir (binDirOf root')
  · have hlinkless' : ∀ rel target, w'.files.treeAt found' rel ≠ some (.link target) := by
      intro rel target
      rw [hsame]
      exact hlinkless rel target
    obtain ⟨l', l, htwin⟩ := twin_of_isDir hf' hf (fun rel => (hsame rel).symm) hlinkless' hbin'
    exact (verdict_of_twin htwin hlong.symm).symm
  · rw [outcome_check, outcome_check]
    refine verdict_bind ?_ fun u hdirs _ => absurd (requireDirs_ok_iff.mp hdirs).1 hbin'
    rw [verdict_requireDirs, verdict_requireDirs, if_neg (fun h => hbin' h.1),
      if_neg (fun h => hbin h.1)]

theorem treeAt_of_move {source dest : Path} {l : Location} {spot : Spot}
    (hmove : fs.move source dest = .ok fs') (hsource : fs.find .directory source = .ok (some l, e))
    (hdest : fs.locate .directory dest = .ok spot)
    (hf' : fs'.find .follow root' = .ok (some spot.location, e')) (rel : Location) :
    fs'.treeAt (some spot.location) rel = fs.treeAt (some l) rel := by
  rcases move_ok hsource hdest hmove with ⟨rfl, rfl⟩ | ⟨hproblem, rfl⟩
  · rfl
  · have hne : FileSystem.entry? (fs.moveNode l spot.location) spot.location ≠ none := by
      rw [(find_follow_iff.mp hf').2.2]
      exact Option.some_ne_none _
    rw [treeAt, treeAt, entry?_moveNode (ne_nil_of_moveProblem? hproblem) hne]

/-- The check says the same of equal trees without links, wherever the roots are that lead to them, as
long as the same ones of the paths that it looks up are too long. So it does of a distribution that has
been moved. -/
theorem check_relocates :
    (∀ (w w' : Workspace) (root root' : Path) (found found' : Option Location) (e e' : DirEntry),
      w.files.find .follow root = .ok (found, e) → w'.files.find .follow root' = .ok (found', e') →
      (∀ rel, w'.files.treeAt found' rel = w.files.treeAt found rel) →
      (∀ rel target, w.files.treeAt found rel ≠ some (.link target)) →
      (consulted w'.files root').map isTooLong = (consulted w.files root).map isTooLong →
      verdict (Action.outcome (check root' w')) = verdict (Action.outcome (check root w))) ∧
    ∀ (w w' : Workspace) (source dest root root' : Path) (l : Location) (spot : Spot) (e : DirEntry),
      w.files.find .directory source = .ok (some l, .dir) →
      w.files.locate .directory dest = .ok spot → w.files.move source dest = .ok w'.files →
      (∀ rel, w.files.linkAt? (l ++ rel) = none) → w.files.find .follow root = .ok (some l, .dir) →
      w'.files.find .follow root' = .ok (some spot.location, e) →
      (consulted w'.files root').map isTooLong = (consulted w.files root).map isTooLong →
      verdict (Action.outcome (check root' w')) = verdict (Action.outcome (check root w)) := by
  constructor
  · intro w w' root root' found found' e e' hf hf' hsame hlinkless hlong
    exact verdict_of_trees hf hf' hsame hlinkless hlong
  · intro w w' source dest root root' l spot e hsource hdest hmove hlinkless hf hf' hlong
    exact verdict_of_trees hf hf' (treeAt_of_move hmove hsource hdest hf')
      (treeAt_ne_link hlinkless) hlong

end Tree

def soundFiles : FileSystem where
  children := [(Utf8.encode "d", soundDist)]
  workingDir := []

def movedFiles : FileSystem where
  children := [(Utf8.encode "e", soundDist)]
  workingDir := []

private theorem consulted_sound {l : Location}
    (hf : fs.find .follow (binDirOf root / Manifest.fileName) =
      .ok (some l, .file 0o644 (Utf8.encode looseManifest.render))) :
    consulted fs root = [binDirOf root, libDirOf root, binDirOf root / Manifest.fileName,
      binDirOf root / "../lib/a.jar"] := by
  rw [consulted, Manifest.atPath_of_find hf]
  rfl

private theorem find_manifest_soundFiles :
    soundFiles.find .follow (binDirOf (Path.ofString "d") / Manifest.fileName) =
      .ok (some [Utf8.encode "d", binName, Utf8.encode Manifest.fileName],
        .file 0o644 (Utf8.encode looseManifest.render)) := by
  rfl

theorem check_relocates_soundFiles :
    verdict (Action.outcome (check (Path.ofString "o") ⟨borrowedFiles, []⟩)) =
      verdict (Action.outcome (check (Path.ofString "d") ⟨soundFiles, []⟩)) ∧
    soundFiles.move (Path.ofString "d") (Path.ofString "e") = .ok movedFiles ∧
    verdict (Action.outcome (check (Path.ofString "e") ⟨movedFiles, []⟩)) =
      verdict (Action.outcome (check (Path.ofString "d") ⟨soundFiles, []⟩)) := by
  have hlinkless : Linkless soundFiles := linkless_of_areLinkless (by decide +kernel)
  have hf : soundFiles.find .follow (Path.ofString "d") = .ok (some [Utf8.encode "d"], .dir) := by rfl
  have hmove : soundFiles.move (Path.ofString "d") (Path.ofString "e") = .ok movedFiles := by rfl
  refine ⟨?_, hmove, ?_⟩
  · refine check_relocates.1 ⟨soundFiles, []⟩ ⟨borrowedFiles, []⟩ _ _ _ (some [Utf8.encode "o"]) _ .dir
      hf (by rfl) (fun rel => ?_) (treeAt_ne_link fun rel => hlinkless _) ?_
    · rw [treeAt, treeAt, FileSystem.entry?, FileSystem.entry?, node?_append, node?_append]
      rfl
    · have hm : borrowedFiles.find .follow (binDirOf (Path.ofString "o") / Manifest.fileName) =
          .ok (some [Utf8.encode "o", binName, Utf8.encode Manifest.fileName],
            .file 0o644 (Utf8.encode looseManifest.render)) := by rfl
      rw [consulted_sound find_manifest_soundFiles, consulted_sound hm]
      decide +kernel
  · refine check_relocates.2 ⟨soundFiles, []⟩ ⟨movedFiles, []⟩ (Path.ofString "d") (Path.ofString "e")
      _ _ _ (.vacant [] (Utf8.encode "e")) .dir hf (by rfl) hmove (fun rel => hlinkless _) hf (by rfl) ?_
    have hm : movedFiles.find .follow (binDirOf (Path.ofString "e") / Manifest.fileName) =
        .ok (some [Utf8.encode "e", binName, Utf8.encode Manifest.fileName],
          .file 0o644 (Utf8.encode looseManifest.render)) := by rfl
    rw [consulted_sound find_manifest_soundFiles, consulted_sound hm]
    decide +kernel

/-- A path to a directory that leaves no room for what is in it. -/
def slashedRoot : Path :=
  ⟨Utf8.encode "d" ++ List.replicate 4094 Path.separator⟩

/-- A distribution is not found from a root whose path is too long for the paths in it. -/
theorem check_slashedRoot_fails :
    soundFiles.find .follow (Path.ofString "d") = .ok (some [Utf8.encode "d"], .dir) ∧
    soundFiles.find .follow slashedRoot = .ok (some [Utf8.encode "d"], .dir) ∧
    (∀ u, soundFiles.linkAt? u = none) ∧
    (∃ w', check (Path.ofString "d") ⟨soundFiles, []⟩ = .ok ⟨"app", "Main", 21, ["../lib/a.jar"]⟩ w') ∧
    ∃ failure w', check slashedRoot ⟨soundFiles, []⟩ = .error failure w' := by
  have hf : soundFiles.find .follow (Path.ofString "d") = .ok (some [Utf8.encode "d"], .dir) := by rfl
  have hlength : slashedRoot.bytes.length = 4095 := by
    rw [slashedRoot, List.length_append, List.length_replicate]
    rfl
  have hroot : isTooLong slashedRoot = false := by
    rw [isTooLong, hlength]
    rfl
  refine ⟨hf, find_append_separators hf hroot, linkless_of_areLinkless (by decide +kernel),
    check_of_find (by decide +kernel) (by decide +kernel) find_manifest_soundFiles (by decide +kernel),
    check_fails_of_not_isDir (.inl fun hd => ?_)⟩
  have hbin := (Path.length_join slashedRoot _ isEntryName_bin.isAbsolute).1
  have hlong : isTooLong (binDirOf slashedRoot) = true := by
    rw [hlength] at hbin
    rw [isTooLong, decide_eq_true_eq, maxPathLength]
    exact Nat.lt_of_lt_of_le (by decide) hbin
  obtain ⟨l, hfound⟩ := find_of_isDir hd
  rw [(nameable_of_find hfound).isTooLong] at hlong
  cases hlong

end Distribution

end LaunchDist
