import LaunchDist.Proofs.Distribution.Recheck
import LaunchDist.Proofs.FileSystem.Destination
import LaunchDist.Proofs.Packaging.Failures
/-!
# What a failed preparation leaves

Unless packaging fails at a path, it fails before anything is assembled, and has at most prepared its
outputs. A distribution apart from these is still there, and can be found as before unless the way to it
led through what has been swept out of the staging directory.
-/
namespace LaunchDist

open FileSystem
open LaunchDist.Path (Step IsEntryName)

section Apart

variable {fs fs' : FileSystem} {home l u : Location} {target p root : Path} {s : String} {k : Nat}
  {v : Location}

theorem FileSystem.Confined.entry?_below_link (h : Confined [home] fs fs')
    (hlinks : ∀ u, home <+: u → fs.linkAt? u = none) (hl : fs.linkAt? l = some target)
    (hu : l <+: u) : fs'.entry? u = fs.entry? u := by
  have hself : fs'.entry? l = fs.entry? l := by
    rcases h.entry? l with heq | ⟨_, hmem, hin | ⟨_, hnone, _⟩⟩
    · exact heq
    · rw [List.mem_singleton.mp hmem] at hin
      rw [hlinks l hin] at hl
      cases hl
    · exact absurd hnone (entry?_ne_none_of_linkAt? hl)
  by_cases hne : u = l
  · rw [hne, hself]
  have hnot : ∀ fs : FileSystem, fs.linkAt? l = some target → fs.entry? u = none := by
    intro fs hl
    refine entry?_below_of_not_dir fs l u (Bool.eq_false_iff.mpr fun hd => ?_) hu hne
    rw [linkAt?_of_isDirAt hd] at hl
    cases hl
  rw [hnot fs hl, hnot fs' ((linkAt?_congr hself).trans hl)]

theorem FileSystem.Confined.entry?_of_apart (h : Confined [home] fs fs')
    (hlinks : ∀ u, home <+: u → fs.linkAt? u = none) (hs : IsEntryName (Utf8.encode s))
    (hup : Step.up ∉ p.moves)
    (hapart : ¬ home <+: fs.destination (p / s) ∧ ¬ fs.destination (p / s) <+: home)
    (hu : fs.place p (Utf8.encode s) <+: u ∨ fs.destination (p / s) <+: u) :
    fs'.entry? u = fs.entry? u := by
  have hbelow : ∀ u, fs.destination (p / s) <+: u → fs'.entry? u = fs.entry? u := fun u =>
    h.apart (by simpa using hapart)
  rcases hu with hu | hu
  · cases hl : fs.linkAt? (fs.place p (Utf8.encode s)) with
    | some target => exact h.entry?_below_link hlinks hl hu
    | none =>
      have hdest : fs.destination (p / s) <+: fs.place p (Utf8.encode s) := by
        rcases destination_entry_cases hs hup hl with heq | heq
        · rw [heq]
        · rw [heq]
          exact List.prefix_append _ _
      exact hbelow u (hdest.trans hu)
  · exact hbelow u hu

theorem FileSystem.Confined.start_of_apart (h : Confined [home] fs fs')
    (hlinks : ∀ u, home <+: u → fs.linkAt? u = none) (hup : Step.up ∉ p.moves)
    (hapart : ¬ home <+: fs.destination p) : p.isAbsolute = true ∨ SameStart fs fs' := by
  rcases h.start with hs | ⟨l, hmem, hin⟩
  · exact .inr hs
  rw [List.mem_singleton.mp hmem] at hin
  left
  by_contra hrel
  exact hapart (hin.trans (workingDir_prefix_destination hup (Bool.eq_false_iff.mpr hrel)
    fun u hu => hlinks u (hin.trans hu)))

end Apart

section Steps

variable {layout : BuildLayout} {w w' : Workspace} {p : Path}

theorem Manifest.store_keeps {m : Manifest} (h : m.store layout w = .ok p w') :
    Keeps w.files w'.files := by
  obtain ⟨_, made, l, mode, hmake, ht, hfiles⟩ := Manifest.store_ok h
  have hgrows := grows_makeDirs layout.manifestDir w.files
  rw [hmake] at hgrows
  have hput := (target_spec ht).1.keeps_put mode (Utf8.encode m.render)
  intro v hv
  rw [hfiles, hput v (hgrows.keeps.ne_none v hv)]
  exact hgrows.keeps v hv

theorem stagingDir_empty (hup : Step.up ∉ layout.buildDir.steps) {u : Unit}
    (h : Action.resetDir layout.stagingDir w = .ok u w') :
    w'.files.inspect layout.stagingDir = .ok .dir ∧ w'.files.list layout.stagingDir = .ok [] := by
  obtain ⟨hn, home, hnew⟩ := resetDir_spec isEntryName_stagingDir
    (BuildLayout.up_notMem_root hup) (Distribution.changeAt_resetDir_ok h)
  obtain ⟨k, hr⟩ := hnew.reaches
  have he := (isDirAt_iff _ _).mp hnew.isDirAt
  have hf := find_dir_entry hn isEntryName_stagingDir (by decide) hr he
  refine ⟨inspect_dir_entry isEntryName_stagingDir hr he ?_, ?_⟩
  · rw [isDir, stat_of_find hf]
  · have hnames : w'.files.namesAt (home ++ [Utf8.encode "launcher"]) = [] := by
      rw [List.eq_nil_iff_forall_not_mem]
      intro n hmem
      exact (mem_namesAt_iff _ _ _).mp hmem (hnew.empty _ (List.prefix_append _ _) (by simp))
    rw [list, show w'.files.find .follow layout.stagingDir = _ from hf]
    exact congrArg Except.ok hnames

/-- Directories and links are where they were when a manifest has been stored and the staging directory
has been made anew, but for what was in that. -/
theorem entry?_of_cleared {m : Manifest} (hup : Step.up ∉ layout.buildDir.steps)
    (hlinks : layout.Unlinked w.files) {written cleared : Workspace}
    (hstore : m.store layout w = .ok p written)
    (hreset : Action.resetDir layout.stagingDir written = .ok () cleared) {u : Location}
    (hu : w.files.isDirAt u ∨ w.files.linkAt? u ≠ none)
    (hstaging : layout.home w.files ++ [Utf8.encode "launcher"] <+: u →
      u = layout.home w.files ++ [Utf8.encode "launcher"]) :
    cleared.files.entry? u = w.files.entry? u := by
  obtain ⟨_, hb, ⟨k, l, hroot⟩, _⟩ := Manifest.store_settled hlinks hstore
  have hwritten := (Manifest.store_keeps hstore).entry?_eq hu
  have hswept := stagingDir_swept hb hroot
  rw [hreset] at hswept
  obtain ⟨hcleared, hkept⟩ := hswept
  by_cases hin : layout.home w.files ++ [Utf8.encode "launcher"] <+: u
  · obtain rfl := hstaging hin
    have hd : w.files.isDirAt (layout.home w.files ++ [Utf8.encode "launcher"]) :=
      hu.resolve_right fun hlink => hlink (hlinks _ (List.prefix_append _ _))
    obtain ⟨_, home, hnew⟩ := resetDir_spec isEntryName_stagingDir
      (BuildLayout.up_notMem_root hup) (Distribution.changeAt_resetDir_ok hreset)
    obtain ⟨k', hr⟩ := hnew.reaches
    obtain ⟨rfl, _⟩ := hcleared.root_eq hr
    rw [(isDirAt_iff _ _).mp hnew.isDirAt, (isDirAt_iff _ _).mp hd]
  · rw [← hwritten]
    refine hkept u hin ?_
    rw [hwritten]
    rcases hu with hd | hlink
    · exact entry?_ne_none_of_isDirAt hd
    · intro hnone
      rw [FileSystem.linkAt?, hnone] at hlink
      exact hlink rfl

end Steps

namespace PackagingRequest

open LaunchDist.Distribution

variable {request : PackagingRequest} {environmentPath : Option Bytes} {w w' : Workspace}
  {failure : Failure}

/-- Whether a distribution stands apart from the outputs, wherever links in it lead. -/
def Detached (request : PackagingRequest) (fs : FileSystem) : Prop :=
  ∀ p ∈ [binDirOf request.distDir, libDirOf request.distDir],
    ¬ request.layout.home fs <+: fs.destination p ∧ ¬ fs.destination p <+: request.layout.home fs

instance (request : PackagingRequest) (fs : FileSystem) : Decidable (request.Detached fs) :=
  inferInstanceAs (Decidable (∀ p ∈ [_, _], _))

/-- Unless it fails at a path, packaging that fails has changed nothing but the outputs. -/
theorem failed_confined (hbuild : Step.up ∉ request.buildDir.steps)
    (hlinks : request.layout.Unlinked w.files)
    (h : request.package environmentPath w = .error failure w') (hio : ∀ p e, failure ≠ .io p e) :
    Confined [request.layout.home w.files] w.files w'.files := by
  rcases package_error hlinks h with ⟨p, e, heq⟩ | ⟨_, rfl⟩ |
    ⟨_, manifest, written, _, hstore, hstage, _⟩
  · exact absurd heq (hio p e)
  · exact .refl _ _
  · have hstaged := (prepare_confined (w := request.started w)
      (request.launcherSearch environmentPath) isEntryName_launcherName hbuild hlinks hstore).2
    rwa [hstage] at hstaged

/-- A distribution without links is untouched by packaging that fails otherwise than at a path, if the
way to it does not lead through the staging directory. -/
theorem failed_untouched (hbuild : Step.up ∉ request.buildDir.steps)
    (hdist : Step.up ∉ request.distDir.steps) (hlinks : request.layout.Unlinked w.files)
    (hapart : request.Detached w.files)
    (h : request.package environmentPath w = .error failure w') (hio : ∀ p e, failure ≠ .io p e)
    (hlinkless : ∀ u, Inside w.files request.distDir u → w.files.linkAt? u = none)
    (hway : ∀ u ∈ w.files.trail request.distDir,
      request.layout.home w.files ++ [Utf8.encode "launcher"] <+: u →
        u = request.layout.home w.files ++ [Utf8.encode "launcher"])
    (hbin : w.files.isDir (binDirOf request.distDir)) :
    Untouched w.files w'.files request.distDir := by
  have hconfined := failed_confined hbuild hlinks h hio
  have hup := (Path.up_notMem_steps_iff _).mp hdist
  obtain ⟨l?, hf⟩ := find_of_isDir hbin
  obtain ⟨l, rfl, _⟩ := location_of_find (by decide)
    (Path.namesOf_entry_ne_nil request.distDir _ isEntryName_bin) hf
  obtain ⟨_, ⟨k, hr⟩, _⟩ := find_follow_iff.mp hf
  obtain ⟨hroot, hl, _⟩ := Reaches.below isEntryName_bin hr (hlinkless _ (.inr List.prefix_rfl))
  have hdir : w.files.isDirAt (w.files.destination request.distDir) := by
    obtain ⟨_, _, hroot', hd, _⟩ := (reaches_entry_iff isEntryName_bin).mp hr
    rwa [hroot'.destination_eq]
  refine ⟨hconfined.start_of_apart hlinks hup ?_, fun u hu => ?_, fun u hu => ?_, hlinkless⟩
  · intro hin
    refine (hapart _ List.mem_cons_self).1 ?_
    rw [show w.files.destination (binDirOf request.distDir) = l from hr.destination_eq, hl]
    exact hin.trans (List.prefix_append _ _)
  · rcases package_error hlinks h with ⟨p, e, heq⟩ | ⟨_, rfl⟩ |
      ⟨_, manifest, written, cleared, hstore, _, hreset, hfiles⟩
    · exact absurd heq (hio p e)
    · rfl
    · rw [hfiles]
      exact entry?_of_cleared (w := request.started w) hbuild hlinks hstore hreset
        (hroot.isDirAt_or_link hdir hu) (hway u hu)
  · rcases hu with hu | hu
    · exact hconfined.entry?_of_apart hlinks isEntryName_lib hup
        (hapart (libDirOf request.distDir) (by simp)) (.inl hu)
    · exact hconfined.entry?_of_apart hlinks isEntryName_bin hup
        (hapart (binDirOf request.distDir) (by simp)) (.inl hu)

/-- Packaging that fails otherwise than at a path leaves the previous distribution as it was, wherever
its directories stand or lead; and it passes its check as before, if the way to it does not lead through
the staging directory. If the request is refused nothing has happened, and if there is no launcher then
the staging directory is empty. -/
theorem package_leaves_intact (request : PackagingRequest) (environmentPath : Option Bytes)
    (w w' : Workspace) (failure : Failure)
    (hbuild : Step.up ∉ request.buildDir.steps) (hdist : Step.up ∉ request.distDir.steps)
    (hlinks : request.layout.Unlinked w.files) (hapart : request.Detached w.files)
    (h : request.package environmentPath w = .error failure w') (hio : ∀ p e, failure ≠ .io p e) :
    (∀ u, w.files.place request.distDir binName <+: u ∨
        w.files.destination (binDirOf request.distDir) <+: u ∨
        w.files.place request.distDir libName <+: u ∨
        w.files.destination (libDirOf request.distDir) <+: u →
      w'.files.entry? u = w.files.entry? u) ∧
    ((∀ u, Inside w.files request.distDir u → w.files.linkAt? u = none) →
      (∀ u ∈ w.files.trail request.distDir,
        request.layout.home w.files ++ [Utf8.encode "launcher"] <+: u →
          u = request.layout.home w.files ++ [Utf8.encode "launcher"]) →
      ∀ report w1, check request.distDir w = .ok report w1 →
        ∃ w2, check request.distDir w' = .ok report w2) ∧
    ((∃ problem, failure = .configuration problem) → w'.files = w.files) ∧
    ((∃ name searched, failure = .launcherNotFound name searched) →
      w'.files.inspect request.layout.stagingDir = .ok .dir ∧
      w'.files.list request.layout.stagingDir = .ok []) := by
  have hconfined := failed_confined hbuild hlinks h hio
  have hup := (Path.up_notMem_steps_iff _).mp hdist
  refine ⟨fun u hu => ?_, fun hlinkless hway report w1 hcheck => ?_, ?_, ?_⟩
  · rcases or_assoc.mpr hu with hu | hu
    · exact hconfined.entry?_of_apart hlinks isEntryName_bin hup
        (hapart (binDirOf request.distDir) (by simp)) hu
    · exact hconfined.entry?_of_apart hlinks isEntryName_lib hup
        (hapart (libDirOf request.distDir) (by simp)) hu
  · exact (failed_untouched hbuild hdist hlinks hapart h hio hlinkless hway
      (Distribution.check_ok hcheck).1).check_ok hcheck
  · rintro ⟨problem, rfl⟩
    rcases package_error hlinks h with ⟨_, _, heq⟩ | ⟨_, rfl⟩ | ⟨heq, _⟩
    · cases heq
    · rfl
    · cases heq
  · rintro ⟨name, searched, rfl⟩
    rcases package_error hlinks h with ⟨_, _, heq⟩ | ⟨⟨_, heq⟩, _⟩ |
      ⟨_, _, _, _, _, _, hreset, hfiles⟩
    · cases heq
    · cases heq
    · rw [hfiles]
      exact stagingDir_empty hbuild hreset

/-- A request for a distribution that is there already, without a launcher to be found. -/
def stalledRequest : PackagingRequest :=
  { siblingRequest with
    distDir := Path.ofString "d"
    searchPath := none }

/-- A sound distribution. -/
def releasedDist : Node :=
  .dir [
    (Utf8.encode "bin", .dir [
      (Utf8.encode "app", .file 0o755 (Utf8.encode "run")),
      (Utf8.encode Manifest.fileName, .file 0o644 (Utf8.encode looseManifest.render))]),
    (Utf8.encode "lib", .dir [(Utf8.encode "a.jar", .file 0o644 (Utf8.encode "library"))])]

def releasedFiles : FileSystem where
  children := [
    (Utf8.encode "app.jar", .file 0o644 (Utf8.encode "app")),
    (Utf8.encode "d", releasedDist)]
  workingDir := []

theorem package_leaves_intact_releasedFiles :
    ∃ w', stalledRequest.package none ⟨releasedFiles, []⟩ =
        .error (.launcherNotFound launcherName []) w' ∧
      (∃ w2, check (Path.ofString "d") w' = .ok ⟨"app", "Main", 21, ["../lib/a.jar"]⟩ w2) ∧
      w'.files.list (Path.ofString "build/my-java-launcher/launcher") = .ok [] := by
  have h := Action.eq_error_of_failure? (by decide +kernel :
    Action.failure? (stalledRequest.package none ⟨releasedFiles, []⟩) =
      some (.launcherNotFound launcherName []))
  have hf : releasedFiles.find .follow (binDirOf (Path.ofString "d") / Manifest.fileName) =
      .ok (some [Utf8.encode "d", binName, Utf8.encode Manifest.fileName],
        .file 0o644 (Utf8.encode looseManifest.render)) := by rfl
  obtain ⟨_, hcheck⟩ : ∃ w1, check (Path.ofString "d") ⟨releasedFiles, []⟩ =
      .ok ⟨"app", "Main", 21, ["../lib/a.jar"]⟩ w1 :=
    check_of_find (by decide +kernel) (by decide +kernel) hf (by decide +kernel)
  obtain ⟨_, hsound, _, hempty⟩ := package_leaves_intact stalledRequest none ⟨releasedFiles, []⟩ _ _
    (by decide +kernel) (by decide +kernel) (BuildLayout.unlinked_of_entry?_home (by decide +kernel))
    (by decide +kernel) h (fun _ _ heq => by cases heq)
  have hlinkless : Linkless releasedFiles := linkless_of_areLinkless (by decide +kernel)
  exact ⟨_, h, hsound (fun u _ => hlinkless u) (by decide +kernel) _ _ hcheck,
    (hempty ⟨_, _, rfl⟩).2⟩

/-- A distribution to which a link leads by way of the staging directory. -/
def strayedFiles : FileSystem where
  children := [
    (Utf8.encode "app.jar", .file 0o644 (Utf8.encode "app")),
    (Utf8.encode "build", .dir [(Utf8.encode launcherName, .dir [
      (Utf8.encode "launcher", .dir [(Utf8.encode "x", .dir [])])])]),
    (Utf8.encode "d", .link (Path.ofString "build/my-java-launcher/launcher/x/../../../../real")),
    (Utf8.encode "real", releasedDist)]
  workingDir := []

/-- A distribution is lost from sight when the way to it leads through what stood in the staging
directory. -/
theorem package_strayedFiles_loses_dist :
    Step.up ∉ stalledRequest.buildDir.steps ∧ Step.up ∉ stalledRequest.distDir.steps ∧
    stalledRequest.layout.Unlinked strayedFiles ∧ stalledRequest.Detached strayedFiles ∧
    (∀ u, Inside strayedFiles stalledRequest.distDir u → strayedFiles.linkAt? u = none) ∧
    (∃ w1, check stalledRequest.distDir ⟨strayedFiles, []⟩ =
      .ok ⟨"app", "Main", 21, ["../lib/a.jar"]⟩ w1) ∧
    ∃ w', stalledRequest.package none ⟨strayedFiles, []⟩ =
        .error (.launcherNotFound launcherName []) w' ∧
      ∃ failure w2, check stalledRequest.distDir w' = .error failure w2 := by
  have hhome : stalledRequest.layout.home strayedFiles =
      [Utf8.encode "build", Utf8.encode launcherName] := by decide +kernel
  have hdest : strayedFiles.destination stalledRequest.distDir = [Utf8.encode "real"] := by
    decide +kernel
  refine ⟨by decide +kernel, by decide +kernel, fun u hu => ?_, by decide +kernel, fun u hu => ?_,
    ?_, ?_⟩
  · rw [hhome] at hu
    exact linkAt?_of_isLinkless (by decide +kernel) hu
  · refine linkAt?_of_isLinkless (l := [Utf8.encode "real"]) (by decide +kernel) ?_
    rw [Inside, place, place, hdest] at hu
    exact hu.elim (List.prefix_append _ _).trans (List.prefix_append _ _).trans
  · have hf : strayedFiles.find .follow (binDirOf stalledRequest.distDir / Manifest.fileName) =
        .ok (some [Utf8.encode "real", binName, Utf8.encode Manifest.fileName],
          .file 0o644 (Utf8.encode looseManifest.render)) := by rfl
    exact check_of_find (by decide +kernel) (by decide +kernel) hf (by decide +kernel)
  · have h := Action.eq_error_of_failure? (by decide +kernel :
      Action.failure? (stalledRequest.package none ⟨strayedFiles, []⟩) =
        some (.launcherNotFound launcherName []))
    exact ⟨_, h, check_fails_of_not_isDir (.inl (by decide +kernel))⟩

end PackagingRequest

end LaunchDist
