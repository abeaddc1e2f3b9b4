import LaunchDist.Packaging
import LaunchDist.Proofs.Distribution.Inspection
import LaunchDist.Proofs.FileSystem.Steady
/-!
# What packaging installs

The manifest that is written and the launcher that is staged are those that are installed: neither
emptying the staging directory nor assembling takes them away before they are copied.
-/
namespace LaunchDist

open FileSystem
open LaunchDist.Path (Step IsEntryName)

theorem isEntryName_launcherName : IsEntryName (Utf8.encode launcherName) := by decide

theorem isEntryName_manifestDir : IsEntryName (Utf8.encode "manifest") := by decide

theorem isEntryName_stagingDir : IsEntryName (Utf8.encode "launcher") := by decide

namespace BuildLayout

/-- Where the outputs of a build stand. -/
def home (layout : BuildLayout) (fs : FileSystem) : Location :=
  fs.place layout.buildDir (Utf8.encode launcherName)

/-- Whether no link stands among the outputs of a build. -/
def Unlinked (layout : BuildLayout) (fs : FileSystem) : Prop :=
  ∀ u, layout.home fs <+: u → fs.linkAt? u = none

variable {layout : BuildLayout} {before fs : FileSystem} {root : Path} {s t : String} {k : Nat}
  {l : Location}

theorem unlinked_of_entry?_home (h : fs.entry? (layout.home fs) = none) : layout.Unlinked fs := by
  intro u hu
  rw [linkAt?, entry?_below_none fs _ u h hu]

theorem up_notMem_root (hup : Step.up ∉ layout.buildDir.steps) : Step.up ∉ layout.root.moves := by
  change Step.up ∉ (layout.buildDir / launcherName).moves
  rw [Path.up_notMem_moves_entry _ _ isEntryName_launcherName]
  exact (Path.up_notMem_steps_iff _).mp hup

theorem up_notMem_output (hup : Step.up ∉ layout.buildDir.steps) (hs : IsEntryName (Utf8.encode s))
    (ht : IsEntryName (Utf8.encode t)) : Step.up ∉ (layout.root / s / t).moves := by
  rw [Path.up_notMem_moves_entry _ _ ht, Path.up_notMem_moves_entry _ _ hs]
  exact up_notMem_root hup

theorem reaches_root (hlinks : layout.Unlinked fs) (h : Reaches fs layout.root k l) :
    Reaches fs layout.buildDir k (fs.destination layout.buildDir) ∧ l = layout.home fs ∧
      ∀ u ∈ fs.trail layout.root, u ∈ fs.trail layout.buildDir ∨ u = l :=
  Reaches.below isEntryName_launcherName h (hlinks _ (List.prefix_refl _))

theorem reaches_dir (hlinks : layout.Unlinked fs) (hs : IsEntryName (Utf8.encode s))
    (h : Reaches fs (layout.root / s) k l) :
    Reaches fs layout.root k (layout.home fs) ∧ l = layout.home fs ++ [Utf8.encode s] ∧
      ∀ u ∈ fs.trail (layout.root / s), u ∈ fs.trail layout.buildDir ∨ layout.home fs <+: u := by
  obtain ⟨_, _, hroot, _⟩ := (reaches_entry_iff hs).mp h
  obtain ⟨_, rfl, htrail⟩ := reaches_root hlinks hroot
  have hplace : fs.place layout.root (Utf8.encode s) = layout.home fs ++ [Utf8.encode s] := by
    rw [place, hroot.destination_eq]
  obtain ⟨hr, rfl, hbelow⟩ := Reaches.below hs h
    (hlinks _ (by rw [hplace]; exact List.prefix_append _ _))
  rw [hroot.destination_eq] at hr
  refine ⟨hr, hplace, fun u hu => ?_⟩
  rcases hbelow u hu with hu | rfl
  · exact (htrail u hu).imp_right fun heq => by rw [heq]
  · exact .inr (by rw [hplace]; exact List.prefix_append _ _)

theorem reaches_output (hlinks : layout.Unlinked fs) (hs : IsEntryName (Utf8.encode s))
    (ht : IsEntryName (Utf8.encode t)) (h : Reaches fs (layout.root / s / t) k l) :
    l = layout.home fs ++ [Utf8.encode s] ++ [Utf8.encode t] ∧
      ∀ u ∈ fs.trail (layout.root / s / t), u ∈ fs.trail layout.buildDir ∨ layout.home fs <+: u := by
  obtain ⟨_, _, hdir, _⟩ := (reaches_entry_iff ht).mp h
  obtain ⟨_, rfl, htrail⟩ := reaches_dir hlinks hs hdir
  have hplace : fs.place (layout.root / s) (Utf8.encode t) =
      layout.home fs ++ [Utf8.encode s] ++ [Utf8.encode t] := by
    rw [place, hdir.destination_eq]
  have hbelow : layout.home fs <+: layout.home fs ++ [Utf8.encode s] ++ [Utf8.encode t] := by simp
  obtain ⟨_, rfl, hend⟩ := Reaches.below ht h (hlinks _ (by rw [hplace]; exact hbelow))
  refine ⟨hplace, fun u hu => ?_⟩
  rcases hend u hu with hu | rfl
  · exact htrail u hu
  · exact .inr (by rw [hplace]; exact hbelow)

/-- What is known of the files from the time when the outputs of a build were free of links. -/
structure Undisturbed (layout : BuildLayout) (before fs : FileSystem) : Prop where
  steady : Steady before fs
  unlinked : layout.Unlinked before
  up_notMem : Step.up ∉ layout.buildDir.steps

namespace Undisturbed

variable (h : layout.Undisturbed before fs)

include h

theorem trans {fs' : FileSystem} (hs : Steady fs fs') : layout.Undisturbed before fs' :=
  ⟨h.steady.trans hs, h.unlinked, h.up_notMem⟩

theorem trail_eq (hlost : layout.buildDir.isAbsolute = true ∨ fs.lostLevels = 0) :
    fs.trail layout.buildDir = before.trail layout.buildDir ∧ layout.home fs = layout.home before ∧
      layout.Unlinked fs := by
  have htrail := h.steady.trail_eq hlost
  have hhome : layout.home fs = layout.home before := by
    rw [home, home, place, place, destination_congr htrail]
  refine ⟨htrail, hhome, fun u hu => ?_⟩
  rw [hhome] at hu
  rw [h.steady.linkAt?, h.unlinked u hu]

theorem root_eq (hr : Reaches fs layout.root k l) : l = layout.home before := by
  have hlost := hr.not_lost (up_notMem_root h.up_notMem)
  rw [show layout.root.isAbsolute = layout.buildDir.isAbsolute from
    Path.isAbsolute_entry _ _ isEntryName_launcherName] at hlost
  obtain ⟨_, hhome, hlinks⟩ := h.trail_eq hlost
  rw [(reaches_root hlinks hr).2.1, hhome]

theorem output_eq (hs : IsEntryName (Utf8.encode s)) (ht : IsEntryName (Utf8.encode t))
    (hr : Reaches fs (layout.root / s / t) k l) :
    l = layout.home before ++ [Utf8.encode s] ++ [Utf8.encode t] ∧
      ∀ u ∈ fs.trail (layout.root / s / t),
        u ∈ before.trail layout.buildDir ∨ layout.home before <+: u := by
  have hlost := hr.not_lost (up_notMem_output h.up_notMem hs ht)
  rw [Path.isAbsolute_entry _ _ ht, Path.isAbsolute_entry _ _ hs,
    show layout.root.isAbsolute = layout.buildDir.isAbsolute from
      Path.isAbsolute_entry _ _ isEntryName_launcherName] at hlost
  obtain ⟨htrail, hhome, hlinks⟩ := h.trail_eq hlost
  obtain ⟨rfl, hmem⟩ := reaches_output hlinks hs ht hr
  rw [hhome, htrail] at hmem
  exact ⟨by rw [hhome], hmem⟩

/-- An output can be copied into a distribution, if no link inside the distribution leads to it. -/
theorem source (hs : IsEntryName (Utf8.encode s)) (ht : IsEntryName (Utf8.encode t))
    (hpart : ¬ Distribution.IsPart (Utf8.encode s)) (hr : Reaches fs (layout.root / s / t) k l)
    (hroot : fs.destination root = before.destination root)
    (hway : ∀ u ∈ before.trail layout.buildDir, Distribution.Inside before root u →
      before.linkAt? u = none) :
    Distribution.Source fs root (layout.root / s / t) := by
  obtain ⟨rfl, hmem⟩ := h.output_eq hs ht hr
  refine ⟨fun u hu hin => ?_, .inr (.inr (up_notMem_output h.up_notMem hs ht)), fun _ v d n hd => ?_⟩
  · rw [h.steady.linkAt?]
    rcases hmem u hu with hu | hu
    · refine hway u hu ?_
      rwa [Distribution.Inside, place, place, hroot] at hin
    · exact h.unlinked u hu
  · rw [hr.destination_eq]
    intro heq
    obtain ⟨heq, _⟩ := List.append_inj' heq rfl
    obtain rfl := (List.cons.inj (List.append_inj' heq rfl).2).1
    exact hpart hd

theorem find_output (hs : IsEntryName (Utf8.encode s)) (ht : IsEntryName (Utf8.encode t))
    {e : DirEntry}
    (he : fs.entry? (layout.home before ++ [Utf8.encode s] ++ [Utf8.encode t]) = some e)
    (hfile : fs.isFile (layout.root / s / t)) :
    fs.find .follow (layout.root / s / t) =
      .ok (some (layout.home before ++ [Utf8.encode s] ++ [Utf8.encode t]), e) := by
  obtain ⟨l, _, _, hf⟩ := isFile_iff.mp hfile
  obtain ⟨hn, ⟨k, hr⟩, _⟩ := find_follow_iff.mp hf
  obtain ⟨rfl, _⟩ := h.output_eq hs ht hr
  exact find_follow_iff.mpr ⟨hn, ⟨k, hr⟩, he⟩

end Undisturbed

end BuildLayout

section Steps

open LaunchDist.Distribution

variable {layout : BuildLayout} {before : FileSystem} {w w' : Workspace} {p : Path}

theorem Manifest.store_spec {m : Manifest} (hup : Step.up ∉ layout.buildDir.steps)
    (hlinks : layout.Unlinked w.files) (h : m.store layout w = .ok p w') :
    p = layout.manifestPath ∧ layout.Undisturbed w.files w'.files ∧
      ∃ k l mode, Reaches w'.files layout.manifestPath k l ∧
        w'.files.entry? l = some (.file mode (Utf8.encode m.render)) := by
  obtain ⟨rfl, made, l, mode, hmake, ht, hfiles⟩ := Manifest.store_ok h
  obtain ⟨_, _, _, post, _, v, hplanted, rfl, _⟩ :=
    makeDirs_spec isEntryName_manifestDir (BuildLayout.up_notMem_root hup) hmake
  obtain ⟨hw, _, hreach⟩ := target_spec ht
  obtain ⟨k, hr⟩ := hreach mode (Utf8.encode m.render)
  rw [hfiles]
  exact ⟨rfl, ⟨(steady_plant hplanted.plantable).trans (hw.steady_put _ _), hlinks, hup⟩, k, l, mode,
    hr, hw.entry?_put_self _ _⟩

namespace LauncherSearch

variable {search : LauncherSearch} {path : Path}

theorem find_ok (h : search.find w = .ok path w') :
    search.candidates.find? w.files.isFile = some path ∧ w'.files = w.files := by
  rw [find, Action.bind_ok_iff] at h
  obtain ⟨_, w1, hquery, h⟩ := h
  obtain ⟨hfind, rfl⟩ := Action.query_ok_iff.mp hquery
  obtain ⟨_, w2, hreport, h⟩ := Action.bind_ok_iff.mp h
  obtain ⟨rfl, rfl⟩ := Action.pure_ok_iff.mp h
  rw [Action.report_ok_iff.mp hreport]
  refine ⟨?_, rfl⟩
  rw [findIn] at hfind
  split at hfind
  · rename_i hsome
    rw [hsome, Except.ok.inj hfind]
  · cases hfind

theorem find_error {failure : Failure} (h : search.find w = .error failure w') :
    failure = .launcherNotFound search.name search.dirs ∧ w'.files = w.files := by
  rw [find, Action.bind_error_iff] at h
  rcases h with hquery | ⟨_, w1, _, h⟩
  · obtain ⟨hfind, rfl⟩ := Action.query_error_iff.mp hquery
    refine ⟨?_, rfl⟩
    rw [findIn] at hfind
    split at hfind
    · cases hfind
    · exact (Except.error.inj hfind).symm
  · rcases Action.bind_error_iff.mp h with hreport | ⟨_, _, _, h⟩
    · exact absurd hreport Action.report_ne_error
    · exact absurd h Action.pure_ne_error

theorem stage_ok (h : search.stage layout w = .ok p w') :
    p = layout.stagingDir / search.name ∧
      ∃ cleared source, Action.resetDir layout.stagingDir w = .ok () cleared ∧
        search.candidates.find? cleared.files.isFile = some source ∧
        cleared.files.copyFile source (layout.stagingDir / search.name) = .ok w'.files := by
  rw [stage, Action.bind_ok_iff] at h
  obtain ⟨_, cleared, hreset, h⟩ := h
  obtain ⟨source, w1, hfind, h⟩ := Action.bind_ok_iff.mp h
  obtain ⟨hsource, hfiles⟩ := find_ok hfind
  obtain ⟨_, w2, hcopy, h⟩ := Action.bind_ok_iff.mp h
  obtain ⟨files, hcopied, rfl⟩ := Action.copyFile_ok hcopy
  obtain ⟨_, w3, hreport, h⟩ := Action.bind_ok_iff.mp h
  obtain ⟨rfl, rfl⟩ := Action.pure_ok_iff.mp h
  rw [Action.report_ok_iff.mp hreport]
  rw [hfiles] at hcopied
  exact ⟨rfl, cleared, source, hreset, hsource, hcopied⟩

/-- A launcher that has been staged is the first one of the search path once the staging directory has
been emptied. Other files stay. -/
theorem stage_spec (hname : IsEntryName (Utf8.encode search.name))
    (hb : layout.Undisturbed before w.files) {k : Nat} {l : Location}
    (hroot : Reaches w.files layout.root k l) (h : search.stage layout w = .ok p w') :
    ∃ cleared source mode content, Action.resetDir layout.stagingDir w = .ok () cleared ∧
      search.candidates.find? cleared.files.isFile = some source ∧
      cleared.files.stat source = .ok (.file mode content) ∧
      p = layout.stagingDir / search.name ∧ layout.Undisturbed before w'.files ∧
      (∃ k l, Reaches w'.files p k l ∧ w'.files.entry? l = some (.file mode content)) ∧
      ∀ u m c, ¬ layout.home before ++ [Utf8.encode "launcher"] <+: u →
        w.files.entry? u = some (.file m c) → w'.files.entry? u = some (.file m c) := by
  obtain ⟨rfl, cleared, source, hreset, hsource, hcopied⟩ := stage_ok h
  obtain ⟨start, mode, content, l', m, hf, ht, hfiles⟩ := copyFile_spec hcopied
  rw [hfiles]
  obtain ⟨_, home, hnew⟩ := resetDir_spec isEntryName_stagingDir
    (BuildLayout.up_notMem_root hb.up_notMem) (changeAt_resetDir_ok hreset)
  have hplace : w.files.place layout.root (Utf8.encode "launcher") =
      layout.home before ++ [Utf8.encode "launcher"] := by
    rw [place, hroot.destination_eq, hb.root_eq hroot]
  have hsteady : Steady w.files cleared.files := hnew.steady fun u hu => by
    rw [hplace] at hu
    rw [hb.steady.linkAt?, hb.unlinked u ((List.prefix_append _ _).trans hu)]
  have hcleared := hb.trans hsteady
  obtain ⟨hw, _, hreach⟩ := target_spec ht
  obtain ⟨k', hr⟩ := hreach mode (if start = l' then [] else content)
  have hstaged := hcleared.trans (hw.steady_put mode (if start = l' then [] else content))
  obtain ⟨rfl, _⟩ := hstaged.output_eq isEntryName_stagingDir hname hr
  -- The staging directory was empty, so the launcher is not copied onto itself.
  have hempty : cleared.files.entry?
      (layout.home before ++ [Utf8.encode "launcher"] ++ [Utf8.encode search.name]) = none := by
    obtain ⟨k2, hr2⟩ := hnew.reaches
    obtain rfl := hcleared.root_eq hr2
    exact hnew.empty _ (List.prefix_append _ _) (by simp)
  have hne : start ≠
      layout.home before ++ [Utf8.encode "launcher"] ++ [Utf8.encode search.name] := by
    rintro rfl
    have he := (find_follow_iff.mp hf).2.2
    rw [hempty] at he
    cases he
  rw [if_neg hne] at hr hstaged ⊢
  refine ⟨cleared, source, mode, content, hreset, hsource, stat_of_find hf, rfl, hstaged,
    ⟨k', _, hr, hw.entry?_put_self _ _⟩, fun u m c hu he => ?_⟩
  have hkept : cleared.files.entry? u = some (.file m c) := by
    rcases hnew.apart u (by rwa [hplace]) with heq | ⟨hn, _⟩
    · rw [heq, he]
    · rw [hn] at he
      cases he
  rw [hw.entry?_put, if_neg, hkept]
  rintro rfl
  rw [hempty] at hkept
  cases hkept

end LauncherSearch

theorem staged_of_store_stage {m : Manifest} {search : LauncherSearch} {staged : Path} {w1 : Workspace}
    (hname : IsEntryName (Utf8.encode search.name)) (hup : Step.up ∉ layout.buildDir.steps)
    (hlinks : layout.Unlinked w.files) (hstore : m.store layout w = .ok p w1)
    (hstage : search.stage layout w1 = .ok staged w') :
    layout.Undisturbed w.files w'.files ∧ p = layout.manifestPath ∧
      staged = layout.stagingDir / search.name ∧
      (∃ mode, w'.files.entry?
        (layout.home w.files ++ [Utf8.encode "manifest"] ++ [Utf8.encode Manifest.fileName]) =
          some (.file mode (Utf8.encode m.render))) ∧
      ∃ cleared launcher mode content, Action.resetDir layout.stagingDir w1 = .ok () cleared ∧
        search.candidates.find? cleared.files.isFile = some launcher ∧
        cleared.files.stat launcher = .ok (.file mode content) ∧
        ∃ k l, Reaches w'.files staged k l ∧ w'.files.entry? l = some (.file mode content) := by
  obtain ⟨rfl, hwritten, k, l, mode, hr, he⟩ := Manifest.store_spec hup hlinks hstore
  obtain ⟨rfl, _⟩ := hwritten.output_eq isEntryName_manifestDir isEntryName_manifest hr
  obtain ⟨_, _, hdir, _⟩ := (reaches_entry_iff isEntryName_manifest).mp hr
  obtain ⟨_, _, hroot, _⟩ := (reaches_entry_iff isEntryName_manifestDir).mp hdir
  obtain ⟨cleared, launcher, mode', content, hreset, hfind, hstat, rfl, hstaged, hreach, hkept⟩ :=
    LauncherSearch.stage_spec hname hwritten hroot hstage
  have hapart : ¬ layout.home w.files ++ [Utf8.encode "launcher"] <+:
      layout.home w.files ++ [Utf8.encode "manifest"] ++ [Utf8.encode Manifest.fileName] := by
    rw [List.append_assoc, List.prefix_append_right_inj]
    decide
  exact ⟨hstaged, rfl, rfl, ⟨mode, hkept _ _ _ hapart he⟩, cleared, launcher, mode', content, hreset,
    hfind, hstat, hreach⟩

end Steps

namespace PackagingRequest

open LaunchDist.Distribution

section Package

variable {request : PackagingRequest} {environmentPath : Option Bytes} {w w' : Workspace}
  {d : Distribution}

theorem isEntryName_search : IsEntryName (Utf8.encode (request.launcherSearch environmentPath).name) :=
  isEntryName_launcherName

/-- The state in which packaging starts to make anything. -/
def started (request : PackagingRequest) (w : Workspace) : Workspace :=
  { w with log := w.log ++
    [.packaging request.programName request.mainClass.name request.dependencies.length] }

/-- A distribution is packaged in three steps, of a request with a program name that fits. -/
theorem package_ok_iff :
    request.package environmentPath w = .ok d w' ↔
      ProgramName.validate request.programName = .ok () ∧
      ∃ manifest written launcher staged,
        request.manifest.store request.layout (request.started w) = .ok manifest written ∧
        (request.launcherSearch environmentPath).stage request.layout written =
          .ok launcher staged ∧
        assemble request.distDir ⟨request.programName, launcher, manifest, request.classpath⟩ staged =
          .ok d w' := by
  rw [package, Action.bind_ok_iff]
  constructor
  · rintro ⟨_, w0, hvalidate, h⟩
    obtain ⟨hvalid, rfl⟩ := Action.ofExcept_ok_iff.mp hvalidate
    obtain ⟨_, w1, hreport, h⟩ := Action.bind_ok_iff.mp h
    obtain rfl := Action.report_ok_iff.mp hreport
    obtain ⟨manifest, written, hstore, h⟩ := Action.bind_ok_iff.mp h
    obtain ⟨launcher, staged, hstage, h⟩ := Action.bind_ok_iff.mp h
    exact ⟨hvalid, manifest, written, launcher, staged, hstore, hstage, h⟩
  · rintro ⟨hvalid, manifest, written, launcher, staged, hstore, hstage, h⟩
    refine ⟨(), w, Action.ofExcept_ok_iff.mpr ⟨hvalid, rfl⟩, ?_⟩
    rw [Action.bind_ok_iff]
    refine ⟨(), request.started w, Action.report_ok_iff.mpr rfl, ?_⟩
    rw [Action.bind_ok_iff]
    refine ⟨manifest, written, hstore, ?_⟩
    rw [Action.bind_ok_iff]
    exact ⟨launcher, staged, hstage, h⟩

/-- Packaging in which the manifest is looked for, but not read, before it is installed. -/
def produce (request : PackagingRequest) (environmentPath : Option Bytes) :
    Action Distribution := do
  let manifest ← request.manifest.store request.layout
  let launcher ← (request.launcherSearch environmentPath).stage request.layout
  Action.query fun fs => if fs.isFile manifest then .ok () else .error (.io manifest .notRegular)
  Action.report (.readManifest manifest)
  install request.distDir ⟨request.programName, launcher, manifest, request.classpath⟩

theorem package_of_produce (hname : ProgramName.validate request.programName = .ok ())
    (hbuild : Step.up ∉ request.buildDir.steps) (hlinks : request.layout.Unlinked w.files)
    (h : request.produce environmentPath (request.started w) = .ok d w') :
    request.package environmentPath w = .ok d w' := by
  rw [produce, Action.bind_ok_iff] at h
  obtain ⟨manifest, written, hstore, h⟩ := h
  obtain ⟨launcher, staged, hstage, h⟩ := Action.bind_ok_iff.mp h
  obtain ⟨_, w1, hquery, hrest⟩ := Action.bind_ok_iff.mp h
  obtain ⟨hfile, rfl⟩ := Action.query_ok_iff.mp hquery
  obtain ⟨_, w2, hreport, hinstall⟩ := Action.bind_ok_iff.mp hrest
  obtain rfl := Action.report_ok_iff.mp hreport
  obtain ⟨hundisturbed, rfl, _, ⟨_, he⟩, _⟩ :=
    staged_of_store_stage (w := request.started w) isEntryName_search hbuild hlinks hstore hstage
  have hfound : w1.files.isFile request.layout.manifestPath := by
    by_contra hno
    rw [if_neg hno] at hfile
    cases hfile
  have hm := Manifest.atPath_of_find
    (hundisturbed.find_output isEntryName_manifestDir isEntryName_manifest he hfound)
  exact package_ok_iff.mpr ⟨hname, _, written, launcher, w1, hstore, hstage,
    assemble_ok_iff.mpr ⟨hname, ⟨_, hm, rfl⟩, hinstall⟩⟩

/-- What is assembled when a request is packaged. -/
def inputs (request : PackagingRequest) : AssemblyInputs where
  programName := request.programName
  launcher := request.layout.stagedLauncher
  manifest := request.layout.manifestPath
  artifacts := request.classpath

/-- The outputs of a build, with the manifest `written` and the launcher `staged`, which was the first one
of the search path once the staging directory had been emptied. Both can be copied into the
distribution. -/
structure Outputs (request : PackagingRequest) (environmentPath : Option Bytes)
    (w written staged : Workspace) : Prop where
  store : request.manifest.store request.layout (request.started w) =
    .ok request.layout.manifestPath written
  manifest : ∃ l mode, staged.files.find .follow request.layout.manifestPath =
    .ok (some l, .file mode (Utf8.encode request.manifest.render))
  launcher : ∃ cleared launcher mode content,
    Action.resetDir request.layout.stagingDir written = .ok () cleared ∧
    (request.launcherSearch environmentPath).candidates.find? cleared.files.isFile = some launcher ∧
    cleared.files.stat launcher = .ok (.file mode content) ∧
    staged.files.entry? (staged.files.destination request.layout.stagedLauncher) =
      some (.file mode content)
  manifestSource : Source staged.files request.distDir request.layout.manifestPath
  launcherSource : Source staged.files request.distDir request.layout.stagedLauncher

/-- A packaged distribution has been assembled from the outputs of the build. -/
theorem outputs_of_package
    (hnames : ∀ a ∈ request.classpath, IsEntryName (Utf8.encode a.fileName))
    (hbuild : Step.up ∉ request.buildDir.steps) (hdist : Step.up ∉ request.distDir.steps)
    (hlinks : request.layout.Unlinked w.files)
    (hway : ∀ u ∈ w.files.trail request.buildDir, Inside w.files request.distDir u →
      w.files.linkAt? u = none)
    (h : request.package environmentPath w = .ok d w') :
    ∃ written staged home c, request.Outputs environmentPath w written staged ∧
      assemble request.distDir request.inputs staged = .ok d w' ∧
      Assembled staged.files w'.files request.distDir request.inputs home c := by
  have hup : Step.up ∉ request.distDir.moves := (Path.up_notMem_steps_iff _).mp hdist
  obtain ⟨_, _, written, _, staged, hstore, hstage, hassemble⟩ := package_ok_iff.mp h
  obtain ⟨hundisturbed, rfl, rfl, ⟨_, he⟩, cleared, launcher, mode, content, hreset, hfind, hstat, _, _,
    hr', he'⟩ := staged_of_store_stage (w := request.started w) isEntryName_search hbuild hlinks
      hstore hstage
  change assemble request.distDir request.inputs staged = .ok d w' at hassemble
  obtain ⟨_, ⟨_, hm, _⟩, home, c, hassembled⟩ :=
    assemble_spec hup hnames (.inl (List.cons_ne_nil _ _)) hassemble
  have hf := hundisturbed.find_output isEntryName_manifestDir isEntryName_manifest he
    (Manifest.isFile_of_atPath hm)
  obtain ⟨_, ⟨_, hr⟩, _⟩ := find_follow_iff.mp hf
  -- The distribution is made where its root led at first.
  have hdest : staged.files.destination request.distDir = w.files.destination request.distDir :=
    hundisturbed.steady.destination_eq (hassembled.building.not_lost hup)
  refine ⟨written, staged, home, c, ⟨hstore, ⟨_, _, hf⟩,
    ⟨cleared, launcher, mode, content, hreset, hfind, hstat, ?_⟩, ?_, ?_⟩, hassemble, hassembled⟩
  · exact (congrArg _ hr'.destination_eq).trans he'
  · exact hundisturbed.source isEntryName_manifestDir isEntryName_manifest (by decide) hr hdest hway
  · exact hundisturbed.source isEntryName_stagingDir isEntryName_launcherName (by decide) hr' hdest
      hway

/-- The manifest of the request is installed, if the way to the build directory follows no link inside
the distribution. -/
theorem atPath_installed
    (hartifacts : ∀ a ∈ request.classpath, ∃ fs p, Artifact.atPath fs p = .ok a)
    (hbuild : Step.up ∉ request.buildDir.steps) (hdist : Step.up ∉ request.distDir.steps)
    (hlinks : request.layout.Unlinked w.files)
    (hway : ∀ u ∈ w.files.trail request.buildDir, Inside w.files request.distDir u →
      w.files.linkAt? u = none)
    (h : request.package environmentPath w = .ok d w') :
    Manifest.atPath w'.files (binDirOf request.distDir / Manifest.fileName) =
      .ok request.manifest := by
  obtain ⟨_, _, _, _, houtputs, _, hassembled⟩ :=
    outputs_of_package (isEntryName_of_artifacts hartifacts) hbuild hdist hlinks hway h
  obtain ⟨_, _, hf⟩ := houtputs.manifest
  exact hassembled.atPath_manifest houtputs.manifestSource (Manifest.atPath_of_find hf)

end Package

/-- A distribution that has been packaged holds the manifest of the request and the launcher that was
first on the search path once the staging directory had been emptied. The way to the build directory
must not follow a link inside the distribution. -/
theorem package_installs (request : PackagingRequest) (environmentPath : Option Bytes)
    (w w' : Workspace) (d : Distribution) (mainClass : String)
    (hmain : MainClass.ofString mainClass = .ok request.mainClass)
    (hartifacts : ∀ a ∈ request.classpath, ∃ fs p, Artifact.atPath fs p = .ok a)
    (hbuild : Step.up ∉ request.buildDir.steps) (hdist : Step.up ∉ request.distDir.steps)
    (hlinks : request.layout.Unlinked w.files)
    (hway : ∀ u ∈ w.files.trail request.buildDir, Inside w.files request.distDir u →
      w.files.linkAt? u = none)
    (h : request.package environmentPath w = .ok d w') :
    Manifest.atPath w'.files (binDirOf request.distDir / Manifest.fileName) =
      .ok ⟨"java", Text.trim mainClass, 21, request.classpath.map fun a => "../lib/" ++ a.fileName⟩ ∧
    ∃ manifest written cleared launcher mode content,
      request.manifest.store request.layout (request.started w) = .ok manifest written ∧
      Action.resetDir request.layout.stagingDir written = .ok () cleared ∧
      (request.launcherSearch environmentPath).candidates.find? cleared.files.isFile =
        some launcher ∧
      cleared.files.stat launcher = .ok (.file mode content) ∧
      w'.files.inspect (binDirOf request.distDir / request.programName) =
        .ok (.file mode content) := by
  obtain ⟨written, _, _, _, houtputs, _, hassembled⟩ :=
    outputs_of_package (isEntryName_of_artifacts hartifacts) hbuild hdist hlinks hway h
  obtain ⟨cleared, launcher, mode, content, hreset, hfind, hstat, he⟩ := houtputs.launcher
  refine ⟨?_, _, written, cleared, launcher, mode, content, houtputs.store, hreset, hfind, hstat, ?_⟩
  · have hname : request.mainClass.name = Text.trim mainClass := by
      rw [MainClass.ofString] at hmain
      split at hmain
      · cases hmain
      · rw [← Except.ok.inj hmain]
    have hinstalled := atPath_installed hartifacts hbuild hdist hlinks hway h
    rw [manifest, Manifest.generate, hname] at hinstalled
    exact hinstalled
  · obtain ⟨e, hcopy, hc⟩ := hassembled.launcher
    have hheld := (hcopy.held houtputs.launcherSource).1
    obtain rfl := Option.some.inj (he.symm.trans hheld)
    exact (hassembled.building.find_file isEntryName_bin (.inr rfl) hassembled.launcherPath hc).2

def sampleRequest : PackagingRequest where
  programName := "app"
  mainClass := ⟨"Main"⟩
  program := ⟨"app.jar", Path.ofString "/app.jar"⟩
  dependencies := [⟨"dep.jar", Path.ofString "/dep.jar"⟩]
  buildDir := Path.ofString "build"
  distDir := Path.ofString "dist"
  searchPath := some (Utf8.encode "path")

/-- A program with a dependency, and a launcher on the search path. -/
def sampleFiles : FileSystem where
  children := [
    (Utf8.encode "app.jar", .file 0o644 (Utf8.encode "app")),
    (Utf8.encode "dep.jar", .file 0o644 (Utf8.encode "dep")),
    (Utf8.encode "path", .dir [(Utf8.encode launcherName, .file 0o755 (Utf8.encode "run"))])]
  workingDir := []

theorem package_installs_sampleFiles :
    ∃ d w', sampleRequest.package none ⟨sampleFiles, []⟩ = .ok d w' ∧
      Manifest.atPath w'.files (Path.ofString "dist/bin/my-java-launcher.json") =
        .ok ⟨"java", "Main", 21, ["../lib/app.jar", "../lib/dep.jar"]⟩ := by
  have hlinks : sampleRequest.layout.Unlinked sampleFiles :=
    BuildLayout.unlinked_of_entry?_home (by decide +kernel)
  obtain ⟨d, w', hproduce⟩ : ∃ d w',
      sampleRequest.produce none (sampleRequest.started ⟨sampleFiles, []⟩) = .ok d w' :=
    Action.exists_of_succeeds (by decide +kernel)
  have hartifacts : ∀ a ∈ sampleRequest.classpath, Artifact.atPath sampleFiles a.path = .ok a := by
    decide +kernel
  have h := package_of_produce (w := ⟨sampleFiles, []⟩) (by decide) (by decide +kernel) hlinks hproduce
  exact ⟨d, w', h, (package_installs sampleRequest none ⟨sampleFiles, []⟩ w' d " Main " (by decide)
    (fun a ha => ⟨_, _, hartifacts a ha⟩) (by decide +kernel) (by decide +kernel) hlinks
    (by decide +kernel) h).1⟩

def linkedRequest : PackagingRequest where
  programName := "app"
  mainClass := ⟨"Main"⟩
  program := ⟨"app.jar", Path.ofString "/app.jar"⟩
  dependencies := []
  buildDir := Path.ofString "s"
  distDir := Path.ofString "d"
  searchPath := some (Utf8.encode "path")

/-- A build directory behind a link in `lib`, and other outputs where the path leads without it. -/
def linkedFiles : FileSystem where
  children := [
    (Utf8.encode "app.jar", .file 0o644 (Utf8.encode "app")),
    (Utf8.encode "path", .dir [(Utf8.encode launcherName, .file 0o755 (Utf8.encode "run"))]),
    (Utf8.encode "s", .link (Path.ofString "d/lib/../b")),
    (Utf8.encode "e", .dir [(Utf8.encode "b", .dir []), (Utf8.encode "f", .dir [])]),
    (Utf8.encode "d", .dir [
      (Utf8.encode "lib", .link (Path.ofString "../e/f")),
      (Utf8.encode "b", .dir [(Utf8.encode launcherName, .dir [
        (Utf8.encode "manifest", .dir [(Utf8.encode Manifest.fileName, .file 0o644 [])]),
        (Utf8.encode "launcher", .dir [(Utf8.encode launcherName, .file 0o644 [])])])])])]
  workingDir := []

/-- If the way to the build directory follows a link inside the distribution, something else may be
installed than has been made. -/
theorem package_linkedFiles_without_manifest :
    MainClass.ofString "Main" = .ok linkedRequest.mainClass ∧
    (∀ a ∈ linkedRequest.classpath, Artifact.atPath linkedFiles a.path = .ok a) ∧
    Step.up ∉ linkedRequest.buildDir.steps ∧ Step.up ∉ linkedRequest.distDir.steps ∧
    linkedRequest.layout.Unlinked linkedFiles ∧
    ∃ d w', linkedRequest.package none ⟨linkedFiles, []⟩ = .ok d w' ∧
      ∀ m, Manifest.atPath w'.files (binDirOf linkedRequest.distDir / Manifest.fileName) ≠ .ok m := by
  have hlinks : linkedRequest.layout.Unlinked linkedFiles :=
    BuildLayout.unlinked_of_entry?_home (by decide +kernel)
  refine ⟨by decide, by decide +kernel, by decide +kernel, by decide +kernel, hlinks, ?_⟩
  have hrun : (match linkedRequest.produce none (linkedRequest.started ⟨linkedFiles, []⟩) with
      | .ok _ w' => decide (w'.files.stat (binDirOf linkedRequest.distDir / Manifest.fileName) =
        .ok (.file 0o644 []))
      | .error _ _ => false) = true := by decide +kernel
  cases h : linkedRequest.produce none (linkedRequest.started ⟨linkedFiles, []⟩) with
  | error e w' =>
    rw [h] at hrun
    cases hrun
  | ok d w' =>
    rw [h] at hrun
    refine ⟨d, w', package_of_produce (by decide) (by decide +kernel) hlinks h, fun m hm => ?_⟩
    obtain ⟨_, _, text, hstat, hdecode, hparse⟩ := Manifest.atPath_ok_iff.mp hm
    cases (of_decide_eq_true hrun).symm.trans hstat
    obtain rfl := Option.some.inj ((by decide : some "" = Utf8.decode? []).trans hdecode)
    cases hparse

end PackagingRequest

end LaunchDist
