import LaunchDist.Proofs.Artifact.Shared
import LaunchDist.Proofs.Distribution.Building
import LaunchDist.Proofs.Manifest.Store
/-!
# What assembling leaves

An assembled distribution holds the launcher and the manifest in `bin`, and in `lib` one file for each
name of an artifact, the last one of that name. Nothing else is in the two directories.
-/
namespace LaunchDist

namespace Distribution

open FileSystem
open LaunchDist.Path (Step IsEntryName)

theorem isEntryName_bin : IsEntryName (Utf8.encode "bin") := by decide

theorem isEntryName_lib : IsEntryName (Utf8.encode "lib") := by decide

theorem isAbsolute_libDirOf (root : Path) : (libDirOf root).isAbsolute = root.isAbsolute :=
  Path.isAbsolute_entry root "lib" isEntryName_lib

theorem isAbsolute_binDirOf (root : Path) : (binDirOf root).isAbsolute = root.isAbsolute :=
  Path.isAbsolute_entry root "bin" isEntryName_bin

theorem isEntryName_manifest : IsEntryName (Utf8.encode Manifest.fileName) := by decide

/-- A path to an entry of a directory that a look-up may take. -/
structure EntryPath (p : Path) (s : String) : Prop where
  isEntryName : IsEntryName (Utf8.encode s)
  length_le : (Utf8.encode s).length ≤ maxNameLength
  nameable : Nameable (p / s)

theorem steps_of_validate {name : String} (h : ProgramName.validate name = .ok ()) :
    name ≠ Manifest.fileName ∧ (Path.ofString name).isAbsolute = false ∧
      ∃ n rest, (Path.ofString name).steps = .name n :: rest := by
  unfold ProgramName.validate at h
  dsimp only at h
  split_ifs at h with _ _ hplain hname
  rw [Bool.not_eq_true', Bool.not_eq_false] at hplain
  unfold ProgramName.isPlain at hplain
  split at hplain
  · rename_i n ha hc
    obtain ⟨rest, hsteps, _⟩ := Path.steps_of_components_eq _ n ha hc
    exact ⟨hname, ha, n, rest, hsteps⟩
  · cases hplain

theorem atPath_ok {fs : FileSystem} {p : Path} {a : Artifact} (h : Artifact.atPath fs p = .ok a) :
    ∃ l, fs.canonicalize p = .ok l ∧ a.path = l.path ∧ p.fileName? = some (Utf8.encode a.fileName) := by
  unfold Artifact.atPath at h
  split at h
  · cases h
  · rename_i l hl
    split at h
    · cases h
    · split at h
      · rename_i fileName hname
        obtain rfl := Except.ok.inj h
        obtain ⟨n, hn, hdecode⟩ := Option.bind_eq_some_iff.mp hname
        obtain rfl := (Utf8.decode?_eq_some_iff n fileName).mp hdecode
        exact ⟨l, hl, rfl, hn⟩
      · cases h

theorem isAbsolute_of_atPath {fs : FileSystem} {p : Path} {a : Artifact}
    (h : Artifact.atPath fs p = .ok a) : a.path.isAbsolute = true := by
  obtain ⟨l, _, hpath, _⟩ := atPath_ok h
  rw [hpath]
  rfl

theorem isEntryName_of_atPath {fs : FileSystem} {p : Path} {a : Artifact}
    (h : Artifact.atPath fs p = .ok a) : IsEntryName (Utf8.encode a.fileName) := by
  obtain ⟨_, _, _, hname⟩ := atPath_ok h
  exact Path.isComponent_of_mem_moves p _ (Path.mem_moves_of_fileName? hname)

theorem isEntryName_of_artifacts {artifacts : List Artifact}
    (h : ∀ a ∈ artifacts, ∃ fs p, Artifact.atPath fs p = .ok a) :
    ∀ a ∈ artifacts, IsEntryName (Utf8.encode a.fileName) := by
  intro a ha
  obtain ⟨_, _, hat⟩ := h a ha
  exact isEntryName_of_atPath hat

/-- What is in `lib` once artifacts have been copied into it. -/
structure Libraries (before : FileSystem) (root : Path) (artifacts : List Artifact)
    (c c' : Contents) : Prop where
  last : ∀ pre a post, artifacts = pre ++ a :: post → (∀ b ∈ post, b.fileName ≠ a.fileName) →
    ∃ e, CopyOf before root a.path e ∧ c' libName (Utf8.encode a.fileName) = some e
  other : ∀ n, (∀ a ∈ artifacts, Utf8.encode a.fileName ≠ n) → c' libName n = c libName n
  ne_none : ∀ a ∈ artifacts, c' libName (Utf8.encode a.fileName) ≠ none
  entryPath : ∀ a ∈ artifacts, EntryPath (libDirOf root) a.fileName

theorem Libraries.congr {before : FileSystem} {root : Path} {artifacts : List Artifact}
    {c c' c'' : Contents} (h : Libraries before root artifacts c c')
    (heq : ∀ n, c'' libName n = c' libName n) : Libraries before root artifacts c c'' where
  last pre a post hsplit hlast := by
    obtain ⟨e, hcopy, hc⟩ := h.last pre a post hsplit hlast
    exact ⟨e, hcopy, by rw [heq, hc]⟩
  other n hn := by rw [heq, h.other n hn]
  ne_none a ha := by rw [heq]; exact h.ne_none a ha
  entryPath := h.entryPath

theorem Libraries.nil (before : FileSystem) (root : Path) (c : Contents) :
    Libraries before root [] c c where
  last pre a post hsplit := by simp at hsplit
  other _ _ := rfl
  ne_none := by simp
  entryPath := by simp

theorem Libraries.cons {before : FileSystem} {root : Path} {a : Artifact} {rest : List Artifact}
    {c c' : Contents} {e : DirEntry} (hcopy : CopyOf before root a.path e)
    (hpath : EntryPath (libDirOf root) a.fileName)
    (h : Libraries before root rest (c.install libName (Utf8.encode a.fileName) e) c') :
    Libraries before root (a :: rest) c c' where
  last pre b post hsplit hlast := by
    rcases pre with _ | ⟨x, pre⟩
    · obtain ⟨rfl, rfl⟩ := List.cons.inj hsplit
      refine ⟨e, hcopy, ?_⟩
      rw [h.other _ fun b hb hbn => hlast b hb (Utf8.encode_injective hbn), Contents.install_self]
    · exact h.last pre b post (List.cons.inj hsplit).2 hlast
  other n hn := by
    rw [h.other n fun b hb => hn b (List.mem_cons_of_mem _ hb)]
    exact Contents.install_of_name_ne _ _ (hn a List.mem_cons_self).symm
  ne_none b hb := by
    rcases List.mem_cons.mp hb with rfl | hb
    · by_cases hex : ∃ b' ∈ rest, Utf8.encode b'.fileName = Utf8.encode b.fileName
      · obtain ⟨b', hb', heq⟩ := hex
        rw [← heq]
        exact h.ne_none b' hb'
      · rw [h.other _ fun b' hb' heq => hex ⟨b', hb', heq⟩, Contents.install_self]
        exact Option.some_ne_none _
    · exact h.ne_none b hb
  entryPath b hb := by
    rcases List.mem_cons.mp hb with rfl | hb
    · exact hpath
    · exact h.entryPath b hb

theorem copyLibraries_spec {before : FileSystem} {root : Path} {home : Location} {c : Contents}
    {w w' : Workspace} {u : Unit} (artifacts : List Artifact)
    (hnames : ∀ a ∈ artifacts, IsEntryName (Utf8.encode a.fileName))
    (hb : Building before w.files root home c)
    (h : copyLibraries (libDirOf root) artifacts w = .ok u w') :
    ∃ c', Building before w'.files root home c' ∧ Libraries before root artifacts c c' ∧
      ∀ n, c' binName n = c binName n := by
  induction artifacts generalizing w c with
  | nil =>
    obtain ⟨_, rfl⟩ := Action.pure_ok_iff.mp h
    exact ⟨c, hb, .nil before root c, fun _ => rfl⟩
  | cons a rest ih =>
    rw [copyLibraries, Action.bind_ok_iff] at h
    obtain ⟨_, w1, hcopy, h⟩ := h
    obtain ⟨files, hfiles, rfl⟩ := Action.copyFile_ok hcopy
    have hname := hnames a List.mem_cons_self
    obtain ⟨e, _, hcopy, hpath, hlen, hb1⟩ := hb.copy isEntryName_lib (.inl rfl)
      hname.isAbsolute hname.steps (.inr rfl) hfiles
    obtain ⟨c', hb', hlibs, hbin⟩ := ih (fun b hb => hnames b (List.mem_cons_of_mem _ hb)) hb1 h
    refine ⟨c', hb', hlibs.cons hcopy ⟨hname, hlen, hpath⟩, fun n => ?_⟩
    rw [hbin]
    exact Contents.install_of_dir_ne _ _ (Ne.symm libName_ne_binName)

/-- Whether a root leads to a directory in which there is no directory `lib`, nor a link. -/
structure WithoutLib (fs : FileSystem) (root : Path) (home : Location) : Prop where
  reaches : ∃ k, Reaches fs root k home
  not_isDirAt : ¬ fs.isDirAt (home ++ [libName])
  linkAt? : fs.linkAt? (home ++ [libName]) = none

namespace WithoutLib

variable {fs : FileSystem} {root : Path} {home l : Location}

theorem of_none (hr : ∃ k, Reaches fs root k home) (hnone : fs.entry? (home ++ [libName]) = none) :
    WithoutLib fs root home where
  reaches := hr
  not_isDirAt := by
    rw [isDirAt_iff, hnone]
    simp
  linkAt? := by rw [FileSystem.linkAt?, hnone]

theorem not_isDir (h : WithoutLib fs root home) : ¬ fs.isDir (libDirOf root) := by
  intro hdir
  obtain ⟨l?, hf⟩ := find_of_isDir hdir
  obtain ⟨l, rfl, _⟩ := location_of_find (by decide) (Path.namesOf_entry_ne_nil root _ isEntryName_lib)
    hf
  obtain ⟨_, ⟨k, hr⟩, he⟩ := find_follow_iff.mp hf
  obtain ⟨_, v, hr, _, hl⟩ := (reaches_entry_iff isEntryName_lib).mp hr
  obtain ⟨k', hr'⟩ := h.reaches
  obtain ⟨_, rfl⟩ := hr.unique hr'
  obtain ⟨_, rfl⟩ := hl.eq_of_name h.linkAt?
  exact h.not_isDirAt ((isDirAt_iff _ _).mpr he)

theorem put (h : WithoutLib fs root home) (hw : Writable fs l) (mode : Mode) (content : Bytes) :
    WithoutLib (fs.put l (.file mode content)) root home where
  reaches := by
    obtain ⟨k, hr⟩ := h.reaches
    exact ⟨k, hr.mono (hw.keeps_put mode content) (.inr (sameStart_put ..))⟩
  not_isDirAt := by
    rw [isDirAt_iff, hw.entry?_put]
    by_cases hl : home ++ [libName] = l
    · rw [if_pos hl]
      simp
    · rw [if_neg hl, ← isDirAt_iff]
      exact h.not_isDirAt
  linkAt? := by rw [hw.linkAt?_put, h.linkAt?]

theorem copy (h : WithoutLib fs root home) {fs' : FileSystem} {source dest : Path}
    (hcopy : fs.copyFile source dest = .ok fs') : WithoutLib fs' root home := by
  obtain ⟨_, mode, content, l, m, _, ht, rfl⟩ := copyFile_spec hcopy
  exact h.put (target_spec ht).1 _ _

end WithoutLib

theorem checkClasspath_ok_iff {manifest : Path} {artifacts : List Artifact} {w w' : Workspace}
    {u : Unit} :
    checkClasspath manifest artifacts w = .ok u w' ↔
      (∃ m, Manifest.atPath w.files manifest = .ok m ∧
        m.classpath = artifacts.map Artifact.classpathEntry) ∧
      w' = { w with log := w.log ++ [.readManifest manifest] } := by
  rw [checkClasspath, Action.bind_ok_iff]
  constructor
  · rintro ⟨m, w1, hload, h⟩
    obtain ⟨hm, rfl⟩ := Manifest.load_ok_iff.mp hload
    split at h
    · rename_i heq
      exact ⟨⟨m, hm, heq⟩, (Action.pure_ok_iff.mp h).2⟩
    · cases h
  · rintro ⟨⟨m, hm, heq⟩, rfl⟩
    refine ⟨m, _, Manifest.load_ok_iff.mpr ⟨hm, rfl⟩, ?_⟩
    rw [if_pos heq]
    exact Action.pure_ok_iff.mpr ⟨rfl, rfl⟩

theorem checkClasspath_error {manifest : Path} {artifacts : List Artifact} {w w' : Workspace}
    {failure : Failure} (h : checkClasspath manifest artifacts w = .error failure w') :
    w'.files = w.files ∧ (Manifest.atPath w.files manifest = .error failure ∨
      ∃ m, Manifest.atPath w.files manifest = .ok m ∧
        m.classpath ≠ artifacts.map Artifact.classpathEntry) := by
  rw [checkClasspath, Action.bind_error_iff] at h
  rcases h with hload | ⟨m, w1, hload, h⟩
  · obtain ⟨hm, rfl⟩ := Manifest.load_error hload
    exact ⟨rfl, .inl hm⟩
  · obtain ⟨hm, rfl⟩ := Manifest.load_ok_iff.mp hload
    split at h
    · exact absurd h Action.pure_ne_error
    · rename_i hne
      cases h
      exact ⟨rfl, .inr ⟨m, hm, hne⟩⟩

/-- What is done at the root once the inputs have been found to fit. -/
def install (root : Path) (inputs : AssemblyInputs) : Action Distribution := do
  Action.resetDir (libDirOf root)
  Action.resetDir (binDirOf root)
  let _ ← Artifact.warnOfShared inputs.artifacts
  copyLibraries (libDirOf root) inputs.artifacts
  Action.copyFile inputs.launcher (binDirOf root / inputs.programName)
  Action.copyFile inputs.manifest (binDirOf root / Manifest.fileName)
  Action.report (.assembled root inputs.programName (planned root inputs).libraries.length)
  return planned root inputs

/-- A distribution is assembled just if its inputs fit, which is seen before anything is changed. -/
theorem assemble_ok_iff {root : Path} {inputs : AssemblyInputs} {w w' : Workspace}
    {d : Distribution} :
    assemble root inputs w = .ok d w' ↔
      ProgramName.validate inputs.programName = .ok () ∧
      (∃ m, Manifest.atPath w.files inputs.manifest = .ok m ∧
        m.classpath = inputs.artifacts.map Artifact.classpathEntry) ∧
      install root inputs { w with log := w.log ++ [.readManifest inputs.manifest] } =
        .ok d w' := by
  rw [assemble, Action.bind_ok_iff]
  constructor
  · rintro ⟨_, w0, hvalidate, h⟩
    obtain ⟨hvalid, rfl⟩ := Action.ofExcept_ok_iff.mp hvalidate
    obtain ⟨_, w1, hcheck, h⟩ := Action.bind_ok_iff.mp h
    obtain ⟨hm, rfl⟩ := checkClasspath_ok_iff.mp hcheck
    exact ⟨hvalid, hm, h⟩
  · rintro ⟨hvalid, hm, h⟩
    refine ⟨(), w, Action.ofExcept_ok_iff.mpr ⟨hvalid, rfl⟩, ?_⟩
    rw [Action.bind_ok_iff]
    exact ⟨(), _, checkClasspath_ok_iff.mpr ⟨hm, rfl⟩, h⟩

theorem warnOfShared_ok {artifacts : List Artifact} {w w' : Workspace} {names : List String}
    (h : Artifact.warnOfShared artifacts w = .ok names w') : w'.files = w.files := by
  rw [Artifact.warnOfShared_eq] at h
  cases h
  rfl

/-- What is known once a distribution has been assembled in the directory `home`. -/
structure Assembled (before fs : FileSystem) (root : Path) (inputs : AssemblyInputs)
    (home : Location) (c : Contents) : Prop where
  building : Building before fs root home c
  libraries : Libraries before root inputs.artifacts (fun _ _ => none) c
  launcher : ∃ e, CopyOf before root inputs.launcher e ∧
    c binName (Utf8.encode inputs.programName) = some e
  manifest : ∃ e, CopyOf before root inputs.manifest e ∧
    c binName (Utf8.encode Manifest.fileName) = some e
  bin : ∀ n, c binName n ≠ none →
    n = Utf8.encode inputs.programName ∨ n = Utf8.encode Manifest.fileName
  program_ne : inputs.programName ≠ Manifest.fileName
  nameable_lib : Nameable (libDirOf root)
  nameable_bin : Nameable (binDirOf root)
  launcherPath : EntryPath (binDirOf root) inputs.programName
  manifestPath : EntryPath (binDirOf root) Manifest.fileName

theorem changeAt_resetDir_ok {p : Path} {w w' : Workspace} {u : Unit}
    (h : Action.resetDir p w = .ok u w') :
    FileSystem.resetDir p w.files = .ok () w'.files := by
  obtain ⟨files, hreset, rfl⟩ := Action.changeAt_ok_iff.mp h
  exact hreset

private theorem WithoutLib.eq_nil_of_copyLibraries {root : Path} {home : Location}
    {artifacts : List Artifact} {w w' : Workspace} {u : Unit} (hwithout : WithoutLib w.files root home)
    (hnames : ∀ a ∈ artifacts, IsEntryName (Utf8.encode a.fileName))
    (h : copyLibraries (libDirOf root) artifacts w = .ok u w') : artifacts = [] ∧ w' = w := by
  cases artifacts with
  | nil => exact ⟨rfl, (Action.pure_ok_iff.mp h).2⟩
  | cons a rest =>
    exfalso
    rw [copyLibraries, Action.bind_ok_iff] at h
    obtain ⟨_, w1, hcopy, _⟩ := h
    obtain ⟨files, hfiles, _⟩ := Action.copyFile_ok hcopy
    obtain ⟨_, _, _, l, m, _, ht, _⟩ := copyFile_spec hfiles
    obtain ⟨k, v, hlib, hdir⟩ := reaches_of_target (hnames a List.mem_cons_self) ht
    obtain ⟨_, v', hroot, _, hl⟩ := (reaches_entry_iff isEntryName_lib).mp hlib
    obtain ⟨_, hr⟩ := hwithout.reaches
    obtain ⟨_, rfl⟩ := hr.unique hroot
    obtain ⟨_, rfl⟩ := hl.eq_of_name hwithout.linkAt?
    exact hwithout.not_isDirAt hdir

theorem install_ok {root : Path} {inputs : AssemblyInputs} {w w' : Workspace}
    {d : Distribution} (h : install root inputs w = .ok d w') :
    d = planned root inputs ∧ ∃ made, ∃ cleared copied : Workspace, ∃ launched,
      FileSystem.resetDir (libDirOf root) w.files = .ok () made ∧
      FileSystem.resetDir (binDirOf root) made = .ok () cleared.files ∧
      copyLibraries (libDirOf root) inputs.artifacts cleared = .ok () copied ∧
      copied.files.copyFile inputs.launcher (binDirOf root / inputs.programName) = .ok launched ∧
      launched.copyFile inputs.manifest (binDirOf root / Manifest.fileName) = .ok w'.files := by
  rw [install, Action.bind_ok_iff] at h
  obtain ⟨_, w1, hlib, h⟩ := h
  obtain ⟨_, w2, hbin, h⟩ := Action.bind_ok_iff.mp h
  obtain ⟨_, w3, hwarn, h⟩ := Action.bind_ok_iff.mp h
  obtain ⟨_, w4, hlibraries, h⟩ := Action.bind_ok_iff.mp h
  obtain ⟨_, w5, hlauncher, h⟩ := Action.bind_ok_iff.mp h
  obtain ⟨launched, hlaunched, rfl⟩ := Action.copyFile_ok hlauncher
  obtain ⟨_, w6, hmanifest, h⟩ := Action.bind_ok_iff.mp h
  obtain ⟨files, hfiles, rfl⟩ := Action.copyFile_ok hmanifest
  obtain ⟨_, w7, hreport, h⟩ := Action.bind_ok_iff.mp h
  obtain ⟨rfl, rfl⟩ := Action.pure_ok_iff.mp h
  rw [Action.report_ok_iff.mp hreport]
  refine ⟨rfl, w1.files, w3, w4, launched, changeAt_resetDir_ok hlib, ?_, hlibraries, hlaunched,
    hfiles⟩
  rw [warnOfShared_ok hwarn]
  exact changeAt_resetDir_ok hbin

/-- What is known of an empty distribution once the files have been copied into it. -/
theorem assembled_of_building {root : Path} {inputs : AssemblyInputs} {before launched fs : FileSystem}
    {cleared copied : Workspace} {home : Location}
    (hvalid : ProgramName.validate inputs.programName = .ok ())
    (hnames : ∀ a ∈ inputs.artifacts, IsEntryName (Utf8.encode a.fileName))
    (hnlib : Nameable (libDirOf root)) (hnbin : Nameable (binDirOf root))
    (hempty : Building before cleared.files root home fun _ _ => none)
    (hlibraries : copyLibraries (libDirOf root) inputs.artifacts cleared = .ok () copied)
    (hlaunched : copied.files.copyFile inputs.launcher (binDirOf root / inputs.programName) =
      .ok launched)
    (hinstalled : launched.copyFile inputs.manifest (binDirOf root / Manifest.fileName) = .ok fs) :
    ∃ c, Assembled before fs root inputs home c := by
  obtain ⟨hprogram, habs, n, rest, hsteps⟩ := steps_of_validate hvalid
  obtain ⟨c1, hb1, hl1, hbin1⟩ := copyLibraries_spec inputs.artifacts hnames hempty hlibraries
  obtain ⟨e, rfl, hlauncher, hpath, hlen, hb2⟩ := hb1.copy isEntryName_bin (.inr rfl) habs hsteps
    (.inl (hbin1 n)) hlaunched
  obtain ⟨rfl, hentry⟩ := Path.isEntryName_of_steps _ n habs hsteps
  obtain ⟨e', _, hmanifest, hpath', hlen', hb3⟩ := hb2.copy isEntryName_bin (.inr rfl)
    isEntryName_manifest.isAbsolute isEntryName_manifest.steps (.inr rfl) hinstalled
  have hne : Utf8.encode inputs.programName ≠ Utf8.encode Manifest.fileName :=
    fun heq => hprogram (Utf8.encode_injective heq)
  refine ⟨(c1.install binName (Utf8.encode inputs.programName) e).install binName
    (Utf8.encode Manifest.fileName) e', hb3, ?_, ⟨e, hlauncher, ?_⟩, ⟨e', hmanifest, ?_⟩, ?_, hprogram,
    hnlib, hnbin, ⟨hentry, hlen, hpath⟩, ⟨isEntryName_manifest, hlen', hpath'⟩⟩
  · apply hl1.congr
    intro n
    rw [Contents.install_of_dir_ne _ _ libName_ne_binName,
      Contents.install_of_dir_ne _ _ libName_ne_binName]
  · rw [Contents.install_of_name_ne _ _ hne, Contents.install_self]
  · exact Contents.install_self _ _
  · intro n hn
    by_contra hno
    apply hn
    rw [Contents.install_of_name_ne _ _ fun heq => hno (.inr heq),
      Contents.install_of_name_ne _ _ fun heq => hno (.inl heq), hbin1]

/-- Wherever the root leads, an assembled distribution holds the files that the inputs name; only if it
leads through its own `bin` and there are no libraries, there is no `lib`. -/
theorem assemble_outcome {root : Path} {inputs : AssemblyInputs} {w w' : Workspace} {d : Distribution}
    (hup : Step.up ∉ root.moves)
    (hnames : ∀ a ∈ inputs.artifacts, IsEntryName (Utf8.encode a.fileName))
    (h : assemble root inputs w = .ok d w') :
    d = planned root inputs ∧ ∃ home, (∃ c, Assembled w.files w'.files root inputs home c) ∨
      inputs.artifacts = [] ∧ (∃ u ∈ w.files.trail root, w.files.place root binName <+: u) ∧
        WithoutLib w'.files root home := by
  obtain ⟨hvalid, _, h⟩ := assemble_ok_iff.mp h
  obtain ⟨rfl, made, cleared, copied, launched, hlib, hbin, hlibraries, hlaunched, hinstalled⟩ :=
    install_ok h
  obtain ⟨hnlib, first, hrlib⟩ := resetDir_spec isEntryName_lib hup hlib
  obtain ⟨hnbin, home, hrbin⟩ := resetDir_spec isEntryName_bin hup hbin
  refine ⟨rfl, home, ?_⟩
  rcases building_of_resets hrlib hrbin with hempty | ⟨hthrough, hnone⟩
  · exact .inl (assembled_of_building hvalid hnames hnlib hnbin hempty hlibraries hlaunched hinstalled)
  · have hwithout := WithoutLib.of_none hrbin.reaches hnone
    obtain ⟨hnil, rfl⟩ := hwithout.eq_nil_of_copyLibraries hnames hlibraries
    exact .inr ⟨hnil, hthrough, (hwithout.copy hlaunched).copy hinstalled⟩

theorem assemble_spec {root : Path} {inputs : AssemblyInputs} {w w' : Workspace} {d : Distribution}
    (hup : Step.up ∉ root.moves)
    (hnames : ∀ a ∈ inputs.artifacts, IsEntryName (Utf8.encode a.fileName))
    (hroot : inputs.artifacts ≠ [] ∨
      ∀ u ∈ w.files.trail root, ¬ w.files.place root binName <+: u)
    (h : assemble root inputs w = .ok d w') :
    d = planned root inputs ∧
      (∃ m, Manifest.atPath w.files inputs.manifest = .ok m ∧
        m.classpath = inputs.artifacts.map Artifact.classpathEntry) ∧
      ∃ home c, Assembled w.files w'.files root inputs home c := by
  obtain ⟨rfl, home, ⟨c, hassembled⟩ | ⟨hnil, ⟨u, hu, hp⟩, _⟩⟩ := assemble_outcome hup hnames h
  · exact ⟨rfl, (assemble_ok_iff.mp h).2.1, home, c, hassembled⟩
  · exact absurd hp (hroot.resolve_left (not_not.mpr hnil) u hu)

end Distribution

end LaunchDist
