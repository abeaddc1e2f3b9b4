import LaunchDist.Proofs.Distribution.Abort
import LaunchDist.Proofs.FileSystem.Sources
/-!
# Assembling as edits

Where no link stands, an assembly is a list of edits: both directories are made anew, and then what stood
at the sources before is put into them. It succeeds if there is room for these edits and every source
lasts until it is copied.
-/
namespace LaunchDist

namespace Distribution

open FileSystem
open LaunchDist.Path (Step IsEntryName)

/-- The edits by which both directories of a distribution are made anew. -/
def clearingEdits (root : Path) (fs : FileSystem) : List Edit :=
  [.renew (fs.down (libDirOf root)), .renew (fs.down (binDirOf root))]

/-- The edits by which artifacts are put into `lib`. -/
def libraryEdits (root : Path) (artifacts : List Artifact) (fs : FileSystem) : List Edit :=
  artifacts.map fun a =>
    .put (fs.down (libDirOf root / a.fileName)) (fs.entry? (fs.destination a.path))

/-- All that an assembly does to the files. -/
def assemblyEdits (root : Path) (inputs : AssemblyInputs) (fs : FileSystem) : List Edit :=
  clearingEdits root fs ++ libraryEdits root inputs.artifacts fs ++
    [.put (fs.down (binDirOf root / inputs.programName)) (fs.entry? (fs.destination inputs.launcher))] ++
    [.put (fs.down (binDirOf root / Manifest.fileName)) (fs.entry? (fs.destination inputs.manifest))]

/-- Whether all that a distribution is to hold can be looked up. -/
structure Places (fs : FileSystem) (root : Path) (inputs : AssemblyInputs) : Prop where
  lib : Straight fs (libDirOf root)
  bin : Straight fs (binDirOf root)
  library : ∀ a ∈ inputs.artifacts, Straight fs (libDirOf root / a.fileName)
  launcher : Straight fs (binDirOf root / inputs.programName)
  manifest : Straight fs (binDirOf root / Manifest.fileName)

/-- A path to a file to be copied that does not go up from where relative paths start. -/
structure PlainSource (fs : FileSystem) (root p : Path) : Prop where
  source : Source fs root p
  plain : p.isAbsolute = true ∨ Step.up ∉ p.moves

/-- A path to a file outside a distribution, which it finds whatever is edited inside. -/
structure Lasting (fs : FileSystem) (root p : Path) : Prop extends PlainSource fs root p where
  outside : ¬ Inside fs root (fs.destination p)
  found : ∀ edits fs', EditedBy edits fs fs' → (∀ edit ∈ edits, Inside fs root edit.site) →
    ∃ mode content, fs'.find .follow p = .ok (some (fs.destination p), .file mode content)

/-- A path whose way keeps outside a distribution, wherever a process is. -/
structure OutsidePath (fs : FileSystem) (root p : Path) : Prop where
  isAbsolute : p.isAbsolute = true
  trail : ∀ u ∈ fs.trail p, ¬ Inside fs root u

theorem Places.not_lost {fs : FileSystem} {root : Path} {inputs : AssemblyInputs}
    (h : Places fs root inputs) : root.isAbsolute = true ∨ fs.lostLevels = 0 := by
  have hlost := h.lib.not_lost
  rwa [isAbsolute_libDirOf] at hlost

section Sources

variable {fs : FileSystem} {root p : Path} {u v : Location} {s : String}

theorem Inside.mono (h : Inside fs root u) (huv : u <+: v) : Inside fs root v :=
  h.imp (·.trans huv) (·.trans huv)

theorem inside_iff_down (hlinks : Linkless fs) (hup : Step.up ∉ root.moves)
    (hlost : root.isAbsolute = true ∨ fs.lostLevels = 0) :
    Inside fs root u ↔ fs.down (libDirOf root) <+: u ∨ fs.down (binDirOf root) <+: u := by
  rw [Inside, libName, binName, hlinks.place_eq_down hup hlost isEntryName_lib,
    hlinks.place_eq_down hup hlost isEntryName_bin]
  rfl

theorem source_of_outside (hlinks : Linkless fs) (hplain : p.isAbsolute = true ∨ Step.up ∉ p.moves)
    (hout : ¬ Inside fs root (fs.destination p)) : Source fs root p where
  links u _ _ := hlinks u
  start := hplain.imp_right .inr
  place hin := absurd hin hout

theorem OutsidePath.plainSource (h : OutsidePath fs root p) (hlinks : Linkless fs) :
    PlainSource fs root p where
  source := source_of_outside hlinks (.inl h.isAbsolute) (h.trail _ (destination_mem_trail fs p))
  plain := .inl h.isAbsolute

theorem OutsidePath.isFile (h : OutsidePath fs root p) (hlinks : Linkless fs) {made fs' : FileSystem}
    {edits more : List Edit} (hmade : EditedBy edits fs made) (hfile : made.isFile p = true)
    (hmore : EditedBy more made fs') (hin : ∀ edit ∈ more, Inside fs root edit.site) :
    fs'.isFile p = true := by
  obtain ⟨l, mode, content, hf⟩ := isFile_iff.mp hfile
  refine isFile_iff.mpr ⟨l, mode, content, hmore.find h.isAbsolute (fun u hu edit hedit hr => ?_) hf⟩
  rw [hmade.trail_eq hlinks (.inl h.isAbsolute)] at hu
  exact h.trail u hu ((hin edit hedit).mono hr.site_above)

theorem OutsidePath.lasting (h : OutsidePath fs root p) (hlinks : Linkless fs)
    (hfile : fs.isFile p = true) : Lasting fs root p where
  toPlainSource := h.plainSource hlinks
  outside := h.trail _ (destination_mem_trail fs p)
  found edits fs' hedited hin := by
    obtain ⟨l, mode, content, hf⟩ := isFile_iff.mp (h.isFile hlinks (.nil fs) hfile hedited hin)
    obtain ⟨_, rfl, _⟩ := hedited.eq_destination hlinks (.inl h.isAbsolute) hf
    exact ⟨mode, content, hf⟩

theorem lasting_of_entry (hlinks : Linkless fs) (hs : IsEntryName (Utf8.encode s))
    (hp : Straight fs (p / s)) (hfile : IsFile (fs.entry? (fs.down (p / s))))
    (hout : ¬ Inside fs root (fs.down (p / s)))
    (hstart : (p / s).isAbsolute = true ∨ ¬ Inside fs root fs.workingDir) :
    Lasting fs root (p / s) := by
  have hdest : fs.destination (p / s) = fs.down (p / s) :=
    hlinks.destination_eq_down hp.up_notMem hp.not_lost
  rw [← hdest] at hout
  refine ⟨⟨source_of_outside hlinks (.inr hp.up_notMem) hout, .inr hp.up_notMem⟩, hout, ?_⟩
  intro edits fs' h hin
  have hup : Step.up ∉ p.moves := ((straight_entry_iff hs).mp hp).2.2.1
  have hstart' : (p / s).isAbsolute = true ∨ SameStart fs fs' := by
    refine hstart.imp_right fun hcwd => h.sameStart fun edit hedit hremoved => ?_
    exact hcwd ((hin edit hedit).mono hremoved.replaces.site_above)
  obtain ⟨mode, content, he⟩ := hfile
  refine ⟨mode, content, ?_⟩
  rw [h.find_file_iff hlinks hs hup hstart', hdest]
  · exact (hlinks.find_entry_iff (by decide) hs hup).mpr ⟨hp, rfl, he⟩
  · intro edit hedit hr
    exact hout (by rw [hdest]; exact (hin edit hedit).mono hr.site_above)

end Sources

section Congr

variable {fs fs' : FileSystem} {root : Path} {edits : List Edit} {artifacts : List Artifact}
  {u : Location} {s : String}

theorem inside_congr (h : EditedBy edits fs fs') (hlinks : Linkless fs)
    (hstart : root.isAbsolute = true ∨ SameStart fs fs') : Inside fs' root u ↔ Inside fs root u := by
  rw [Inside, Inside, place, place, destination_congr (h.trail_eq hlinks hstart)]
  rfl

theorem down_part_congr (part : String) (hpart : IsEntryName (Utf8.encode part))
    (hs : IsEntryName (Utf8.encode s)) (hstart : root.isAbsolute = true ∨ SameStart fs fs') :
    fs'.down (root / part / s) = fs.down (root / part / s) := by
  apply down_congr
  rwa [Path.isAbsolute_entry _ s hs, Path.isAbsolute_entry root part hpart]

theorem clearingEdits_congr (hstart : root.isAbsolute = true ∨ SameStart fs fs') :
    clearingEdits root fs' = clearingEdits root fs := by
  have hlib : fs'.down (libDirOf root) = fs.down (libDirOf root) :=
    down_congr (hstart.imp_left (isAbsolute_libDirOf root).trans)
  have hbin : fs'.down (binDirOf root) = fs.down (binDirOf root) :=
    down_congr (hstart.imp_left (isAbsolute_binDirOf root).trans)
  rw [clearingEdits, clearingEdits, hlib, hbin]

theorem libraryEdits_congr (h : EditedBy edits fs fs') (hlinks : Linkless fs)
    (hstart : root.isAbsolute = true ∨ SameStart fs fs')
    (hnames : ∀ a ∈ artifacts, IsEntryName (Utf8.encode a.fileName))
    (habs : ∀ a ∈ artifacts, a.path.isAbsolute = true)
    (hkept : ∀ a ∈ artifacts, ∀ edit ∈ edits, ¬ edit.Replaces (fs.destination a.path))
    (hfiles : ∀ a ∈ artifacts, IsFile (fs'.entry? (fs'.destination a.path))) :
    libraryEdits root artifacts fs' = libraryEdits root artifacts fs := by
  apply List.map_congr_left
  intro a ha
  have hdown : fs'.down (libDirOf root / a.fileName) = fs.down (libDirOf root / a.fileName) :=
    down_part_congr "lib" isEntryName_lib (hnames a ha) hstart
  obtain ⟨mode, content, he⟩ := hfiles a ha
  rw [hdown, he]
  rw [destination_congr (h.trail_eq hlinks (.inl (habs a ha)))] at he
  rw [(h.entry?_file_iff (hkept a ha)).mp he]

theorem Places.mono {inputs : AssemblyInputs} (hplaces : Places fs root inputs)
    (h : EditedBy edits fs fs') (hstart : root.isAbsolute = true ∨ SameStart fs fs')
    (hname : IsEntryName (Utf8.encode inputs.programName))
    (hnames : ∀ a ∈ inputs.artifacts, IsEntryName (Utf8.encode a.fileName)) :
    Places fs' root inputs := by
  have hlib : (libDirOf root).isAbsolute = true ∨ SameStart fs fs' :=
    hstart.imp_left (isAbsolute_libDirOf root).trans
  have hbin : (binDirOf root).isAbsolute = true ∨ SameStart fs fs' :=
    hstart.imp_left (isAbsolute_binDirOf root).trans
  exact ⟨h.straight hplaces.lib hlib, h.straight hplaces.bin hbin,
    fun a ha => h.straight (hplaces.library a ha)
      (hlib.imp_left (Path.isAbsolute_entry _ _ (hnames a ha)).trans),
    h.straight hplaces.launcher (hbin.imp_left (Path.isAbsolute_entry _ _ hname).trans),
    h.straight hplaces.manifest (hbin.imp_left (Path.isAbsolute_entry _ _ isEntryName_manifest).trans)⟩

end Congr

/-- The state while a distribution is filled by edits, where no link stands. -/
structure Filling (before fs : FileSystem) (root : Path) (edits : List Edit) (c : Contents) : Prop where
  links : Linkless before
  straight : Straight before (libDirOf root)
  edited : EditedBy edits before fs
  building : Building before fs root (before.down root) c
  inside : ∀ edit ∈ edits, Inside before root edit.site

namespace Filling

variable {before fs fs' : FileSystem} {root src p : Path} {edits : List Edit} {c : Contents}
  {part name : String} {d : Name}

theorem up_notMem (h : Filling before fs root edits c) : Step.up ∉ root.moves :=
  ((straight_entry_iff isEntryName_lib).mp h.straight).2.2.1

theorem sameStart (h : Filling before fs root edits c) :
    root.isAbsolute = true ∨ SameStart before fs := by
  obtain ⟨k, hr⟩ := h.building.reaches
  exact (hr.not_lost h.up_notMem).imp_right h.edited.sameStart_of_not_lost

theorem straight_iff (h : Filling before fs root edits c) (hp : p.isAbsolute = root.isAbsolute) :
    Straight fs p ↔ Straight before p := by
  have hstart := h.sameStart
  rw [← hp] at hstart
  have habs : (libDirOf root).isAbsolute = p.isAbsolute := (isAbsolute_libDirOf root).trans hp.symm
  constructor
  · intro hfs
    exact hfs.before h.straight habs hstart
  · intro hbefore
    exact h.edited.straight hbefore hstart

theorem inside_entry (h : Filling before fs root edits c) (hpart : IsEntryName (Utf8.encode part))
    (hd : IsPart (Utf8.encode part)) (hs : IsEntryName (Utf8.encode name)) :
    Inside before root (before.down (root / part / name)) := by
  rw [down_entry hs, down_entry hpart]
  exact (h.building.inside _ (h.building.part _ hd)).mono (List.prefix_append _ _)

theorem writable (h : Filling before fs root edits c) (hd : IsPart d) (n : Name) :
    Writable fs (before.down root ++ [d] ++ [n]) where
  ne_nil := by simp
  isDirAt := by
    rw [List.dropLast_concat]
    exact h.building.isDirAt hd
  entry? := by
    rw [h.building.contents d hd]
    cases hc : c d n with
    | none => exact .inl rfl
    | some e =>
      obtain ⟨mode, content, rfl⟩ := h.building.isFile d n e hc
      exact .inr ⟨mode, content, rfl⟩

theorem copy (h : Filling before fs root edits c) (hpart : IsEntryName (Utf8.encode part))
    (hd : IsPart (Utf8.encode part)) (hs : IsEntryName (Utf8.encode name))
    (hsrc : PlainSource before root src)
    (hcopy : fs.copyFile src (root / part / name) = .ok fs') :
    Straight before (root / part / name) ∧ ¬ Inside before root (before.destination src) ∧
      (src.isAbsolute = true ∨ SameStart before fs') ∧
      EditedBy [.put (before.down (root / part / name)) (before.entry? (before.destination src))]
        fs fs' ∧
      ∃ e, Filling before fs' root
        (edits ++ [.put (before.down (root / part / name)) (before.entry? (before.destination src))])
        (c.install (Utf8.encode part) (Utf8.encode name) e) := by
  obtain ⟨e, _, _, _, _, hbuilding⟩ :=
    h.building.copy hpart hd hs.isAbsolute hs.steps (.inr rfl) hcopy
  obtain ⟨l, mode, content, _, _, hf, _, hfs'⟩ := copyFile_spec hcopy
  obtain ⟨hstart, rfl, _⟩ := h.edited.eq_destination h.links hsrc.plain hf
  have hroot : before.destination root = before.down root :=
    h.links.destination_eq_down h.up_notMem (h.building.not_lost h.up_notMem)
  have hout : ¬ Inside before root (before.destination src) := by
    have hrebuilt := (h.building.held_of_source hsrc.source hf).1
    rwa [Rebuilt, ← hroot] at hrebuilt
  have hinside := h.inside_entry hpart hd hs
  have hup : Step.up ∉ (root / part).moves := by
    rw [Path.moves_entry root part hpart]
    simpa using h.up_notMem
  obtain ⟨hp, _, hedited⟩ := h.edited.copyFile h.links hs hup hsrc.plain
    (fun edit hedit hr => hout ((h.inside edit hedit).mono hr.site_above))
    (fun heq => hout (by rwa [heq])) hcopy
  have habs : (root / part / name).isAbsolute = root.isAbsolute := by
    rw [Path.isAbsolute_entry _ name hs, Path.isAbsolute_entry root part hpart]
  refine ⟨(h.straight_iff habs).mp hp, hout, ?_, hedited, e, h.links, h.straight,
    h.edited.append hedited, hbuilding, ?_⟩
  · rw [hfs']
    exact hstart.imp_right (·.trans (sameStart_put ..))
  · intro edit hedit
    rcases List.mem_append.mp hedit with hedit | hedit
    · exact h.inside edit hedit
    · obtain rfl := List.mem_singleton.mp hedit
      exact hinside

theorem copy_succeeds (h : Filling before fs root edits c) (hpart : IsEntryName (Utf8.encode part))
    (hd : IsPart (Utf8.encode part)) (hs : IsEntryName (Utf8.encode name))
    (hp : Straight before (root / part / name)) (hsrc : Lasting before root src) :
    ∃ fs', fs.copyFile src (root / part / name) = .ok fs' := by
  have habs : (root / part / name).isAbsolute = root.isAbsolute := by
    rw [Path.isAbsolute_entry _ name hs, Path.isAbsolute_entry root part hpart]
  have hdown : fs.down (root / part / name) = before.down (root / part / name) :=
    down_congr (by rw [habs]; exact h.sameStart)
  have hw : Writable fs (fs.down (root / part / name)) := by
    rw [hdown, down_entry hs, down_entry hpart]
    exact h.writable hd _
  have hup : Step.up ∉ (root / part).moves := ((straight_entry_iff hs).mp hp).2.2.1
  obtain ⟨mode, content, hf⟩ := hsrc.found edits fs h.edited h.inside
  obtain ⟨fs', hcopy, _⟩ := (h.edited.linkless h.links).copyFile_succeeds hs hup hf
    ((h.straight_iff habs).mpr hp) hw fun heq => hsrc.outside (by
      rw [heq, hdown]
      exact h.inside_entry hpart hd hs)
  exact ⟨fs', hcopy⟩

end Filling

private theorem building_of_renewed {before made fs : FileSystem} {root : Path}
    (hlinks : Linkless before) (hup : Step.up ∉ root.moves)
    (hlib : FileSystem.resetDir (libDirOf root) before = .ok () made)
    (hbin : FileSystem.resetDir (binDirOf root) made = .ok () fs)
    (helib : EditedBy [.renew (before.down (libDirOf root))] before made)
    (hebin : EditedBy [.renew (made.down (binDirOf root))] made fs)
    (hstart : root.isAbsolute = true ∨ SameStart before made) :
    Building before fs root (before.down root) fun _ _ => none := by
  obtain ⟨_, first, hrlib⟩ := resetDir_spec isEntryName_lib hup hlib
  obtain ⟨_, home, hrbin⟩ := resetDir_spec isEntryName_bin hup hbin
  obtain ⟨k, hr⟩ := hrbin.reaches
  have hlinks' : Linkless fs := hebin.linkless (helib.linkless hlinks)
  have hlost' := hr.not_lost hup
  have hhome : home = before.down root := by
    rw [← hr.destination_eq, hlinks'.destination_eq_down hup hlost',
      down_congr (hlost'.imp_right hebin.sameStart_of_not_lost)]
    exact down_congr hstart
  subst hhome
  refine (building_of_resets hrlib hrbin).resolve_right fun hgone => ?_
  -- Making `bin` anew leaves `lib` alone.
  have hdownlib : before.down (libDirOf root) = before.down root ++ [libName] :=
    down_entry isEntryName_lib
  have hdownbin : made.down (binDirOf root) = before.down root ++ [binName] := by
    rw [← down_congr hstart]
    exact down_entry isEntryName_bin
  have hmade : made.entry? (before.down root ++ [libName]) = some .dir := by
    rw [← hdownlib]
    exact helib.renewed.1
  have hkept : fs.entry? (before.down root ++ [libName]) =
      made.entry? (before.down root ++ [libName]) := by
    refine hebin.entry?_of_unsettled fun edit hedit => ?_
    obtain rfl := List.mem_singleton.mp hedit
    rw [hdownbin, Edit.settled?_renew_iff, List.prefix_append_right_inj,
      List.prefix_append_right_inj]
    decide
  rw [hkept, hmade] at hgone
  cases hgone.2

theorem filling_of_resets {before made fs : FileSystem} {root : Path} (hlinks : Linkless before)
    (hup : Step.up ∉ root.moves) (hlib : FileSystem.resetDir (libDirOf root) before = .ok () made)
    (hbin : FileSystem.resetDir (binDirOf root) made = .ok () fs) :
    Straight before (binDirOf root) ∧
      Filling before fs root (clearingEdits root before) fun _ _ => none := by
  obtain ⟨hplib, helib⟩ := hlinks.resetDir_ok isEntryName_lib hup hlib
  obtain ⟨hpbin, hebin⟩ := (helib.linkless hlinks).resetDir_ok isEntryName_bin hup hbin
  have habslib : (root / "lib").isAbsolute = root.isAbsolute := isAbsolute_libDirOf root
  have habsbin : (root / "bin").isAbsolute = root.isAbsolute := isAbsolute_binDirOf root
  have hlost := hplib.not_lost
  have hstart := hpbin.not_lost.imp_right helib.sameStart_of_not_lost
  rw [habslib] at hlost
  rw [habsbin] at hstart
  have hbinstart : (root / "bin").isAbsolute = true ∨ SameStart before made :=
    hstart.imp_left habsbin.trans
  have hbuilding := building_of_renewed hlinks hup hlib hbin helib hebin hstart
  rw [down_congr hbinstart] at hebin
  refine ⟨hpbin.before hplib (habslib.trans habsbin.symm) hbinstart, hlinks, hplib,
    helib.append hebin, hbuilding, fun edit hedit => ?_⟩
  rw [inside_iff_down hlinks hup hlost]
  rcases List.mem_cons.mp hedit with rfl | hedit
  · exact .inl (List.prefix_refl _)
  · obtain rfl := List.mem_singleton.mp hedit
    exact .inr (List.prefix_refl _)

section Libraries

variable {before : FileSystem} {root : Path} {edits : List Edit} {c : Contents} {w w' : Workspace}
  {u : Unit}

theorem copyLibraries_filling (artifacts : List Artifact)
    (hnames : ∀ a ∈ artifacts, IsEntryName (Utf8.encode a.fileName))
    (hsources : ∀ a ∈ artifacts, OutsidePath before root a.path)
    (h : Filling before w.files root edits c)
    (hrun : copyLibraries (libDirOf root) artifacts w = .ok u w') :
    (∀ a ∈ artifacts, Straight before (libDirOf root / a.fileName)) ∧
      (∀ a ∈ artifacts, w'.files.isFile a.path = true) ∧
      EditedBy (libraryEdits root artifacts before) w.files w'.files ∧
      ∃ c', Filling before w'.files root (edits ++ libraryEdits root artifacts before) c' ∧
        ∀ n, c' binName n = c binName n := by
  induction artifacts generalizing w edits c with
  | nil =>
    obtain ⟨_, rfl⟩ := Action.pure_ok_iff.mp hrun
    refine ⟨by simp, by simp, .nil _, c, ?_, fun _ => rfl⟩
    rwa [libraryEdits, List.map_nil, List.append_nil]
  | cons a rest ih =>
    rw [copyLibraries, Action.bind_ok_iff] at hrun
    obtain ⟨_, w1, hcopy, hrun⟩ := hrun
    obtain ⟨files, hfiles, rfl⟩ := Action.copyFile_ok hcopy
    have hsource := hsources a List.mem_cons_self
    obtain ⟨hp, _, _, hput, e, hcopied⟩ := h.copy isEntryName_lib (.inl rfl)
      (hnames a List.mem_cons_self) (hsource.plainSource h.links) hfiles
    obtain ⟨hplaces, hkept, hputs, c', hfilling, hbin⟩ :=
      ih (fun b hb => hnames b (List.mem_cons_of_mem _ hb))
        (fun b hb => hsources b (List.mem_cons_of_mem _ hb)) hcopied hrun
    rw [List.append_assoc] at hfilling
    refine ⟨fun b hb => ?_, fun b hb => ?_, hput.append hputs, c', hfilling, fun n => ?_⟩
    · rcases List.mem_cons.mp hb with rfl | hb
      · exact hp
      · exact hplaces b hb
    · rcases List.mem_cons.mp hb with rfl | hb
      · obtain ⟨l, mode, content, _, _, hf, _⟩ := copyFile_spec hfiles
        exact hsource.isFile h.links h.edited (isFile_iff.mpr ⟨l, mode, content, hf⟩)
          (hput.append hputs) fun edit hedit => hfilling.inside edit (List.mem_append_right _ hedit)
      · exact hkept b hb
    · rw [hbin]
      exact Contents.install_of_dir_ne _ _ (Ne.symm libName_ne_binName)

theorem copyLibraries_succeeds (artifacts : List Artifact)
    (hnames : ∀ a ∈ artifacts, IsEntryName (Utf8.encode a.fileName))
    (hplaces : ∀ a ∈ artifacts, Straight before (libDirOf root / a.fileName))
    (hsources : ∀ a ∈ artifacts, OutsidePath before root a.path)
    (hfiles : ∀ a ∈ artifacts, before.isFile a.path = true)
    (h : Filling before w.files root edits c) :
    ∃ w', copyLibraries (libDirOf root) artifacts w = .ok () w' := by
  induction artifacts generalizing w edits c with
  | nil => exact ⟨w, rfl⟩
  | cons a rest ih =>
    have hname := hnames a List.mem_cons_self
    have hsource := hsources a List.mem_cons_self
    obtain ⟨files, hcopy⟩ : ∃ files, w.files.copyFile a.path (libDirOf root / a.fileName) =
        .ok files := h.copy_succeeds isEntryName_lib (.inl rfl) hname
      (hplaces a List.mem_cons_self) (hsource.lasting h.links (hfiles a List.mem_cons_self))
    obtain ⟨_, _, _, _, e, hcopied⟩ :=
      h.copy isEntryName_lib (.inl rfl) hname (hsource.plainSource h.links) hcopy
    rw [copyLibraries, Action.bind_of_ok (Action.copyFile_of_ok hcopy)]
    exact ih (fun b hb => hnames b (List.mem_cons_of_mem _ hb))
      (fun b hb => hplaces b (List.mem_cons_of_mem _ hb))
      (fun b hb => hsources b (List.mem_cons_of_mem _ hb))
      (fun b hb => hfiles b (List.mem_cons_of_mem _ hb)) hcopied

end Libraries

section Run

variable {root : Path} {inputs : AssemblyInputs} {w w' : Workspace} {d : Distribution}

/-- Artifacts that are put into a distribution under their names, from outside. -/
structure OutsideLibraries (fs : FileSystem) (root : Path) (artifacts : List Artifact) : Prop where
  isEntryName : ∀ a ∈ artifacts, IsEntryName (Utf8.encode a.fileName)
  outside : ∀ a ∈ artifacts, OutsidePath fs root a.path

/-- What is known of an assembly that has been done by edits: where relative paths start if it needs
them, and that its sources were outside. -/
structure AssembledBy (root : Path) (inputs : AssemblyInputs) (fs fs' : FileSystem) : Prop where
  isEntryName : IsEntryName (Utf8.encode inputs.programName)
  places : Places fs root inputs
  edited : EditedBy (assemblyEdits root inputs fs) fs fs'
  inside : ∀ edit ∈ assemblyEdits root inputs fs, Inside fs root edit.site
  isFile : ∀ a ∈ inputs.artifacts, fs'.isFile a.path = true
  start : root.isAbsolute = true ∨ SameStart fs fs'
  start_manifest : inputs.manifest.isAbsolute = true ∨ SameStart fs fs'
  outside_launcher : ¬ Inside fs root (fs.destination inputs.launcher)
  outside_manifest : ¬ Inside fs root (fs.destination inputs.manifest)

theorem assemble_edited (hlinks : Linkless w.files) (hup : Step.up ∉ root.moves)
    (hartifacts : OutsideLibraries w.files root inputs.artifacts)
    (hlauncher : PlainSource w.files root inputs.launcher)
    (hmanifest : PlainSource w.files root inputs.manifest)
    (h : assemble root inputs w = .ok d w') :
    d = planned root inputs ∧ AssembledBy root inputs w.files w'.files := by
  obtain ⟨hvalid, _, h⟩ := assemble_ok_iff.mp h
  obtain ⟨_, habs, n, rest, hsteps⟩ := steps_of_validate hvalid
  obtain ⟨rfl, made, cleared, copied, launched, hlib, hbin, hlibraries, hlaunched, hinstalled⟩ :=
    install_ok h
  obtain ⟨hpbin, hcleared⟩ := filling_of_resets hlinks hup hlib hbin
  obtain ⟨hplibs, hfiles, _, c, hcopied, hempty⟩ := copyLibraries_filling inputs.artifacts
    hartifacts.isEntryName hartifacts.outside hcleared hlibraries
  have hname : IsEntryName (Utf8.encode inputs.programName) := by
    obtain ⟨_, rfl, _⟩ := hcopied.building.copy isEntryName_bin (.inr rfl) habs hsteps
      (.inl (hempty n)) hlaunched
    obtain ⟨rfl, hentry⟩ := Path.isEntryName_of_steps _ n habs hsteps
    exact hentry
  obtain ⟨hplauncher, houtlauncher, _, hput, e, hfilled⟩ :=
    hcopied.copy isEntryName_bin (.inr rfl) hname hlauncher hlaunched
  obtain ⟨hpmanifest, houtmanifest, hstart, hput', e', hdone⟩ :=
    hfilled.copy isEntryName_bin (.inr rfl) isEntryName_manifest hmanifest hinstalled
  refine ⟨rfl, hname, ⟨hcleared.straight, hpbin, hplibs, hplauncher, hpmanifest⟩, hdone.edited,
    hdone.inside, fun a ha => ?_, hdone.sameStart, hstart, houtlauncher, houtmanifest⟩
  refine (hartifacts.outside a ha).isFile hlinks hcopied.edited (hfiles a ha) (hput.append hput') ?_
  intro edit hedit
  apply hdone.inside edit
  rw [List.append_assoc]
  exact List.mem_append_right _ hedit

theorem not_lost_of_assemble (hlinks : Linkless w.files) (hup : Step.up ∉ root.moves)
    (h : assemble root inputs w = .ok d w') : root.isAbsolute = true ∨ w.files.lostLevels = 0 := by
  obtain ⟨_, made, _, _, _, hlib, _⟩ := install_ok (assemble_ok_iff.mp h).2.2
  have hlost := (hlinks.resetDir_ok isEntryName_lib hup hlib).1.not_lost
  rwa [Path.isAbsolute_entry root "lib" isEntryName_lib] at hlost

/-- Both directories can be made anew if there is room for them. -/
theorem resets_succeed {fs : FileSystem} (hlinks : Linkless fs) (hlib : Straight fs (libDirOf root))
    (hbin : Straight fs (binDirOf root)) (hfits : (Edit.dirs (fs.down root)).Fits fs.entry?) :
    ∃ made cleared, FileSystem.resetDir (libDirOf root) fs = .ok () made ∧
      FileSystem.resetDir (binDirOf root) made = .ok () cleared := by
  have hdownlib : fs.down (libDirOf root) = fs.down root ++ [libName] := down_entry isEntryName_lib
  have hdownbin : fs.down (binDirOf root) = fs.down root ++ [binName] := down_entry isEntryName_bin
  have habove : ∀ {u : Location} {n : Name}, u <+: fs.down root ++ [n] → u ≠ fs.down root ++ [n] →
      u <+: fs.down root := by
    intro u n hu hne
    exact (List.prefix_concat_iff.mp hu).resolve_left hne
  have hfitslib : (Edit.renew (fs.down (libDirOf root))).Fits fs.entry? := by
    intro u hu hne
    rw [hdownlib] at hu hne
    exact hfits u (habove hu hne)
  obtain ⟨made, hmade, hedited⟩ := hlinks.resetDir_succeeds isEntryName_lib hlib hfitslib
  have hstart : (binDirOf root).isAbsolute = true ∨ SameStart fs made := by
    have hstart := hedited.start_of_renew isEntryName_lib
    rw [Path.isAbsolute_entry root "lib" isEntryName_lib] at hstart
    exact hstart.imp_left (isAbsolute_binDirOf root).trans
  have hdown : made.down (binDirOf root) = fs.down root ++ [binName] :=
    (down_congr hstart).trans hdownbin
  obtain ⟨cleared, hcleared, _⟩ := (hedited.linkless hlinks).resetDir_succeeds isEntryName_bin
    (hedited.straight hbin hstart) (by
      intro u hu hne
      change u <+: made.down (binDirOf root) at hu
      change u ≠ made.down (binDirOf root) at hne
      rw [hdown] at hu hne
      rw [← isDirAt_iff]
      right
      refine isDirAt_of_prefix made _ _ ((isDirAt_iff _ _).mpr hedited.renewed.1) ?_
      change u <+: fs.down (libDirOf root)
      rw [hdownlib]
      exact (habove hu hne).trans (List.prefix_append _ _))
  exact ⟨made, cleared, hmade, hcleared⟩

theorem install_succeeds (hlinks : Linkless w.files)
    (hname : IsEntryName (Utf8.encode inputs.programName))
    (hartifacts : OutsideLibraries w.files root inputs.artifacts)
    (hfiles : ∀ a ∈ inputs.artifacts, w.files.isFile a.path = true)
    (hlauncher : Lasting w.files root inputs.launcher)
    (hmanifest : Lasting w.files root inputs.manifest) (hplaces : Places w.files root inputs)
    (hfits : (Edit.dirs (w.files.down root)).Fits w.files.entry?) :
    ∃ w', install root inputs w = .ok (planned root inputs) w' := by
  have hup : Step.up ∉ root.moves := ((straight_entry_iff isEntryName_lib).mp hplaces.lib).2.2.1
  obtain ⟨made, cleared, hlib, hbin⟩ := resets_succeed hlinks hplaces.lib hplaces.bin hfits
  obtain ⟨_, hcleared⟩ := filling_of_resets hlinks hup hlib hbin
  have hreset : Action.resetDir (libDirOf root) w = .ok () { w with files := made } :=
    Action.changeAt_ok_iff.mpr ⟨made, hlib, rfl⟩
  have hreset' : Action.resetDir (binDirOf root) { w with files := made } =
      .ok () { w with files := cleared } :=
    Action.changeAt_ok_iff.mpr ⟨cleared, hbin, rfl⟩
  rw [install, Action.bind_of_ok hreset, Action.bind_of_ok hreset']
  cases hwarn : Artifact.warnOfShared inputs.artifacts { w with files := cleared } with
  | error failure w1 => exact absurd hwarn warnOfShared_ne_error
  | ok names w1 =>
    rw [Action.bind_of_ok hwarn]
    have hcleared : Filling w.files w1.files root (clearingEdits root w.files) fun _ _ => none := by
      rw [warnOfShared_ok hwarn]
      exact hcleared
    obtain ⟨w2, hlibraries⟩ := copyLibraries_succeeds inputs.artifacts hartifacts.isEntryName
      hplaces.library hartifacts.outside hfiles hcleared
    obtain ⟨_, _, _, c, hcopied, _⟩ := copyLibraries_filling inputs.artifacts hartifacts.isEntryName
      hartifacts.outside hcleared hlibraries
    rw [Action.bind_of_ok hlibraries]
    obtain ⟨launched, hlaunched⟩ : ∃ fs', w2.files.copyFile inputs.launcher
        (binDirOf root / inputs.programName) = .ok fs' :=
      hcopied.copy_succeeds isEntryName_bin (.inr rfl) hname hplaces.launcher hlauncher
    obtain ⟨_, _, _, _, e, hfilled⟩ := hcopied.copy isEntryName_bin (.inr rfl) hname
      hlauncher.toPlainSource hlaunched
    rw [Action.bind_of_ok (Action.copyFile_of_ok hlaunched)]
    obtain ⟨installed, hinstalled⟩ : ∃ fs', launched.copyFile inputs.manifest
        (binDirOf root / Manifest.fileName) = .ok fs' :=
      hfilled.copy_succeeds isEntryName_bin (.inr rfl) isEntryName_manifest hplaces.manifest
        hmanifest
    rw [Action.bind_of_ok (Action.copyFile_of_ok hinstalled)]
    exact ⟨_, rfl⟩

/-- An assembly succeeds if the manifest fits, every path can be looked up, only directories stand on
the way to the root, and the sources last. -/
theorem assemble_succeeds (hlinks : Linkless w.files)
    (hvalid : ProgramName.validate inputs.programName = .ok ())
    (hname : IsEntryName (Utf8.encode inputs.programName))
    (hm : ∃ m, Manifest.atPath w.files inputs.manifest = .ok m ∧
      m.classpath = inputs.artifacts.map Artifact.classpathEntry)
    (hartifacts : OutsideLibraries w.files root inputs.artifacts)
    (hfiles : ∀ a ∈ inputs.artifacts, w.files.isFile a.path = true)
    (hlauncher : Lasting w.files root inputs.launcher)
    (hmanifest : Lasting w.files root inputs.manifest) (hplaces : Places w.files root inputs)
    (hfits : (Edit.dirs (w.files.down root)).Fits w.files.entry?) :
    ∃ w', assemble root inputs w = .ok (planned root inputs) w' := by
  rw [assemble_eq_install hvalid hm]
  exact install_succeeds hlinks hname hartifacts hfiles hlauncher hmanifest hplaces hfits

end Run

end Distribution

end LaunchDist
