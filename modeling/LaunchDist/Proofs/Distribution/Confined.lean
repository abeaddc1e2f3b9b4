import LaunchDist.Proofs.Distribution.Abort
import LaunchDist.Proofs.Distribution.Layout
import LaunchDist.Proofs.FileSystem.Confined
/-!
# What assembling leaves alone

Assembling changes nothing outside the places of the two directories, whether or not it succeeds. A file
is copied into a directory that has been made anew and holds no links, so it lands where its name says.
-/
namespace LaunchDist

namespace Distribution

open FileSystem
open LaunchDist.Path (Step IsEntryName)

/-- The places of the two directories that a root names. -/
def places (fs : FileSystem) (root : Path) : List Location :=
  [fs.place root libName, fs.place root binName]

theorem inside_iff {fs : FileSystem} {root : Path} {u : Location} :
    Inside fs root u ↔ ∃ l ∈ places fs root, l <+: u := by
  simp [Inside, places]

/-- Whether a root leads to a directory in which each of the two, if it is there, is a directory in its
old place without links. -/
structure Enclosed (before fs : FileSystem) (root : Path) (home : Location) : Prop where
  reaches : ∃ k, Reaches fs root k home
  part : ∀ d, IsPart d → fs.entry? (home ++ [d]) = none ∨
    fs.isDirAt (home ++ [d]) ∧ Inside before root (home ++ [d])
  linkAt? : ∀ d, IsPart d → ∀ n, fs.linkAt? (home ++ [d] ++ [n]) = none

section Copies

variable {before fs fs' : FileSystem} {root : Path} {home l : Location} {w : Workspace}

namespace Enclosed

variable (h : Enclosed before fs root home)

include h

theorem put {d n : Name} (hw : Writable fs (home ++ [d] ++ [n])) (mode : Mode) (content : Bytes) :
    Enclosed before (fs.put (home ++ [d] ++ [n]) (.file mode content)) root home where
  reaches := by
    obtain ⟨k, hr⟩ := h.reaches
    exact ⟨k, hr.mono (hw.keeps_put mode content) (.inr (sameStart_put ..))⟩
  part d' hd' := by
    have hne : home ++ [d'] ≠ home ++ [d] ++ [n] := by
      intro heq
      have hlen := congrArg List.length heq
      simp at hlen
    rw [isDirAt_iff, hw.entry?_put, if_neg hne, ← isDirAt_iff]
    exact h.part d' hd'
  linkAt? d' hd' n' := by rw [hw.linkAt?_put, h.linkAt? d' hd']

theorem copy {part : String} {q src : Path} {n : Name} {rest : List Step}
    (hpart : IsEntryName (Utf8.encode part)) (hd : IsPart (Utf8.encode part))
    (hq : q.isAbsolute = false) (hsteps : q.steps = .name n :: rest)
    (hrest : ∀ s ∈ rest, s = .here ∨ s = .slash)
    (hcopy : fs.copyFile src ((root / part).join q) = .ok fs') :
    Confined (places before root) fs fs' ∧ Enclosed before fs' root home := by
  obtain ⟨_, mode, content, l, m, _, ht, rfl⟩ := copyFile_spec hcopy
  obtain ⟨k, v, hr, hv, hl⟩ := target_below hq hsteps hrest ht
  obtain ⟨_, u, hroot, _, hleads⟩ := (reaches_entry_iff hpart).mp hr
  obtain ⟨_, hhome⟩ := h.reaches
  obtain ⟨_, rfl⟩ := hhome.unique hroot
  obtain ⟨hdir, hin⟩ := (h.part _ hd).resolve_left hleads.entry?_name_ne_none
  obtain ⟨_, rfl⟩ := hleads.eq_of_name (linkAt?_of_isDirAt hdir)
  obtain rfl := hl (h.linkAt? _ hd n)
  have hw := (target_spec ht).1
  obtain ⟨l', hl', hp⟩ := inside_iff.mp hin
  exact ⟨.put hw ⟨l', hl', hp.trans (List.prefix_append _ _)⟩ _ _, h.put hw _ _⟩

end Enclosed

/-- What is done once both directories have been made anew. -/
def fill (root : Path) (inputs : AssemblyInputs) : Action Distribution := do
  let _ ← Artifact.warnOfShared inputs.artifacts
  copyLibraries (libDirOf root) inputs.artifacts
  Action.copyFile inputs.launcher (binDirOf root / inputs.programName)
  Action.copyFile inputs.manifest (binDirOf root / Manifest.fileName)
  Action.report (.assembled root inputs.programName (planned root inputs).libraries.length)
  return planned root inputs

theorem install_eq (root : Path) (inputs : AssemblyInputs) :
    install root inputs = (do
      Action.resetDir (libDirOf root)
      Action.resetDir (binDirOf root)
      fill root inputs) :=
  rfl

theorem files_warnOfShared (artifacts : List Artifact) (w : Workspace) :
    (Action.stateAfter (Artifact.warnOfShared artifacts w)).files = w.files := by
  cases h : Artifact.warnOfShared artifacts w with
  | ok shared w' => exact warnOfShared_ok h
  | error e w' => exact absurd h warnOfShared_ne_error

theorem rest_of_validate {name : String} {n : Name} {rest : List Step}
    (h : ProgramName.validate name = .ok ()) (hsteps : (Path.ofString name).steps = .name n :: rest) :
    ∀ s ∈ rest, s = .here ∨ s = .slash := by
  unfold ProgramName.validate at h
  dsimp only at h
  split_ifs at h with _ _ hplain _
  rw [Bool.not_eq_true', Bool.not_eq_false] at hplain
  unfold ProgramName.isPlain at hplain
  split at hplain
  · rename_i ha hc
    obtain ⟨rest', hsteps', hstays⟩ := Path.steps_of_components_eq _ _ ha hc
    rw [hsteps'] at hsteps
    obtain ⟨_, rfl⟩ := List.cons.inj hsteps
    exact hstays
  · cases hplain

theorem fill_confined {inputs : AssemblyInputs}
    (hnames : ∀ a ∈ inputs.artifacts, IsEntryName (Utf8.encode a.fileName))
    (hvalid : ProgramName.validate inputs.programName = .ok ())
    (h : Enclosed before w.files root home) :
    Confined (places before root) w.files (Action.stateAfter (fill root inputs w)).files := by
  obtain ⟨_, habs, n, rest, hsteps⟩ := steps_of_validate hvalid
  let I := fun fs => Confined (places before root) w.files fs ∧ Enclosed before fs root home
  have hstep : ∀ {part : String} {q src : Path} {n : Name} {rest : List Step} {fs fs' : FileSystem},
      IsEntryName (Utf8.encode part) → IsPart (Utf8.encode part) → q.isAbsolute = false →
      q.steps = .name n :: rest → (∀ s ∈ rest, s = .here ∨ s = .slash) → I fs →
      fs.copyFile src ((root / part).join q) = .ok fs' → I fs' := by
    intro part q src n rest fs fs' hpart hd hq hsteps hrest hI hcopy
    obtain ⟨hconfined, henclosed⟩ := hI.2.copy hpart hd hq hsteps hrest hcopy
    exact ⟨hI.1.trans hconfined, henclosed⟩
  have hlibrary : ∀ a ∈ inputs.artifacts, ∀ fs fs', I fs →
      fs.copyFile a.path (libDirOf root / a.fileName) = .ok fs' → I fs' := fun a ha fs fs' =>
    hstep isEntryName_lib (.inl rfl) (hnames a ha).isAbsolute (hnames a ha).steps (by simp)
  have hlauncher : Action.Preserves I
      (Action.copyFile inputs.launcher (binDirOf root / inputs.programName)) :=
    .copyFile fun fs fs' =>
      hstep isEntryName_bin (.inr rfl) habs hsteps (rest_of_validate hvalid hsteps)
  have hmanifest : Action.Preserves I
      (Action.copyFile inputs.manifest (binDirOf root / Manifest.fileName)) :=
    .copyFile fun fs fs' => hstep isEntryName_bin (.inr rfl) isEntryName_manifest.isAbsolute
      isEntryName_manifest.steps (by simp)
  have hfill : Action.Preserves I (fill root inputs) :=
    .bind (.of_same (files_warnOfShared _)) fun _ =>
      .bind (fun w => copyLibraries_keeps inputs.artifacts hlibrary) fun _ =>
        hlauncher.bind fun _ => hmanifest.bind fun _ => .of_same fun _ => rfl
  exact (hfill w ⟨.refl _ _, h⟩).1

end Copies

section Resets

variable {before made fs : FileSystem} {root : Path} {first home u : Location}

theorem place_of_renewed {m n : Name} (hlib : Renewed before made root m first) :
    made.place root n = first ++ [n] := by
  obtain ⟨k, hr⟩ := hlib.reaches
  rw [place, hr.destination_eq]

private theorem inside_of_bin (hlib : Renewed before made root libName first)
    (hu : first ++ [binName] <+: u) : Inside before root u := by
  rcases home_cases hlib with h | h
  · exact .inr (by rwa [place, ← h])
  · exact .inl ((h.trans (List.prefix_append _ _)).trans hu)

private theorem inside_of_lib (hlib : Renewed before made root libName first) :
    Inside before root (first ++ [libName]) := by
  rcases home_cases hlib with h | h
  · exact .inl (by rw [place, ← h])
  · exact .inl (h.trans (List.prefix_append _ _))

/-- After `bin` too has been made anew the root is where it was, or it has no `lib` any more. -/
private theorem home_of_resets (hlib : Renewed before made root libName first)
    (hbin : Renewed made fs root binName home) :
    home = first ∨ first ++ [binName] <+: home ∧ fs.entry? (home ++ [libName]) = none := by
  rcases hbin.home with ht | ⟨_, hp, honly⟩
  · left
    obtain ⟨k, hr⟩ := hlib.reaches
    obtain ⟨k', hr'⟩ := hbin.reaches
    rw [← hr'.destination_eq, destination_congr ht, hr.destination_eq]
  · rw [place_of_renewed hlib] at hp
    exact .inr ⟨hp, honly _ libName_ne_binName⟩

theorem enclosed_of_resets (hlib : Renewed before made root libName first)
    (hbin : Renewed made fs root binName home) : Enclosed before fs root home := by
  have hbelow : ∀ u, first ++ [libName] <+: u → fs.entry? u = made.entry? u ∨
      made.entry? u = none ∧ fs.entry? u = some .dir := by
    intro u hu
    refine (hbin.apart u ?_).imp_right fun h => ⟨h.1, h.2.1⟩
    rw [place_of_renewed hlib]
    intro hb
    rcases List.prefix_or_prefix_of_prefix hu hb with hp | hp <;>
      rw [List.prefix_append_right_inj] at hp <;> exact absurd hp (by decide)
  refine ⟨hbin.reaches, fun d hd => ?_, fun d hd n => ?_⟩
  · rcases hd with rfl | rfl
    · rcases home_of_resets hlib hbin with rfl | ⟨_, hnone⟩
      · right
        refine ⟨?_, inside_of_lib hlib⟩
        rw [isDirAt_iff]
        rcases hbelow _ (List.prefix_refl _) with heq | ⟨_, hd⟩
        · rw [heq, ← isDirAt_iff]
          exact hlib.isDirAt
        · exact hd
      · exact .inl hnone
    · refine .inr ⟨hbin.isDirAt, inside_of_bin hlib ?_⟩
      rcases home_of_resets hlib hbin with rfl | ⟨hp, _⟩
      · exact List.prefix_refl _
      · exact hp.trans (List.prefix_append _ _)
  · rw [FileSystem.linkAt?]
    rcases hd with rfl | rfl
    · rcases home_of_resets hlib hbin with rfl | ⟨_, hnone⟩
      · rcases hbelow _ (List.prefix_append _ [n]) with heq | ⟨_, hd⟩
        · rw [heq, hlib.empty _ (List.prefix_append _ _) (by simp)]
        · rw [hd]
      · rw [entry?_below_none fs _ _ hnone (List.prefix_append _ _)]
    · rw [hbin.empty _ (List.prefix_append _ _) (by simp)]

end Resets

section Install

variable {root : Path} {inputs : AssemblyInputs} {w : Workspace}

private theorem passable_of_resetDir {s : String} {fs fs' : FileSystem}
    (hs : IsEntryName (Utf8.encode s)) (hup : Step.up ∉ root.moves)
    (h : FileSystem.resetDir (root / s) fs = .ok () fs') :
    Passable fs root ∧ Confined [fs.place root (Utf8.encode s)] fs fs' := by
  have hstate := resetDir_confined fs hs hup
  rw [h] at hstate
  rcases hstate with rfl | hstate
  · obtain ⟨_, home, hnew⟩ := resetDir_spec hs hup h
    obtain ⟨k, hr⟩ := hnew.reaches
    exact ⟨hr.passable hup, .refl _ _⟩
  · exact hstate

private theorem confined_of_resetDir_error {s : String} {e : Failure} {w' : Workspace}
    (hs : IsEntryName (Utf8.encode s)) (hup : Step.up ∉ root.moves)
    (h : Action.resetDir (root / s) w = .error e w') :
    w'.files = w.files ∨ Passable w.files root ∧
      Confined [w.files.place root (Utf8.encode s)] w.files w'.files := by
  obtain ⟨_, hreset⟩ := changeAt_resetDir_error h
  have hstate := resetDir_confined w.files hs hup
  rwa [hreset] at hstate

/-- Wherever it stops, an installation at a root that does not go up changes nothing outside the two
places of the root, to which the way is there if anything changes at all. -/
theorem install_confined (hup : Step.up ∉ root.moves)
    (hnames : ∀ a ∈ inputs.artifacts, IsEntryName (Utf8.encode a.fileName))
    (hvalid : ProgramName.validate inputs.programName = .ok ()) :
    (Action.stateAfter (install root inputs w)).files = w.files ∨ Passable w.files root ∧
      Confined (places w.files root) w.files (Action.stateAfter (install root inputs w)).files := by
  have hlibrary : [w.files.place root libName] ⊆ places w.files root := by simp [places]
  rw [install_eq]
  refine Action.stateAfter_bind (P := fun w' : Workspace => w'.files = w.files ∨
    Passable w.files root ∧ Confined (places w.files root) w.files w'.files) ?_ ?_
  · intro e w1 h
    exact (confined_of_resetDir_error isEntryName_lib hup h).imp_right fun hc =>
      ⟨hc.1, hc.2.mono hlibrary⟩
  intro _ w1 h
  have hlib := changeAt_resetDir_ok h
  obtain ⟨_, first, hrlib⟩ := resetDir_spec isEntryName_lib hup hlib
  obtain ⟨hpassable, hconfined⟩ := passable_of_resetDir isEntryName_lib hup hlib
  have hmade : Confined (places w.files root) w.files w1.files :=
    hconfined.mono hlibrary
  have hbin : ∀ fs, Confined [w1.files.place root binName] w1.files fs →
      Confined (places w.files root) w.files fs := by
    intro fs hc
    refine hmade.trans (hc.widen fun l hl => ?_)
    obtain rfl := List.mem_singleton.mp hl
    rw [place_of_renewed hrlib]
    exact inside_iff.mp (inside_of_bin hrlib (List.prefix_refl _))
  refine .inr ⟨hpassable, ?_⟩
  refine Action.stateAfter_bind
    (P := fun w' : Workspace => Confined (places w.files root) w.files w'.files) ?_ ?_
  · intro e w2 h
    rcases confined_of_resetDir_error isEntryName_bin hup h with heq | ⟨_, hc⟩
    · rwa [heq]
    · exact hbin _ hc
  intro _ w2 h
  have hbinOk := changeAt_resetDir_ok h
  obtain ⟨_, home, hrbin⟩ := resetDir_spec isEntryName_bin hup hbinOk
  refine (hbin _ (passable_of_resetDir isEntryName_bin hup hbinOk).2).trans ?_
  exact fill_confined hnames hvalid (enclosed_of_resets hrlib hrbin)

theorem assemble_cases (root : Path) (inputs : AssemblyInputs) (w : Workspace) :
    (Action.stateAfter (assemble root inputs w)).files = w.files ∨
      ProgramName.validate inputs.programName = .ok () ∧
        assemble root inputs w =
          install root inputs { w with log := w.log ++ [.readManifest inputs.manifest] } := by
  cases hvalidate : ProgramName.validate inputs.programName with
  | error e =>
    left
    rw [assemble, hvalidate]
    rfl
  | ok u =>
    have hname : Action.ofExcept (ProgramName.validate inputs.programName) w = .ok () w :=
      Action.ofExcept_ok_iff.mpr ⟨hvalidate, rfl⟩
    cases hcheck : checkClasspath inputs.manifest inputs.artifacts w with
    | error e w' =>
      left
      rw [assemble, Action.bind_of_ok hname, Action.bind_error_iff.mpr (.inl hcheck)]
      exact (checkClasspath_error hcheck).1
    | ok u w' => exact .inr ⟨rfl, assemble_eq_install hvalidate (checkClasspath_ok_iff.mp hcheck).1⟩

theorem assemble_confined (root : Path) (inputs : AssemblyInputs) (w : Workspace)
    (hup : Step.up ∉ root.moves)
    (hnames : ∀ a ∈ inputs.artifacts, IsEntryName (Utf8.encode a.fileName)) :
    (Action.stateAfter (assemble root inputs w)).files = w.files ∨
      ProgramName.validate inputs.programName = .ok () ∧ Passable w.files root ∧
      Confined (places w.files root) w.files (Action.stateAfter (assemble root inputs w)).files := by
  rcases assemble_cases root inputs w with heq | ⟨hvalid, heq⟩
  · exact .inl heq
  · rw [heq]
    exact (install_confined hup hnames hvalid).imp_right fun h => ⟨hvalid, h⟩

end Install

end Distribution

end LaunchDist
