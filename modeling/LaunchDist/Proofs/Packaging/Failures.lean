import LaunchDist.Proofs.Distribution.Unfit
import LaunchDist.Proofs.FileSystem.Sweep
import LaunchDist.Proofs.Packaging.Confined
/-!
# How packaging fails

The manifest is read from where it was written, whatever paths a request names: as long as no link stands
among the outputs, making the staging directory anew removes nothing else, and the launcher is copied
beside the manifest. So packaging never fails for its own manifest.
-/
namespace LaunchDist

open FileSystem
open LaunchDist.Path (Step IsEntryName)

namespace BuildLayout

/-- What is known of the files from the time when the outputs of a build were free of links, also if the
build directory is a path that goes up. -/
structure Settled (layout : BuildLayout) (before fs : FileSystem) : Prop where
  loosened : Loosened before fs
  unlinked : layout.Unlinked before

namespace Settled

variable {layout : BuildLayout} {before fs fs' : FileSystem} {s t : String} {k : Nat} {l : Location}
  {m : Mode}

theorem refl (hlinks : layout.Unlinked fs) : layout.Settled fs fs :=
  ⟨(Grows.refl fs).loosened, hlinks⟩

theorem trans (h : layout.Settled before fs) (hl : Loosened fs fs') : layout.Settled before fs' :=
  ⟨h.loosened.trans hl, h.unlinked⟩

theorem home_eq (h : layout.Settled before fs) (hr : Reaches fs layout.buildDir k l) :
    layout.home fs = layout.home before ∧ layout.Unlinked fs := by
  have hhome : layout.home fs = layout.home before := by
    rw [home, home, place, place, h.loosened.destination_eq hr.origin?_ne_none]
  refine ⟨hhome, fun u hu => ?_⟩
  rw [hhome] at hu
  rw [h.loosened.linkAt?, h.unlinked u hu]

theorem root_eq (h : layout.Settled before fs) (hr : Reaches fs layout.root k l) :
    l = layout.home before ∧ layout.Unlinked fs := by
  obtain ⟨_, _, hbuild, _⟩ := (reaches_entry_iff isEntryName_launcherName).mp hr
  obtain ⟨hhome, hlinks⟩ := h.home_eq hbuild
  exact ⟨by rw [(reaches_root hlinks hr).2.1, hhome], hlinks⟩

theorem reaches_root_of_output (hs : IsEntryName (Utf8.encode s)) (ht : IsEntryName (Utf8.encode t))
    (hr : Reaches fs (layout.root / s / t) k l) : ∃ k v, Reaches fs layout.root k v := by
  obtain ⟨_, _, hdir, _⟩ := (reaches_entry_iff ht).mp hr
  obtain ⟨_, _, hroot, _⟩ := (reaches_entry_iff hs).mp hdir
  exact ⟨_, _, hroot⟩

theorem output_eq (h : layout.Settled before fs) (hs : IsEntryName (Utf8.encode s))
    (ht : IsEntryName (Utf8.encode t)) (hr : Reaches fs (layout.root / s / t) k l) :
    l = layout.home before ++ [Utf8.encode s] ++ [Utf8.encode t] := by
  obtain ⟨_, _, hroot⟩ := reaches_root_of_output hs ht hr
  obtain ⟨heq, hlinks⟩ := h.root_eq hroot
  rw [(reaches_output hlinks hs ht hr).1, ← heq, (reaches_root hlinks hroot).2.1]

theorem put (h : layout.Settled before fs) (hs : IsEntryName (Utf8.encode s))
    (ht : IsEntryName (Utf8.encode t)) (htarget : fs.target (layout.root / s / t) = .ok (l, m))
    (mode : Mode) (content : Bytes) :
    l = layout.home before ++ [Utf8.encode s] ++ [Utf8.encode t] ∧
      layout.Settled before (fs.put l (.file mode content)) ∧
      ∃ k, Reaches (fs.put l (.file mode content)) (layout.root / s / t) k l := by
  obtain ⟨hw, _, hreach⟩ := target_spec htarget
  obtain ⟨k, hr⟩ := hreach mode content
  have hput : layout.Settled before (fs.put l (.file mode content)) :=
    h.trans ⟨hw.linkAt?_put mode content, (sameStart_put ..).withdrawn⟩
  exact ⟨hput.output_eq hs ht hr, hput, k, hr⟩

end Settled

end BuildLayout

section Steps

variable {layout : BuildLayout} {before : FileSystem} {w w' : Workspace} {p : Path}

/-- The place of the manifest below the place of the outputs. -/
def BuildLayout.manifestPlace (layout : BuildLayout) (fs : FileSystem) : Location :=
  layout.home fs ++ [Utf8.encode "manifest"] ++ [Utf8.encode Manifest.fileName]

theorem Manifest.store_settled {m : Manifest} (hlinks : layout.Unlinked w.files)
    (h : m.store layout w = .ok p w') :
    p = layout.manifestPath ∧ layout.Settled w.files w'.files ∧
      (∃ k l, Reaches w'.files layout.root k l) ∧
      ∃ mode, w'.files.entry? (layout.manifestPlace w.files) =
        some (.file mode (Utf8.encode m.render)) := by
  obtain ⟨rfl, made, l, mode, hmake, ht, hfiles⟩ := Manifest.store_ok h
  have hgrows := grows_makeDirs layout.manifestDir w.files
  rw [hmake] at hgrows
  obtain ⟨rfl, hput, k, hr⟩ := ((BuildLayout.Settled.refl hlinks).trans hgrows.loosened).put
    isEntryName_manifestDir Distribution.isEntryName_manifest ht mode (Utf8.encode m.render)
  rw [hfiles]
  exact ⟨rfl, hput, BuildLayout.Settled.reaches_root_of_output isEntryName_manifestDir
    Distribution.isEntryName_manifest hr, mode, (target_spec ht).1.entry?_put_self _ _⟩

/-- Making the staging directory anew takes away nothing but what is in it. -/
theorem stagingDir_swept (hb : layout.Settled before w.files) {k : Nat} {l : Location}
    (hroot : Reaches w.files layout.root k l) :
    let fs' := (Action.stateAfter (Action.resetDir layout.stagingDir w)).files
    layout.Settled before fs' ∧
      ∀ u, ¬ layout.home before ++ [Utf8.encode "launcher"] <+: u → w.files.entry? u ≠ none →
        fs'.entry? u = w.files.entry? u := by
  intro fs'
  obtain ⟨rfl, hlinks⟩ := hb.root_eq hroot
  have hunlinked : ∀ u, layout.home before ++ [Utf8.encode "launcher"] <+: u →
      w.files.linkAt? u = none := by
    intro u hu
    rw [(BuildLayout.reaches_root hlinks hroot).2.1] at hu
    exact hlinks u ((List.prefix_append _ _).trans hu)
  have hback : LeadsBack w.files layout.root (Utf8.encode "launcher") :=
    leadsBack_of_unlinked (by rwa [place, hroot.destination_eq])
  obtain ⟨made, hmade, hgrows⟩ := resetDir_swept isEntryName_stagingDir hback
  have hfiles : fs' = Action.stateAfter (FileSystem.resetDir layout.stagingDir w.files) :=
    Action.files_changeAt _ _ _
  replace hgrows : Grows made fs' := by
    rw [hfiles]
    exact hgrows
  rcases hmade with ⟨rfl, _⟩ | ⟨k', v, hr, _, hswept⟩
  · exact ⟨hb.trans hgrows.loosened, fun u _ hne => hgrows.eq_of_ne_none hne⟩
  · obtain ⟨_, rfl⟩ := hroot.unique hr
    refine ⟨(hb.trans (hswept.loosened hunlinked)).trans hgrows.loosened, fun u hu hne => ?_⟩
    rw [hgrows.eq_of_ne_none (by rwa [hswept.apart u hu]), hswept.apart u hu]

namespace LauncherSearch

variable {search : LauncherSearch} {failure : Failure}

theorem stage_settled (hname : IsEntryName (Utf8.encode search.name))
    (hb : layout.Settled before w.files) {k : Nat} {l : Location}
    (hroot : Reaches w.files layout.root k l) {e : DirEntry}
    (he : w.files.entry? (layout.manifestPlace before) = some e)
    (h : search.stage layout w = .ok p w') :
    p = layout.stagingDir / search.name ∧ layout.Settled before w'.files ∧
      w'.files.entry? (layout.manifestPlace before) = some e := by
  obtain ⟨rfl, cleared, source, hreset, _, hcopied⟩ := stage_ok h
  have hswept := stagingDir_swept hb hroot
  rw [hreset] at hswept
  obtain ⟨hcleared, hkept⟩ := hswept
  obtain ⟨_, mode, content, l', m, _, ht, hfiles⟩ := copyFile_spec hcopied
  obtain ⟨rfl, hput, _⟩ := hcleared.put isEntryName_stagingDir hname ht mode _
  have hapart : ∀ r, layout.manifestPlace before ≠
      layout.home before ++ [Utf8.encode "launcher"] ++ r := by
    intro r heq
    rw [BuildLayout.manifestPlace, List.append_assoc, List.append_assoc, List.append_right_inj] at heq
    exact absurd (List.cons.inj heq).1 (by decide)
  have hentry := hkept (layout.manifestPlace before) (fun ⟨r, hr⟩ => hapart r hr.symm)
    (by rw [he]; exact Option.some_ne_none _)
  rw [hfiles]
  refine ⟨rfl, hput, ?_⟩
  rw [(target_spec ht).1.entry?_put, if_neg (hapart _)]
  exact hentry.trans he

theorem stage_error (h : search.stage layout w = .error failure w') :
    (∃ p e, failure = .io p e) ∨ failure = .launcherNotFound search.name search.dirs ∧
      ∃ cleared, Action.resetDir layout.stagingDir w = .ok () cleared ∧
        w'.files = cleared.files := by
  rw [stage, Action.bind_error_iff] at h
  rcases h with hreset | ⟨_, cleared, hreset, h⟩
  · exact .inl (Action.FailsAtPaths.changeAt _ _ _ _ _ hreset)
  rcases Action.bind_error_iff.mp h with hfind | ⟨launcher, w1, _, h⟩
  · obtain ⟨heq, hfiles⟩ := find_error hfind
    exact .inr ⟨heq, cleared, hreset, hfiles⟩
  rcases Action.bind_error_iff.mp h with hcopy | ⟨_, w2, _, h⟩
  · exact .inl (Action.FailsAtPaths.copyFile _ _ _ _ _ hcopy)
  rcases Action.bind_error_iff.mp h with hreport | ⟨_, w3, _, h⟩
  · exact absurd hreport Action.report_ne_error
  · exact absurd h Action.pure_ne_error

end LauncherSearch

end Steps

theorem Manifest.atPath_settled {layout : BuildLayout} {before fs : FileSystem} {m : Manifest}
    {mode : Mode} (hb : layout.Settled before fs)
    (he : fs.entry? (layout.manifestPlace before) = some (.file mode (Utf8.encode m.render))) :
    Manifest.atPath fs layout.manifestPath = .ok m ∨
      ∃ p e, Manifest.atPath fs layout.manifestPath = .error (.io p e) := by
  cases hf : fs.find .follow layout.manifestPath with
  | error e =>
    refine .inr ⟨layout.manifestPath, e, ?_⟩
    rw [atPath, readText, FileSystem.read, stat, hf]
    rfl
  | ok found =>
    obtain ⟨l?, e⟩ := found
    have hnames := Path.namesOf_entry_ne_nil layout.manifestDir _ Distribution.isEntryName_manifest
    obtain ⟨l, rfl, _⟩ := location_of_find (by decide) hnames hf
    obtain ⟨_, ⟨k, hr⟩, hl⟩ := find_follow_iff.mp hf
    obtain rfl := hb.output_eq isEntryName_manifestDir Distribution.isEntryName_manifest hr
    obtain rfl := Option.some.inj (hl.symm.trans he)
    exact .inl (Manifest.atPath_of_find hf)

namespace PackagingRequest

open LaunchDist.Distribution

variable {request : PackagingRequest} {environmentPath : Option Bytes} {w w' : Workspace}
  {failure : Failure}

/-- Packaging fails for its request before anything is made, at a path, or because no launcher is found
in the emptied staging directory. -/
theorem package_error (hlinks : request.layout.Unlinked w.files)
    (h : request.package environmentPath w = .error failure w') :
    (∃ p e, failure = .io p e) ∨ (∃ problem, failure = .configuration problem) ∧ w' = w ∨
      failure = .launcherNotFound launcherName (request.launcherSearch environmentPath).dirs ∧
      ∃ manifest written cleared,
        request.manifest.store request.layout (request.started w) = .ok manifest written ∧
        (request.launcherSearch environmentPath).stage request.layout written = .error failure w' ∧
        Action.resetDir request.layout.stagingDir written = .ok () cleared ∧
        w'.files = cleared.files := by
  rw [package, Action.bind_error_iff] at h
  rcases h with hvalidate | ⟨_, w0, hvalidate, h⟩
  · obtain ⟨hinvalid, rfl⟩ := Action.ofExcept_error_iff.mp hvalidate
    exact .inr (.inl ⟨ProgramName.validate_error hinvalid, rfl⟩)
  obtain ⟨hvalid, rfl⟩ := Action.ofExcept_ok_iff.mp hvalidate
  rcases Action.bind_error_iff.mp h with hreport | ⟨_, w1, hreport, h⟩
  · exact absurd hreport Action.report_ne_error
  obtain rfl := Action.report_ok_iff.mp hreport
  rcases Action.bind_error_iff.mp h with hstore | ⟨manifest, written, hstore, h⟩
  · exact .inl (Manifest.store_error hstore).1
  rcases Action.bind_error_iff.mp h with hstage | ⟨launcher, staged, hstage, h⟩
  · rcases LauncherSearch.stage_error hstage with hio | ⟨heq, cleared, hreset, hfiles⟩
    · exact .inl hio
    · exact .inr (.inr ⟨heq, manifest, written, cleared, hstore, hstage, hreset, hfiles⟩)
  left
  obtain ⟨rfl, hb, ⟨_, _, hroot⟩, mode, he⟩ :=
    Manifest.store_settled (w := request.started w0) hlinks hstore
  obtain ⟨_, hstaged, he⟩ := LauncherSearch.stage_settled isEntryName_search hb hroot he hstage
  rcases assemble_error h with hio | ⟨_, hname | hread | ⟨m, hread, hne⟩⟩
  · exact hio
  · rw [hvalid] at hname
    cases hname
  · rcases Manifest.atPath_settled hstaged he with hm | ⟨p, e, hm⟩
    · cases hm.symm.trans hread
    · exact ⟨p, e, (Except.error.inj (hm.symm.trans hread)).symm⟩
  · rcases Manifest.atPath_settled hstaged he with hm | ⟨p, e, hm⟩
    · obtain rfl := Except.ok.inj (hm.symm.trans hread)
      exact absurd rfl hne
    · cases hm.symm.trans hread

end PackagingRequest

end LaunchDist
