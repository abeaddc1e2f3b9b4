import LaunchDist.Proofs.Distribution.Assembly
import LaunchDist.Proofs.FileSystem.Canonical
import LaunchDist.Proofs.Path.Text
/-!
# What an artifact stands for

An artifact is named by what stands last in the path that it was given by, and is the file that the
path leads to, be it a regular file or a socket. Its name can be that of an entry of any directory, and
nothing else.
-/
namespace LaunchDist

namespace Artifact

open FileSystem
open LaunchDist.Path (Step IsFileName)

variable {fs : FileSystem} {p : Path} {a : Artifact}

/-- Whether an artifact has the name that stands last in a path, one that stays in its directory. -/
structure NamedBy (p : Path) (a : Artifact) : Prop where
  segment : p.segments.getLast? = some (Utf8.encode a.fileName)
  isFileName : IsFileName a.fileName
  /-- Whatever is looked up under the name in a directory is an entry of it. -/
  child : ∀ (fs : FileSystem) (lib : Path) (spot : Spot),
    fs.locate .inspect (lib / a.fileName) = .ok spot → ∃ k v, Reaches fs lib k v ∧ fs.isDirAt v ∧
      (spot = .found (v ++ [Utf8.encode a.fileName]) ∨ spot = .vacant v (Utf8.encode a.fileName))

/-- Whether an artifact has the canonical path of what a path leads to, which is not a directory. -/
structure Stands (fs : FileSystem) (p : Path) (a : Artifact) (l : Location) : Prop where
  path_eq : a.path = l.path
  isAbsolute : a.path.isAbsolute = true
  steps : a.path.steps = l.map .name
  isEntryName : ∀ n ∈ l, Path.IsEntryName n
  linkAt? : ∀ l', l' <+: l → fs.linkAt? l' = none
  reaches : ∃ k, Reaches fs p k l
  find : ∃ e, fs.find .follow a.path = .ok (some l, e) ∧ e ≠ .dir

theorem atPath_of_error {e : FileFailure} (h : fs.canonicalize p = .error e) :
    atPath fs p = .error (.io p e) := by
  rw [atPath, h]

theorem atPath_of_dir {l : Location} (h : fs.canonicalize p = .ok l) (hl : fs.isDirAt l = true) :
    atPath fs p = .error (.configuration (.directoryArtifact p)) := by
  rw [atPath, h]
  exact if_pos hl

theorem fileName?_of_canonicalize {l : Location} (h : fs.canonicalize p = .ok l)
    (hl : fs.isDirAt l = false) : p.fileName? = p.segments.getLast? := by
  obtain ⟨xs, n, hsteps⟩ := steps_of_canonicalize h hl
  obtain ⟨before, hsegments⟩ := Path.segments_of_steps hsteps
  rw [Path.fileName?_of_steps hsteps, hsegments, List.getLast?_concat]

theorem atPath_of_unnamed {l : Location} (h : fs.canonicalize p = .ok l) (hl : fs.isDirAt l = false)
    (hname : p.segments.getLast?.bind Utf8.decode? = none) :
    atPath fs p = .error (.configuration (.unnamedArtifact p)) := by
  rw [atPath, h]
  simp only [hl, Bool.false_eq_true, if_false, fileName?_of_canonicalize h hl, hname]

theorem isDirAt_of_atPath {l : Location} (h : atPath fs p = .ok a) (hl : fs.canonicalize p = .ok l) :
    fs.isDirAt l = false := by
  cases hd : fs.isDirAt l with
  | false => rfl
  | true =>
    rw [atPath_of_dir hl hd] at h
    cases h

theorem namedBy_of_atPath (h : atPath fs p = .ok a) : NamedBy p a := by
  obtain ⟨l, hl, _, hname⟩ := Distribution.atPath_ok h
  have hentry := Distribution.isEntryName_of_atPath h
  refine ⟨?_, (Path.isEntryName_encode_iff _).mp hentry, fun fs' lib spot hspot => ?_⟩
  · rw [← hname, fileName?_of_canonicalize hl (isDirAt_of_atPath h hl)]
  · obtain ⟨_, _, k, v, hr, hv, hspot⟩ := (locate_entry_iff (.inl rfl) hentry).mp hspot
    refine ⟨k, v, hr, hv, ?_⟩
    rw [hspot]
    split
    · exact .inr rfl
    · exact .inl rfl

theorem stands_of_atPath (hfs : WellNamed fs) (h : atPath fs p = .ok a) : ∃ l, Stands fs p a l := by
  obtain ⟨l, hl, hpath, _⟩ := Distribution.atPath_ok h
  have husable := usable_location hfs hl
  have hdir := isDirAt_of_atPath h hl
  obtain ⟨hent, hlink⟩ := entry_of_canonicalize hl hdir
  obtain ⟨e, he⟩ := Option.ne_none_iff_exists'.mp hent
  refine ⟨l, hpath, Distribution.isAbsolute_of_atPath h, ?_, fun n hn => (husable n hn).isEntryName,
    fun l' hl' => linkAt?_of_prefix hent hlink hl', reaches_of_canonicalize hl, e, ?_, ?_⟩
  · rw [hpath, Location.steps_path husable]
  · rw [hpath]
    exact find_canonical hfs hl hdir he
  · rintro rfl
    rw [(isDirAt_iff fs l).mpr he] at hdir
    cases hdir

/-- Where a path has an artifact, it is named by the path and stands for the file that the path leads
to. A path that leads nowhere is a failure at that path, and a directory or a last name that is no text
is one of the configuration. -/
theorem atPath_spec (fs : FileSystem) (p : Path) :
    (∀ a, atPath fs p = .ok a → NamedBy p a ∧ (WellNamed fs → ∃ l, Stands fs p a l)) ∧
      (∀ e, fs.canonicalize p = .error e → atPath fs p = .error (.io p e)) ∧
      ((∀ k l, ¬ Reaches fs p k l) → ∃ e, atPath fs p = .error (.io p e)) ∧
      ∀ l, fs.canonicalize p = .ok l →
        fs.isDirAt l = true ∨ p.segments.getLast?.bind Utf8.decode? = none →
        ∃ problem, atPath fs p = .error (.configuration problem) := by
  refine ⟨fun a h => ⟨namedBy_of_atPath h, fun hfs => stands_of_atPath hfs h⟩,
    fun e h => atPath_of_error h, fun h => ?_, fun l hl h => ?_⟩
  · cases hc : fs.canonicalize p with
    | error e => exact ⟨e, atPath_of_error hc⟩
    | ok l =>
      obtain ⟨k, hk⟩ := reaches_of_canonicalize hc
      exact absurd hk (h k l)
  · cases hd : fs.isDirAt l with
    | true => exact ⟨_, atPath_of_dir hl hd⟩
    | false => exact ⟨_, atPath_of_unnamed hl hd (h.resolve_left (by rw [hd]; decide))⟩

def plainFiles : FileSystem where
  children := [(Utf8.encode "lib", .dir [(Utf8.encode "app-1.jar", .file 0o644 [])])]
  workingDir := []

/-- A library that is known by a link as well. -/
def aliasedFiles : FileSystem :=
  plainFiles.put [Utf8.encode "app.jar"] (.link (Path.ofString "lib/../lib/./app-1.jar"))

theorem wellNamed_aliasedFiles : WellNamed aliasedFiles := by
  have hlinks : Linkless plainFiles := linkless_of_areLinkless (by decide +kernel)
  have hplain : WellNamed plainFiles := hlinks.wellNamed fun _ hn => absurd hn List.not_mem_nil
  exact hplain.put_link (by decide) (isDirAt_nil _) (by decide +kernel)

theorem atPath_spec_aliasedFiles :
    atPath aliasedFiles (Path.ofString "lib/../app.jar") =
        .ok ⟨"app.jar", Path.ofString "/lib/app-1.jar"⟩ ∧
      WellNamed aliasedFiles ∧
      NamedBy (Path.ofString "lib/../app.jar") ⟨"app.jar", Path.ofString "/lib/app-1.jar"⟩ ∧
      ∃ l, Stands aliasedFiles (Path.ofString "lib/../app.jar")
        ⟨"app.jar", Path.ofString "/lib/app-1.jar"⟩ l := by
  have hat : atPath aliasedFiles (Path.ofString "lib/../app.jar") =
      .ok ⟨"app.jar", Path.ofString "/lib/app-1.jar"⟩ := by decide +kernel
  obtain ⟨hnamed, hstands⟩ := (atPath_spec aliasedFiles (Path.ofString "lib/../app.jar")).1 _ hat
  exact ⟨hat, wellNamed_aliasedFiles, hnamed, hstands wellNamed_aliasedFiles⟩

/-- What an artifact stands for need not be a regular file. -/
def listeningFiles : FileSystem where
  children := [(Utf8.encode "app.jar", .socket)]
  workingDir := []

theorem atPath_listeningFiles_no_file :
    WellNamed listeningFiles ∧
      atPath listeningFiles (Path.ofString "app.jar") = .ok ⟨"app.jar", Path.ofString "/app.jar"⟩ ∧
      listeningFiles.stat (Path.ofString "/app.jar") = .ok .socket := by
  have hlinks : Linkless listeningFiles := linkless_of_areLinkless (by decide +kernel)
  exact ⟨hlinks.wellNamed fun _ hn => absurd hn List.not_mem_nil, by decide +kernel,
    by decide +kernel⟩

end Artifact

end LaunchDist
