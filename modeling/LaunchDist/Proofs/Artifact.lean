import LaunchDist.Artifact
import LaunchDist.Proofs.Action
import Mathlib.Data.List.Forall2
/-!
# Resolving artifacts

Resolving looks at the files and changes none of them. The artifacts of several paths are those of the
single paths, in their order; where one path has no artifact there are none.
-/
namespace LaunchDist

namespace Artifact

open LaunchDist.Action

variable {fs : FileSystem} {p : Path} {w : Workspace}

/-- Whether a path leads to something that can be put on the class path: to anything but a directory,
under a name that is text. -/
def Resolvable (fs : FileSystem) (p : Path) : Prop :=
  ∃ l name, fs.canonicalize p = .ok l ∧ fs.isDirAt l = false ∧
    p.fileName?.bind Utf8.decode? = some name

theorem resolvable_of_atPath {a : Artifact} (h : atPath fs p = .ok a) : Resolvable fs p := by
  rw [atPath] at h
  split at h
  · cases h
  · rename_i l hl
    split at h
    · cases h
    · rename_i hdir
      split at h
      · rename_i name hname
        exact ⟨l, name, hl, Bool.not_eq_true _ ▸ hdir, hname⟩
      · cases h

theorem resolveAll_of_error {paths : List Path} {failure : Failure}
    (h : atPath w.files p = .error failure) :
    resolveAll (p :: paths) w = .error failure w :=
  bind_error_iff.mpr (.inl (query_error_iff.mpr ⟨h, rfl⟩))

theorem resolveAll_of_ok {a : Artifact} (paths : List Path) (h : atPath w.files p = .ok a) :
    resolveAll (p :: paths) w = (resolveAll paths >>= fun rest => pure (a :: rest))
      { w with log := w.log ++ [.resolvedArtifact a.fileName a.path] } :=
  (bind_of_ok (x := resolve p) (query_ok_iff.mpr ⟨h, rfl⟩)).trans
    (bind_of_ok ((report_ok_iff (u := ())).mpr rfl))

/-- The artifacts of paths do not depend on what has been reported, and reporting is all that resolving
them does. -/
theorem resolveAll_spec (paths : List Path) (w : Workspace) :
    outcome (resolveAll paths w) = paths.mapM (atPath w.files) ∧
      (stateAfter (resolveAll paths w)).files = w.files := by
  induction paths generalizing w with
  | nil => exact ⟨rfl, rfl⟩
  | cons p paths ih =>
    rw [List.mapM_cons]
    cases hp : atPath w.files p with
    | error failure =>
      rw [resolveAll_of_error hp]
      exact ⟨rfl, rfl⟩
    | ok a =>
      rw [resolveAll_of_ok paths hp]
      obtain ⟨hout, hfiles⟩ := ih { w with log := w.log ++ [.resolvedArtifact a.fileName a.path] }
      cases hrest : resolveAll paths { w with log := w.log ++ [.resolvedArtifact a.fileName a.path] } with
      | ok rest w' =>
        rw [hrest] at hout hfiles
        rw [bind_of_ok hrest]
        exact ⟨by rw [← hout]; rfl, hfiles⟩
      | error failure w' =>
        rw [hrest] at hout hfiles
        rw [bind_error_iff.mpr (.inl hrest)]
        exact ⟨by rw [← hout]; rfl, hfiles⟩

theorem resolveAll_append (paths later : List Path) :
    resolveAll (paths ++ later) = do
      let artifacts ← resolveAll paths
      return artifacts ++ (← resolveAll later) := by
  induction paths with
  | nil => simp [resolveAll]
  | cons p paths ih => simp [resolveAll, ih]

/-- It does not matter in which lists the entries stand. -/
theorem resolveClasspath_eq (lists : List Bytes) :
    resolveClasspath lists = resolveAll (lists.flatMap Path.splitList) := by
  induction lists with
  | nil => rfl
  | cons list rest ih => rw [List.flatMap_cons, resolveAll_append, ← ih, resolveClasspath]

theorem forall₂_of_mapM {paths : List Path} {artifacts : List Artifact}
    (h : paths.mapM (atPath fs) = .ok artifacts) :
    List.Forall₂ (fun p a => atPath fs p = .ok a) paths artifacts := by
  induction paths generalizing artifacts with
  | nil =>
    cases h
    exact .nil
  | cons p paths ih =>
    rw [List.mapM_cons] at h
    cases hp : atPath fs p with
    | error failure =>
      rw [hp] at h
      cases h
    | ok a =>
      rw [hp] at h
      cases hrest : paths.mapM (atPath fs) with
      | error failure =>
        rw [hrest] at h
        cases h
      | ok rest =>
        rw [hrest] at h
        cases h
        exact .cons hp (ih hrest)

theorem exists_of_forall₂ {paths : List Path} {artifacts : List Artifact}
    (h : List.Forall₂ (fun p a => atPath fs p = .ok a) paths artifacts) :
    (∀ p ∈ paths, ∃ a, atPath fs p = .ok a) ∧ ∀ a ∈ artifacts, ∃ p, atPath fs p = .ok a := by
  induction h with
  | nil => exact ⟨fun _ hp => absurd hp List.not_mem_nil, fun _ ha => absurd ha List.not_mem_nil⟩
  | cons hp _ ih =>
    constructor
    · intro q hq
      rcases List.mem_cons.mp hq with rfl | hq
      · exact ⟨_, hp⟩
      · exact ih.1 q hq
    · intro b hb
      rcases List.mem_cons.mp hb with rfl | hb
      · exact ⟨_, hp⟩
      · exact ih.2 b hb

end Artifact

end LaunchDist
