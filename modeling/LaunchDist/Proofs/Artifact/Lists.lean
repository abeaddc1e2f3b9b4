import LaunchDist.Proofs.Artifact
/-!
# Path lists

It does not matter how the entries of a class path are divided into lists. They are resolved from left
to right; the artifacts are those of the entries, and a failure is that of the first entry without one.
-/
namespace LaunchDist

namespace Path

theorem splitList_append (list later : Bytes) :
    splitList (list ++ listSeparator :: later) = splitList list ++ splitList later := by
  rw [splitList, List.splitOn_append_cons_self, List.filter_append, List.map_append, splitList,
    splitList]

theorem flatMap_splitList (lists : List Bytes) :
    lists.flatMap splitList = splitList ([listSeparator].intercalate lists) := by
  induction lists with
  | nil => rfl
  | cons list rest ih =>
    cases rest with
    | nil => simp
    | cons next rest =>
      rw [List.flatMap_cons, ih, List.intercalate_cons_cons, ← splitList_append]
      simp

theorem flatMap_splitList_eq (lists : List Bytes) :
    lists.flatMap splitList =
      ((lists.flatMap (List.splitOn listSeparator)).filter (· ≠ [])).map Path.mk := by
  rw [List.filter_flatMap, List.map_flatMap]
  rfl

end Path

namespace Artifact

open LaunchDist.Action

variable {fs : FileSystem} {paths : List Path}

theorem mapM_of_forall₂ {artifacts : List Artifact}
    (h : List.Forall₂ (fun p a => atPath fs p = .ok a) paths artifacts) :
    paths.mapM (atPath fs) = .ok artifacts := by
  induction h with
  | nil => rfl
  | cons hp _ ih =>
    rw [List.mapM_cons, hp, ih]
    rfl

theorem mapM_ok_iff {artifacts : List Artifact} :
    paths.mapM (atPath fs) = .ok artifacts ↔
      List.Forall₂ (fun p a => atPath fs p = .ok a) paths artifacts :=
  ⟨forall₂_of_mapM, mapM_of_forall₂⟩

/-- Whether the first path without an artifact fails in this way. -/
def FirstFails (fs : FileSystem) (paths : List Path) (failure : Failure) : Prop :=
  ∃ before p after, paths = before ++ p :: after ∧ (∀ q ∈ before, ∃ a, atPath fs q = .ok a) ∧
    atPath fs p = .error failure

theorem firstFails_cons {p : Path} {failure : Failure} :
    FirstFails fs (p :: paths) failure ↔
      atPath fs p = .error failure ∨ (∃ a, atPath fs p = .ok a) ∧ FirstFails fs paths failure := by
  constructor
  · rintro ⟨before, q, after, heq, hbefore, hq⟩
    cases before with
    | nil =>
      cases heq
      exact .inl hq
    | cons first before =>
      cases heq
      exact .inr ⟨hbefore p List.mem_cons_self, before, q, after, rfl,
        fun r hr => hbefore r (List.mem_cons_of_mem p hr), hq⟩
  · rintro (hp | ⟨hp, before, q, after, rfl, hbefore, hq⟩)
    · exact ⟨[], p, paths, rfl, fun q hq => absurd hq List.not_mem_nil, hp⟩
    · exact ⟨p :: before, q, after, rfl, List.forall_mem_cons.mpr ⟨hp, hbefore⟩, hq⟩

theorem mapM_error_iff {failure : Failure} :
    paths.mapM (atPath fs) = .error failure ↔ FirstFails fs paths failure := by
  induction paths with
  | nil =>
    constructor
    · intro h
      cases h
    · rintro ⟨before, p, after, heq, -, -⟩
      simp at heq
  | cons p paths ih =>
    rw [List.mapM_cons, firstFails_cons, ← ih]
    cases hp : atPath fs p with
    | error other => simp [bind, Except.bind]
    | ok a => cases hrest : paths.mapM (atPath fs) <;> simp [bind, Except.bind, pure, Except.pure]

/-- What comes of path lists depends on their entries in order alone: they are resolved from left to
right, up to the first that fails. -/
theorem resolveClasspath_entries (lists : List Bytes) :
    resolveClasspath lists = resolveAll
        (((lists.flatMap (List.splitOn Path.listSeparator)).filter (· ≠ [])).map Path.mk) ∧
      (∀ w, (stateAfter (resolveClasspath lists w)).files = w.files ∧
        (∀ artifacts, outcome (resolveClasspath lists w) = .ok artifacts ↔
          List.Forall₂ (fun entry a => atPath w.files ⟨entry⟩ = .ok a)
            ((lists.flatMap (List.splitOn Path.listSeparator)).filter (· ≠ [])) artifacts) ∧
        ∀ failure, outcome (resolveClasspath lists w) = .error failure ↔ FirstFails w.files
          (((lists.flatMap (List.splitOn Path.listSeparator)).filter (· ≠ [])).map Path.mk)
          failure) ∧
      ∀ lists', [Path.listSeparator].intercalate lists' = [Path.listSeparator].intercalate lists →
        resolveClasspath lists' = resolveClasspath lists := by
  refine ⟨?_, fun w => ?_, fun lists' h => ?_⟩
  · rw [resolveClasspath_eq, Path.flatMap_splitList_eq]
  · rw [resolveClasspath_eq, Path.flatMap_splitList_eq]
    obtain ⟨hout, hfiles⟩ := resolveAll_spec
      (((lists.flatMap (List.splitOn Path.listSeparator)).filter (· ≠ [])).map Path.mk) w
    rw [hout]
    refine ⟨hfiles, fun artifacts => ?_, fun failure => mapM_error_iff⟩
    rw [mapM_ok_iff, List.forall₂_map_left_iff]
  · rw [resolveClasspath_eq, resolveClasspath_eq, Path.flatMap_splitList, Path.flatMap_splitList, h]

theorem resolveClasspath_entries_regrouped :
    [Path.listSeparator].intercalate [Utf8.encode "a", Utf8.encode ":b"] =
        [Path.listSeparator].intercalate [Utf8.encode "a:", Utf8.encode "b"] ∧
      resolveClasspath [Utf8.encode "a", Utf8.encode ":b"] =
        resolveClasspath [Utf8.encode "a:", Utf8.encode "b"] := by
  have h : [Path.listSeparator].intercalate [Utf8.encode "a", Utf8.encode ":b"] =
      [Path.listSeparator].intercalate [Utf8.encode "a:", Utf8.encode "b"] := by decide
  exact ⟨h, (resolveClasspath_entries [Utf8.encode "a:", Utf8.encode "b"]).2.2 _ h⟩

end Artifact

end LaunchDist
