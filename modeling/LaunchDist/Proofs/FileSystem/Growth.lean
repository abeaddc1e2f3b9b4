import LaunchDist.Proofs.Action
import LaunchDist.Proofs.FileSystem.Directories
/-!
# States that only grow

Making a directory with its parents adds directories and takes nothing away, at any path, also when it
stops half way. If it succeeds the path leads to a directory.
-/
namespace LaunchDist

namespace FileSystem

/-- Whether a state differs from an earlier one in new directories only. -/
structure Grows (fs fs' : FileSystem) : Prop where
  entry? : ∀ u, fs'.entry? u = fs.entry? u ∨ fs.entry? u = none ∧ fs'.entry? u = some .dir
  sameStart : SameStart fs fs'

namespace Grows

variable {fs fs' fs'' : FileSystem}

theorem refl (fs : FileSystem) : Grows fs fs :=
  ⟨fun _ => .inl rfl, rfl, rfl⟩

theorem trans (h : Grows fs fs') (h' : Grows fs' fs'') : Grows fs fs'' where
  entry? u := by
    rcases h'.entry? u with heq | ⟨hn, hd⟩
    · rw [heq]
      exact h.entry? u
    · rcases h.entry? u with heq | ⟨_, hd'⟩
      · exact .inr ⟨by rw [← heq, hn], hd⟩
      · rw [hn] at hd'
        cases hd'
  sameStart := h.sameStart.trans h'.sameStart

theorem eq_of_ne_none (h : Grows fs fs') {u : Location} (hu : fs.entry? u ≠ none) :
    fs'.entry? u = fs.entry? u :=
  (h.entry? u).resolve_right fun hc => hu hc.1

theorem linkAt? (h : Grows fs fs') (u : Location) : fs'.linkAt? u = fs.linkAt? u := by
  rcases h.entry? u with heq | ⟨hn, hd⟩
  · exact linkAt?_congr heq
  · rw [FileSystem.linkAt?, FileSystem.linkAt?, hn, hd]

theorem keeps (h : Grows fs fs') : Keeps fs fs' := by
  intro u hu
  rw [h.eq_of_ne_none hu]

end Grows

section MakeDirs

variable {fs fs' : FileSystem} {q : Path} {v : Location} {n : Name} {u : Unit} {e : FileFailure}

theorem free_of_vacant (h : fs.locate .directory q = .ok (.vacant v n)) :
    Free fs v n ∧ ∃ k, Reaches (fs.put (v ++ [n]) .empty) q k (v ++ [n]) := by
  rcases origin?_of_locate (by decide) h with ⟨start, steps, ho, hs⟩ | ⟨hspot, _⟩
  · obtain ⟨hfree, hleads⟩ := leads_of_vacant hs
    have hgrows : Keeps fs (fs.put (v ++ [n]) .empty) := by
      intro w hw
      rw [entry?_put_empty hfree, if_neg]
      rintro rfl
      exact hw hfree.entry?
    have hself : entry? (fs.put (v ++ [n]) .empty) (v ++ [n]) = some .dir := by
      rw [entry?_put_empty hfree, if_pos rfl]
    have hdir := (isDirAt_iff _ _).mpr hself
    obtain ⟨k, hk⟩ := hleads _ hgrows (by rw [hself]; exact Option.some_ne_none _)
      (linkAt?_of_isDirAt hdir) (.inr hdir)
    exact ⟨hfree, k, start, steps, (origin?_congr (.inr (sameStart_put ..))).trans ho, hk⟩
  · cases hspot

theorem grows_makeDir (h : fs.makeDir q = .ok fs') : Grows fs fs' := by
  obtain ⟨v, n, hloc, rfl⟩ := makeDir_spec h
  have hfree := (free_of_vacant hloc).1
  refine ⟨fun w => ?_, sameStart_put ..⟩
  rw [entry?_put_empty hfree]
  by_cases hw : w = v ++ [n]
  · rw [if_pos hw, hw]
    exact .inr ⟨hfree.entry?, rfl⟩
  · rw [if_neg hw]
    exact .inl rfl

theorem Ensures.grows (h : Ensures fs q fs') : Grows fs fs' := by
  rcases h with h | ⟨_, rfl⟩
  · exact grows_makeDir h
  · exact .refl _

theorem Ensures.isDir (h : Ensures fs q fs') : fs'.isDir q := by
  rcases h with h | ⟨h, rfl⟩
  · obtain ⟨v, n, hloc, rfl⟩ := makeDir_spec h
    obtain ⟨hfree, hreaches⟩ := free_of_vacant hloc
    have hself : entry? (fs.put (v ++ [n]) .empty) (v ++ [n]) = some .dir := by
      rw [entry?_put_empty hfree, if_pos rfl]
    rw [FileSystem.isDir, stat_of_find (find_follow_iff.mpr ⟨nameable_of_locate hloc, hreaches, hself⟩)]
  · exact h

theorem makeDirAfter_of_isDir {makeParent : Change Unit} (hd : fs.isDir q) :
    makeDirAfter q makeParent fs = .ok () fs := by
  obtain ⟨l?, e, hf⟩ := exists_find_of_isDir (.inr rfl) hd
  have hmake : fs.makeDir q = .error (.system .alreadyExists) := by
    rw [makeDir]
    rcases locate_of_find hf with ⟨l, _, hloc, _⟩ | ⟨_, hloc⟩ <;> rw [hloc]
  rw [makeDirAfter, if_neg (nameable_of_find hf).ne_nil, hmake]
  exact if_pos hd

/-- A directory that could not be made leaves the state as it was, or as its parents have left it. -/
theorem state_of_makeDirAfter_error {makeParent : Change Unit}
    (h : makeDirAfter q makeParent fs = .error e fs') :
    fs' = fs ∨ makeParent fs = .error e fs' ∨ makeParent fs = .ok () fs' := by
  rcases (makeDirAfter_error_iff.mp h).2 with ⟨rfl, _⟩ | ⟨_, hfail | ⟨hmade, _⟩⟩
  · exact .inl rfl
  · exact .inr (.inl hfail)
  · exact .inr (.inr hmade)

theorem grows_makeDirAfter {makeParent : Change Unit}
    (hparent : Grows fs (Action.stateAfter (makeParent fs))) :
    Grows fs (Action.stateAfter (makeDirAfter q makeParent fs)) := by
  cases h : makeDirAfter q makeParent fs with
  | ok u fs' =>
    rcases makeDirAfter_ok h with ⟨_, rfl⟩ | ⟨made, rfl | hmade, hq⟩
    · exact .refl _
    · exact hq.grows
    · rw [hmade] at hparent
      exact hparent.trans hq.grows
  | error e fs' =>
    rcases state_of_makeDirAfter_error h with rfl | hfail | hmade
    · exact .refl _
    · rwa [hfail] at hparent
    · rwa [hmade] at hparent

theorem grows_makeDirsFrom (ps : List Path) :
    Grows fs (Action.stateAfter (makeDirsFrom q ps fs)) := by
  induction ps generalizing q with
  | nil => exact grows_makeDirAfter (.refl fs)
  | cons p ps ih => exact grows_makeDirAfter ih

theorem grows_makeDirs (q : Path) (fs : FileSystem) :
    Grows fs (Action.stateAfter (makeDirs q fs)) :=
  grows_makeDirsFrom q.parents

/-- The directory itself is made or found last, in the state that making the parents has left if they
were missing. -/
theorem makeDirs_ok (hq : q.bytes ≠ []) (h : makeDirs q fs = .ok u fs') :
    ∃ made, Ensures made q fs' ∧
      (made = fs ∨ ∃ p ps, q.parents = p :: ps ∧ makeDirsFrom p ps fs = .ok () made) := by
  rw [makeDirs] at h
  cases hps : q.parents with
  | nil =>
    rw [hps, makeDirsFrom] at h
    obtain ⟨made, hmade, hens⟩ := (makeDirAfter_ok h).resolve_left fun hc => hq hc.1
    exact ⟨made, hens, .inl (hmade.resolve_right fun hfail => by cases hfail)⟩
  | cons p ps =>
    rw [hps, makeDirsFrom] at h
    obtain ⟨made, hmade, hens⟩ := (makeDirAfter_ok h).resolve_left fun hc => hq hc.1
    exact ⟨made, hens, hmade.imp_right fun hparents => ⟨p, ps, rfl, hparents⟩⟩

theorem isDir_of_makeDirs (hq : q.bytes ≠ []) (h : makeDirs q fs = .ok u fs') : fs'.isDir q := by
  obtain ⟨_, hens, _⟩ := makeDirs_ok hq h
  exact hens.isDir

end MakeDirs

end FileSystem

end LaunchDist
