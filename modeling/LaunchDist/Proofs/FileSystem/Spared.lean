import LaunchDist.Proofs.FileSystem.Confined
import LaunchDist.Proofs.FileSystem.Sweep
/-!
# What is spared

At whatever root a directory is made anew, nothing else goes or changes as long as the way to the root
does not pass through it. What is found along a way apart from it is still found afterwards.
-/
namespace LaunchDist

namespace FileSystem

open LaunchDist.Path (Step IsEntryName)

/-- Whether nothing outside some places has changed, but that missing directories may have been made. -/
structure Spares (inside : Location → Prop) (fs fs' : FileSystem) : Prop where
  entry? : ∀ u, ¬ inside u →
    fs'.entry? u = fs.entry? u ∨ fs.entry? u = none ∧ fs'.entry? u = some .dir
  start : SameStart fs fs' ∨ inside fs.workingDir

namespace Spares

variable {inside inside' : Location → Prop} {fs fs' fs'' : FileSystem} {p : Path} {l u : Location}
  {e : DirEntry}

theorem trans (h : Spares inside fs fs') (h' : Spares inside fs' fs'') : Spares inside fs fs'' where
  entry? u hu := by
    rcases h.entry? u hu with heq | ⟨hnone, hdir⟩
    · rw [← heq]
      exact h'.entry? u hu
    · rcases h'.entry? u hu with heq' | ⟨hnone', _⟩
      · exact .inr ⟨hnone, heq'.trans hdir⟩
      · rw [hdir] at hnone'
        cases hnone'
  start := by
    rcases h.start with hs | hin
    · rcases h'.start with hs' | hin
      · exact .inl (hs.trans hs')
      · exact .inr (by rwa [← hs.1])
    · exact .inr hin

theorem mono (h : Spares inside fs fs') (hsub : ∀ u, inside u → inside' u) : Spares inside' fs fs' :=
  ⟨fun u hu => h.entry? u fun hin => hu (hsub u hin), h.start.imp_right (hsub _)⟩

theorem eq_of_ne_none (h : Spares inside fs fs') (hu : ¬ inside u) (hne : fs.entry? u ≠ none) :
    fs'.entry? u = fs.entry? u :=
  (h.entry? u hu).resolve_right fun hnone => hne hnone.1

theorem linkAt? (h : Spares inside fs fs') (hu : ¬ inside u) : fs'.linkAt? u = fs.linkAt? u := by
  rcases h.entry? u hu with heq | ⟨hnone, hdir⟩
  · exact linkAt?_congr heq
  · rw [FileSystem.linkAt?, FileSystem.linkAt?, hnone, hdir]

theorem start_of_avoids (h : Spares inside fs fs') (hp : ∀ u ∈ fs.trail p, ¬ inside u) :
    p.isAbsolute = true ∨ SameStart fs fs' := by
  cases habs : p.isAbsolute with
  | true => exact .inl rfl
  | false => exact .inr (h.start.resolve_right (hp _ (workingDir_mem_trail habs)))

theorem trail_eq (h : Spares inside fs fs') (hp : ∀ u ∈ fs.trail p, ¬ inside u) :
    fs'.trail p = fs.trail p :=
  trail_congr (h.start_of_avoids hp) fun u hu => h.linkAt? (hp u hu)

theorem find (h : Spares inside fs fs') (hp : ∀ u ∈ fs.trail p, ¬ inside u)
    (hf : fs.find .follow p = .ok (some l, e)) : fs'.find .follow p = .ok (some l, e) :=
  find_of_same hf (h.start_of_avoids hp) fun u hu =>
    h.eq_of_ne_none (hp u hu) (entry?_ne_none_of_find hf u hu)

end Spares

section Changes

variable {fs fs' : FileSystem} {l : Location}

theorem Grows.spares (h : Grows fs fs') (inside : Location → Prop) : Spares inside fs fs' :=
  ⟨fun u _ => h.entry? u, .inl h.sameStart⟩

theorem Swept.spares (h : Swept fs fs' l) : Spares (l <+: ·) fs fs' :=
  ⟨fun u hu => .inl (h.apart u hu), h.start⟩

theorem Confined.spares {places : List Location} (h : Confined places fs fs') :
    Spares (fun u => ∃ l ∈ places, l <+: u) fs fs' where
  entry? u hu := by
    rcases h.entry? u with heq | ⟨l, hl, hin | ⟨_, hmade⟩⟩
    · exact .inl heq
    · exact absurd ⟨l, hl, hin⟩ hu
    · exact .inr hmade
  start := h.start

end Changes

section Reset

variable {fs fs' : FileSystem} {root : Path} {s : String} {u : Unit}

theorem leadsBack_of_avoids {n : Name} (hway : ∀ u ∈ fs.trail root, ¬ fs.place root n <+: u) :
    LeadsBack fs root n := by
  intro k v hr hd k' v' hr'
  rw [place, hr.destination_eq] at hway
  have htrail := (swept_clear hd).spares.trail_eq hway
  rw [← hr'.destination_eq, destination_congr htrail, hr.destination_eq]

theorem resetDir_spares (hs : IsEntryName (Utf8.encode s))
    (hway : ∀ u ∈ fs.trail root, ¬ fs.place root (Utf8.encode s) <+: u) :
    Spares (fs.place root (Utf8.encode s) <+: ·) fs
      (Action.stateAfter (resetDir (root / s) fs)) := by
  obtain ⟨made, hmade, hgrows⟩ := resetDir_swept hs (leadsBack_of_avoids hway)
  rcases hmade with ⟨rfl, _⟩ | ⟨k, v, hr, _, hswept⟩
  · exact hgrows.spares _
  · rw [place, hr.destination_eq]
    exact hswept.spares.trans (hgrows.spares _)

theorem isDir_of_resetDir (hs : IsEntryName (Utf8.encode s))
    (h : resetDir (root / s) fs = .ok u fs') : fs'.isDir (root / s) := by
  have hne : (root / s).bytes ≠ [] := Path.bytes_ne_nil_of_steps (Path.steps_entry root s hs)
  rw [resetDir] at h
  split at h
  · obtain ⟨_, made, _, hmake⟩ := Action.bind_ok_iff.mp h
    exact isDir_of_makeDirs hne hmake
  · exact isDir_of_makeDirs hne h
  · cases h

/-- A directory that has been made anew stands in its place and holds no links, unless the way to it was
missing while something stood there. -/
theorem resetDir_opens (hs : IsEntryName (Utf8.encode s))
    (hway : ∀ u ∈ fs.trail root, ¬ fs.place root (Utf8.encode s) <+: u)
    (hnone : fs.inspect (root / s) = .error (.system .noEntry) →
      fs.entry? (fs.place root (Utf8.encode s)) = none)
    (h : resetDir (root / s) fs = .ok u fs') :
    (∃ k, Reaches fs' root k (fs.destination root)) ∧
      fs'.isDirAt (fs.place root (Utf8.encode s)) ∧
      ∀ u, fs.place root (Utf8.encode s) <+: u → fs'.linkAt? u = none := by
  have hspares := resetDir_spares hs hway
  obtain ⟨made, hmade, hgrows⟩ := resetDir_swept hs (leadsBack_of_avoids hway)
  rw [h] at hspares hgrows hmade
  change Spares _ fs fs' at hspares
  change Grows made fs' at hgrows
  have hlinks : ∀ u, fs.place root (Utf8.encode s) <+: u → fs'.linkAt? u = none := by
    intro u hu
    rw [hgrows.linkAt?, FileSystem.linkAt?]
    rcases hmade with ⟨rfl, hinspect | ⟨_, hfail⟩⟩ | ⟨k, v, hr, _, hswept⟩
    · rw [entry?_below_none _ _ u (hnone hinspect) hu]
    · cases hfail
    · rw [place, hr.destination_eq] at hu
      by_cases hne : u = v ++ [Utf8.encode s]
      · rcases hswept.self with hself | hself <;> rw [hne, hself]
      · rw [hswept.below u hu hne]
  -- What the path leads to now is the entry itself, as no link stands there.
  obtain ⟨l?, hf⟩ := find_of_isDir (isDir_of_resetDir hs h)
  obtain ⟨l, rfl, _⟩ := location_of_find (by decide) (Path.namesOf_entry_ne_nil root s hs) hf
  obtain ⟨_, ⟨k, hr⟩, he⟩ := find_follow_iff.mp hf
  have hdest : fs'.destination root = fs.destination root :=
    destination_congr (hspares.trail_eq hway)
  have hplace : fs'.place root (Utf8.encode s) = fs.place root (Utf8.encode s) := by
    rw [place, place, hdest]
  obtain ⟨k', v, hroot, _, hleads⟩ := (reaches_entry_iff hs).mp hr
  obtain rfl : fs.destination root = v := by rw [← hdest, hroot.destination_eq]
  obtain ⟨_, rfl⟩ := hleads.eq_of_name (hlinks _ List.prefix_rfl)
  exact ⟨⟨k', hroot⟩, (isDirAt_iff _ _).mpr he, hlinks⟩

theorem entry?_of_inspect_noEntry {k : Nat} {v : Location} (hs : IsEntryName (Utf8.encode s))
    (hn : Nameable (root / s)) (hlen : (Utf8.encode s).length ≤ maxNameLength)
    (hr : Reaches fs root k v) (hv : fs.isDirAt v)
    (h : fs.inspect (root / s) = .error (.system .noEntry)) :
    fs.entry? (v ++ [Utf8.encode s]) = none := by
  by_contra hne
  have hloc := (locate_entry_iff (.inl rfl) hs).mpr ⟨hn, hlen, k, v, hr, hv, rfl⟩
  obtain ⟨e, he⟩ := Option.ne_none_iff_exists'.mp hne
  rw [if_neg hne] at hloc
  rw [inspect, find, hloc] at h
  simp only [he] at h
  cases h

end Reset

end FileSystem

end LaunchDist
