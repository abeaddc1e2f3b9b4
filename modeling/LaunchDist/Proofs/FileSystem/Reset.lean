import LaunchDist.Proofs.Action
import LaunchDist.Proofs.FileSystem.Directories
/-!
# Making a directory anew

What is discarded is a node with all that is below it. When the directory is made anew it is empty; it
stands where it stood before, unless the path to it led through itself.
-/
namespace LaunchDist

namespace FileSystem

open LaunchDist.Path (Step namesOf IsEntryName)

/-- Whether relative paths start where they did, or in a directory below the location that has been
removed. -/
def StartKept (fs fs' : FileSystem) (l : Location) : Prop :=
  SameStart fs fs' ∨ l <+: fs.workingDir ∧ 0 < fs'.lostLevels

theorem StartKept.sameStart {fs fs' : FileSystem} {l : Location} {p : Path}
    (h : StartKept fs fs' l) (hp : p.isAbsolute = true ∨ fs'.lostLevels = 0) :
    p.isAbsolute = true ∨ SameStart fs fs' := by
  rcases h with h | ⟨_, hlost⟩
  · exact .inr h
  · exact .inl (hp.resolve_right (by omega))

theorem startKept_clear (fs : FileSystem) (l : Location) : StartKept fs (fs.clear l) l := by
  rw [clear]
  by_cases hl : l <+: fs.workingDir
  · rw [if_pos hl]
    by_cases hw : fs.workingDir = l
    · left
      refine ⟨hw.symm, ?_⟩
      change (fs.put l .empty).lostLevels + ((fs.put l .empty).workingDir.length - l.length) = _
      rw [lostLevels_put, workingDir_put, hw, Nat.sub_self, Nat.add_zero]
    · right
      refine ⟨hl, ?_⟩
      have hlen : l.length < fs.workingDir.length :=
        Nat.lt_of_le_of_ne hl.length_le fun he => hw (hl.eq_of_length he).symm
      change 0 < (fs.put l .empty).lostLevels + ((fs.put l .empty).workingDir.length - l.length)
      rw [workingDir_put]
      omega
  · rw [if_neg hl]
    exact .inl (sameStart_put ..)

theorem startKept_remove (fs : FileSystem) (l : Location) (hl : l ≠ []) :
    StartKept fs (fs.remove l) l := by
  rw [remove]
  by_cases hw : l <+: fs.workingDir
  · rw [if_pos hw]
    right
    refine ⟨hw, ?_⟩
    have hlen := hw.length_le
    have hpos := List.length_pos_iff.mpr hl
    change 0 < (fs.update l none).lostLevels +
      ((fs.update l none).workingDir.length - l.dropLast.length)
    rw [workingDir_update, List.length_dropLast]
    omega
  · rw [if_neg hw]
    exact .inl ⟨workingDir_update .., lostLevels_update ..⟩

theorem lostLevels_le_remove (fs : FileSystem) (l : Location) :
    fs.lostLevels ≤ (fs.remove l).lostLevels := by
  rw [remove]
  split
  · change fs.lostLevels ≤ (fs.update l none).lostLevels + _
    rw [lostLevels_update]
    exact Nat.le_add_right _ _
  · rw [lostLevels_update]

theorem startKept_clear_remove (fs : FileSystem) (l : Location) (hl : l ≠ []) :
    StartKept fs ((fs.clear l).remove l) l := by
  rcases startKept_clear fs l with h | ⟨hw, hlost⟩
  · rcases startKept_remove (fs.clear l) l hl with h' | ⟨hw', hlost'⟩
    · exact .inl (h.trans h')
    · exact .inr ⟨by rwa [h.1] at hw', hlost'⟩
  · exact .inr ⟨hw, Nat.lt_of_lt_of_le hlost (lostLevels_le_remove _ _)⟩

theorem Reaches.not_lost {fs : FileSystem} {p : Path} {k : Nat} {v : Location}
    (h : Reaches fs p k v) (hup : Step.up ∉ p.moves) : p.isAbsolute = true ∨ fs.lostLevels = 0 := by
  obtain ⟨start, rest, ho, _⟩ := h
  exact not_lost_of_originOf (p.up_notMem_steps_iff.mpr hup)
    (by rw [ho]; exact Option.some_ne_none _)

section Entry

variable {fs fs' : FileSystem} {purpose : Purpose} {root : Path} {s : String}

theorem find_entry (hp : purpose = .inspect ∨ purpose = .directory)
    (hs : IsEntryName (Utf8.encode s)) {l? : Option Location} {e : DirEntry}
    (h : fs.find purpose (root / s) = .ok (l?, e)) :
    ∃ k v, Reaches fs root k v ∧ fs.isDirAt v ∧ l? = some (v ++ [Utf8.encode s]) ∧
      fs.entry? (v ++ [Utf8.encode s]) = some e := by
  have hcan : purpose ≠ .canonical := by rcases hp with rfl | rfl <;> decide
  have hnames := Path.namesOf_entry_ne_nil root s hs
  obtain ⟨l, rfl, hloc, he⟩ := location_of_find hcan hnames h
  obtain ⟨_, _, k, v, hr, hv, hspot⟩ := (locate_entry_iff hp hs).mp hloc
  obtain ⟨_, rfl⟩ := eq_of_found hspot
  exact ⟨k, v, hr, hv, rfl, he⟩

theorem find_dir_entry (hn : Nameable (root / s)) (hs : IsEntryName (Utf8.encode s))
    (hlen : (Utf8.encode s).length ≤ maxNameLength) {k : Nat} {v : Location}
    (hr : Reaches fs root k v) (he : fs.entry? (v ++ [Utf8.encode s]) = some .dir) :
    fs.find .follow (root / s) = .ok (some (v ++ [Utf8.encode s]), .dir) := by
  have hne : fs.entry? (v ++ [Utf8.encode s]) ≠ none := by
    rw [he]
    exact Option.some_ne_none _
  have hv : fs.isDirAt v := isDirAt_of_below fs v _ [] hne
  exact find_follow_iff.mpr ⟨hn, ⟨k, (reaches_entry_iff hs).mpr ⟨k, v, hr, hv, .enter hv hlen hne
    (linkAt?_of_isDirAt ((isDirAt_iff _ _).mpr he)) (.done _ _)⟩⟩, he⟩

theorem inspect_dir_entry (hs : IsEntryName (Utf8.encode s)) {k : Nat} {v : Location}
    (hr : Reaches fs root k v) (he : fs.entry? (v ++ [Utf8.encode s]) = some .dir)
    (hdir : fs.isDir (root / s)) : fs.inspect (root / s) = .ok .dir := by
  obtain ⟨l?, e, hi⟩ := exists_find_of_isDir (.inl rfl) hdir
  obtain ⟨k', v', hr', _, _, he'⟩ := find_entry (.inl rfl) hs hi
  obtain ⟨_, rfl⟩ := hr.unique hr'
  rw [he] at he'
  rw [FileSystem.inspect, hi, ← Option.some.inj he']
  rfl

theorem inspect_ok {p : Path} {e : DirEntry} (h : fs.inspect p = .ok e) :
    ∃ l?, fs.find .inspect p = .ok (l?, e) := by
  rw [inspect] at h
  cases hf : fs.find .inspect p with
  | error failure => rw [hf] at h; cases h
  | ok found =>
    rw [hf] at h
    cases h
    exact ⟨_, rfl⟩

theorem unlink_spec {p : Path} (h : fs.unlink p = .ok fs') :
    ∃ l e, fs.find .inspect p = .ok (some l, e) ∧ fs' = fs.remove l := by
  rw [unlink] at h
  split at h
  case h_4 => cases h
  case h_5 => cases h
  all_goals
    rename_i hf
    exact ⟨_, _, hf, (Except.ok.inj h).symm⟩

theorem removeDir_spec {p : Path} (h : fs.removeDir p = .ok fs') :
    ∃ l, fs.find .directory p = .ok (some l, .dir) ∧ fs' = fs.remove l := by
  rw [removeDir] at h
  split at h
  · cases h
  · rename_i found hf
    split at h
    · cases h
    · cases h
    · rename_i l _
      split at h
      · cases h
      · exact ⟨l, hf, (Except.ok.inj h).symm⟩
    · cases h
    · cases h

theorem removeDir_noEntry {p : Path} (h : fs.removeDir p = .error (.system .noEntry)) :
    fs.find .directory p = .error (.system .noEntry) := by
  have hne : ∀ e, e ≠ Errno.noEntry →
      (.error (.system e) : Except FileFailure FileSystem) ≠ .error (.system .noEntry) := by
    intro e he heq
    exact he (FileFailure.system.inj (Except.error.inj heq))
  rw [removeDir] at h
  split at h
  · rename_i hf
    rw [hf]
    exact congrArg _ (Except.error.inj h)
  · split at h
    · exact absurd h (hne _ (by decide))
    · exact absurd h (hne _ (by decide))
    · split at h
      · exact absurd h (hne _ (by decide))
      · cases h
    · exact absurd h (hne _ (by decide))
    · exact absurd h (hne _ (by decide))

end Entry

/-- What is left of a node that has been discarded: nothing, or an empty directory that could not be
removed since the path to it was gone with what was in it. -/
structure Emptied (fs fs' : FileSystem) (root : Path) (s : String) (l : Location) : Prop where
  apart : ∀ u, ¬ l <+: u → fs'.entry? u = fs.entry? u
  below : ∀ u, l <+: u → u ≠ l → fs'.entry? u = none
  self : fs'.entry? l = none ∨
    fs.entry? l = some .dir ∧ fs'.entry? l = some .dir ∧ ¬ fs'.isDir (root / s)
  start : StartKept fs fs' l

section Discard

variable {fs fs' : FileSystem} {root : Path} {s : String} {u : Unit}

private theorem emptied_remove (l : Location) (hl : l ≠ []) : Emptied fs (fs.remove l) root s l where
  apart v hv := by rw [entry?_remove fs l v hl, if_neg hv]
  below v hv _ := by rw [entry?_remove fs l v hl, if_pos hv]
  self := .inl (by rw [entry?_remove fs l l hl, if_pos (List.prefix_refl _)])
  start := startKept_remove fs l hl

theorem keeps_of_clear {l : Location} (hd : fs.isDirAt l) : Keeps (fs.clear l) fs := by
  intro v hv
  rw [entry?_clear fs l v hd] at hv ⊢
  by_cases hl : l <+: v ∧ v ≠ l
  · rw [if_pos hl] at hv
    exact absurd rfl hv
  · rw [if_neg hl]

private theorem removeTree_spec (hs : IsEntryName (Utf8.encode s)) (hup : Step.up ∉ root.moves)
    {k : Nat} {v : Location} (hr : Reaches fs root k v) (l? : Option Location)
    (hf : fs.find .inspect (root / s) = .ok (l?, .dir)) (h : removeTree (root / s) fs = .ok u fs') :
    Emptied fs fs' root s (v ++ [Utf8.encode s]) := by
  obtain ⟨k1, w, hr', _, rfl, he⟩ := find_entry (.inl rfl) hs hf
  obtain ⟨rfl, rfl⟩ := hr.unique hr'
  have hd : fs.isDirAt (v ++ [Utf8.encode s]) := (isDirAt_iff _ _).mpr he
  have hclear := fun u => entry?_clear fs (v ++ [Utf8.encode s]) u hd
  rw [removeTree, hf] at h
  simp only [Option.elim_some] at h
  split at h
  · rename_i made hrem
    cases h
    obtain ⟨l, hf', rfl⟩ := removeDir_spec hrem
    obtain ⟨k2, w, hr2, _, hl, _⟩ := find_entry (.inr rfl) hs hf'
    obtain rfl := Option.some.inj hl
    -- With less in the way the path still ends in the same place.
    have hsame := (startKept_clear fs (v ++ [Utf8.encode s])).sameStart (hr2.not_lost hup)
    have hback : root.isAbsolute = true ∨ SameStart (fs.clear (v ++ [Utf8.encode s])) fs :=
      hsame.imp_right fun h => ⟨h.1.symm, h.2.symm⟩
    obtain ⟨_, rfl⟩ := hr.unique (hr2.mono (keeps_of_clear hd) hback)
    refine ⟨fun u hu => ?_, fun u hu _ => ?_, .inl ?_, startKept_clear_remove _ _ (by simp)⟩
    · rw [entry?_remove _ _ _ (by simp), if_neg hu, hclear, if_neg (fun hc => hu hc.1)]
    · rw [entry?_remove _ _ _ (by simp), if_pos hu]
    · rw [entry?_remove _ _ _ (by simp), if_pos (List.prefix_refl _)]
  · rename_i hrem
    cases h
    refine ⟨fun u hu => ?_, fun u hu hne => ?_, .inr ⟨he, ?_, ?_⟩, startKept_clear _ _⟩
    · rw [hclear, if_neg (fun hc => hu hc.1)]
    · rw [hclear, if_pos ⟨hu, hne⟩]
    · rw [hclear, if_neg (fun hc => hc.2 rfl), he]
    · intro hdir
      obtain ⟨l, e, hf'⟩ := exists_find_of_isDir (.inr rfl) hdir
      rw [removeDir_noEntry hrem] at hf'
      cases hf'
  · cases h

theorem discard_spec (hs : IsEntryName (Utf8.encode s)) (hup : Step.up ∉ root.moves)
    (h : discard (root / s) fs = .ok u fs') :
    ∃ k v, Reaches fs root k v ∧ fs.isDirAt v ∧ Emptied fs fs' root s (v ++ [Utf8.encode s]) := by
  rw [discard] at h
  split at h
  · rename_i hi
    obtain ⟨l?, hf⟩ := inspect_ok hi
    obtain ⟨k, v, hr, hv, _⟩ := find_entry (.inl rfl) hs hf
    exact ⟨k, v, hr, hv, removeTree_spec hs hup hr l? hf h⟩
  · rw [Change.atomic] at h
    split at h
    · rename_i made hunlink
      cases h
      obtain ⟨l, e, hf, rfl⟩ := unlink_spec hunlink
      obtain ⟨k, v, hr, hv, hl, _⟩ := find_entry (.inl rfl) hs hf
      obtain rfl := Option.some.inj hl
      exact ⟨k, v, hr, hv, emptied_remove _ (by simp)⟩
    · cases h
  · cases h

end Discard

/-- The state in which a directory has been made anew at an entry of the directory `home`, to which
the path `root` leads then. -/
structure Renewed (fs fs' : FileSystem) (root : Path) (n : Name) (home : Location) : Prop where
  reaches : ∃ k, Reaches fs' root k home
  isDirAt : fs'.isDirAt (home ++ [n])
  empty : ∀ u, home ++ [n] <+: u → u ≠ home ++ [n] → fs'.entry? u = none
  apart : ∀ u, ¬ fs.place root n <+: u →
    fs'.entry? u = fs.entry? u ∨
      fs.entry? u = none ∧ fs'.entry? u = some .dir ∧ u <+: home ++ [n]
  inside : ∀ u, fs.place root n <+: u → fs'.entry? u = none ∨ fs'.entry? u = some .dir
  /-- The way to the directory `home` is another one than before only if it led through the entry. -/
  home : fs'.trail root = fs.trail root ∨ (∃ u ∈ fs.trail root, fs.place root n <+: u) ∧
    fs.place root n <+: home ∧ ∀ m, m ≠ n → fs'.entry? (home ++ [m]) = none
  start : StartKept fs fs' (fs.place root n)

section Planted

variable {fs : FileSystem} {root : Path} {pre post : List Name} {n : Name} {k : Nat} {v : Location}

/-- What is known when a directory has been planted as the end of a new chain. -/
private structure PlantedAt (fs : FileSystem) (root : Path) (n : Name) (pre post : List Name)
    (k : Nat) (v : Location) : Prop where
  up_notMem : Step.up ∉ root.moves
  not_lost : root.isAbsolute = true ∨ fs.lostLevels = 0
  names : namesOf root.moves = pre ++ post
  leads : Leads fs maxLinks (fs.startOf root.isAbsolute) (pre.map .name) k v
  plantable : Plantable fs v (post ++ [n])

namespace PlantedAt

variable (h : PlantedAt fs root n pre post k v)

include h

private theorem entry?_home : entry? (fs.plant v (post ++ [n])) (v ++ post ++ [n]) = some .dir := by
  rw [entry?_plant h.plantable, if_pos ⟨by simp, by simp, by simp⟩]

private theorem isDirAt_home : (fs.plant v (post ++ [n])).isDirAt (v ++ post) :=
  isDirAt_of_below _ (v ++ post) n [] (by rw [h.entry?_home]; exact Option.some_ne_none _)

private theorem origin :
    (fs.plant v (post ++ [n])).originOf root.isAbsolute root.moves =
      some (fs.startOf root.isAbsolute, root.moves) := by
  have hsame := sameStart_plant fs v (post ++ [n])
  rw [originOf_eq_start _ _ _ (by rw [hsame.2]; exact h.not_lost), startOf, startOf, hsame.1]

private theorem leads_pre :
    Leads (fs.plant v (post ++ [n])) maxLinks (fs.startOf root.isAbsolute) (pre.map .name) k v :=
  h.leads.mono (keeps_plant h.plantable)

private theorem leads_moves :
    Leads (fs.plant v (post ++ [n])) maxLinks (fs.startOf root.isAbsolute) root.moves k
      (v ++ post) := by
  apply leads_of_namesOf root.moves h.up_notMem h.isDirAt_home
  rw [h.names, List.map_append]
  refine h.leads_pre.append (leads_names post ?_ ?_ ?_)
  · exact fun m hm => h.plantable.length_le m (List.mem_append_left _ hm)
  · exact entry?_ne_none_of_isDirAt h.isDirAt_home
  · exact linkAt?_of_isDirAt h.isDirAt_home

private theorem reaches : Reaches (fs.plant v (post ++ [n])) root k (v ++ post) :=
  (reaches_iff_moves h.isDirAt_home).mpr ⟨_, _, h.origin, h.leads_moves⟩

/-- The way to the new directory goes along nodes that were there, and then straight down. -/
private theorem mem_trail (u : Location) (hu : u ∈ (fs.plant v (post ++ [n])).trail root) :
    u ∈ fs.trailSteps maxLinks (fs.startOf root.isAbsolute) (pre.map .name) ∨
      v <+: u ∧ u <+: v ++ post := by
  have hlinks := linkAt?_plant h.plantable
  rw [mem_trail_iff_moves h.origin h.leads_moves,
    mem_trailSteps_namesOf root.moves h.up_notMem h.leads_moves, h.names, List.map_append,
    h.leads_pre.mem_trailSteps_append,
    trailSteps_congr fs (fs.plant v (post ++ [n])) _ _ _ (fun u _ => hlinks u)] at hu
  refine hu.imp_right (mem_trailSteps_names post (fun u hv hne hu => ?_) u).mp
  have hend : u <+: v ++ (post ++ [n]) := by
    rw [← List.append_assoc]
    exact hu.trans (List.prefix_append _ _)
  apply linkAt?_of_isDirAt
  rw [isDirAt_iff, entry?_plant h.plantable, if_pos ⟨hv, hne, hend⟩]

private theorem entry?_below (u : Location) (hu : v ++ post ++ [n] <+: u)
    (hne : u ≠ v ++ post ++ [n]) : entry? (fs.plant v (post ++ [n])) u = none := by
  rw [List.append_assoc] at hu hne
  exact entry?_plant_below h.plantable (by simp) u hu hne

end PlantedAt

/-- A directory that is made with its parents was there, or is the end of a new chain. -/
private theorem makeDirs_cases {fs' : FileSystem} {s : String} {u : Unit}
    (hs : IsEntryName (Utf8.encode s)) (hup : Step.up ∉ root.moves)
    (h : makeDirs (root / s) fs = .ok u fs') :
    Nameable (root / s) ∧ (fs.isDir (root / s) ∧ fs' = fs ∨
      ∃ pre post k v, PlantedAt fs root (Utf8.encode s) pre post k v ∧
        fs' = fs.plant v (post ++ [Utf8.encode s])) := by
  obtain ⟨hname, hlost, pre, post, k, v, hp, rfl, hdir⟩ := makeDirs_spec hs hup h
  refine ⟨hname, ?_⟩
  rcases List.eq_nil_or_concat post with rfl | ⟨post, n, rfl⟩
  · exact .inl ⟨hdir rfl, rfl⟩
  · right
    have hnames := hp.names
    rw [List.concat_eq_append, ← List.append_assoc] at hnames
    obtain ⟨hpre, hn⟩ := List.append_inj' hnames rfl
    obtain rfl := (List.cons.inj hn).1
    rw [List.concat_eq_append]
    exact ⟨pre, post, k, v, ⟨hup, hlost, hpre, hp.leads, by simpa using hp.plantable⟩, rfl⟩

private theorem renewed_of_planted (h : PlantedAt fs root n pre post k v) :
    Renewed fs (fs.plant v (post ++ [n])) root n (v ++ post) := by
  have hsame := sameStart_plant fs v (post ++ [n])
  have htrail := trail_congr (p := root) (.inr hsame) fun u _ => linkAt?_plant h.plantable u
  have hhome : v ++ post = fs.destination root := by
    rw [← destination_congr htrail, h.reaches.destination_eq]
  have hplace : fs.place root n = v ++ post ++ [n] := by rw [place, ← hhome]
  refine ⟨⟨k, h.reaches⟩, (isDirAt_iff _ _).mpr h.entry?_home, h.entry?_below, fun u _ => ?_,
    fun u hu => ?_, .inl htrail, .inl hsame⟩
  · rcases entry?_plant_cases h.plantable u with he | ⟨hn, hd, _, _, hu⟩
    · exact .inl he
    · exact .inr ⟨hn, hd, by rwa [List.append_assoc]⟩
  · rw [hplace] at hu
    by_cases hne : u = v ++ post ++ [n]
    · rw [hne]
      exact .inr h.entry?_home
    · exact .inl (h.entry?_below u hu hne)

end Planted

section Reset

variable {fs made : FileSystem} {root : Path} {s : String} {pre post : List Name} {k k0 : Nat}
  {v w : Location}

theorem Emptied.entry?_of_ne_none (he : Emptied fs made root s w) {u : Location}
    (hu : w <+: u) (hne : made.entry? u ≠ none) :
    u = w ∧ fs.entry? w = some .dir ∧ ¬ made.isDir (root / s) := by
  by_cases huw : u = w
  · refine ⟨huw, ?_⟩
    rcases he.self with hn | ⟨hd, _, hdir⟩
    · rw [huw] at hne
      exact absurd hn hne
    · exact ⟨hd, hdir⟩
  · exact absurd (he.below u hu huw) hne

/-- Once the entry has been discarded, its place is free or holds what keeps the path from it. -/
private theorem Emptied.not_isDir (he : Emptied fs made root s (v ++ [Utf8.encode s]))
    (hs : IsEntryName (Utf8.encode s)) (hup : Step.up ∉ root.moves) (hr : Reaches fs root k v) :
    ¬ made.isDir (root / s) := by
  intro hdir
  obtain ⟨l?, e, hf⟩ := exists_find_of_isDir (.inl rfl) hdir
  obtain ⟨k1, w, hr1, hw, _, hent⟩ := find_entry (.inl rfl) hs hf
  have hclear : ∀ u ∈ made.trail root, ¬ v ++ [Utf8.encode s] <+: u := by
    intro u hu hp
    exact (he.entry?_of_ne_none hp (hr1.entry?_ne_none hw u hu)).2.2 hdir
  have hstart := (he.start.sameStart (hr1.not_lost hup)).imp_right fun h =>
    (⟨h.1.symm, h.2.symm⟩ : SameStart made fs)
  have htrail := trail_congr hstart fun u hu => (linkAt?_congr (he.apart u (hclear u hu)).symm)
  obtain rfl : w = v := by
    rw [← hr.destination_eq, destination_congr htrail, hr1.destination_eq]
  have hgone := he.entry?_of_ne_none (List.prefix_refl _) (by rw [hent]; exact Option.some_ne_none _)
  exact hgone.2.2 hdir

theorem Emptied.keeps (he : Emptied fs made root s w) : Keeps made fs := by
  intro u hu
  by_cases hw : w <+: u
  · obtain ⟨rfl, hd, _⟩ := he.entry?_of_ne_none hw hu
    have hmade : made.entry? u = some .dir :=
      (he.self.resolve_left hu).2.1
    rw [hmade, hd]
  · rw [he.apart u hw]

private theorem Emptied.not_prefix_of_mem (he : Emptied fs made root s (w ++ [Utf8.encode s]))
    (hr : Reaches fs root k0 w) (h : PlantedAt made root (Utf8.encode s) pre post k v)
    (hz : ¬ w ++ [Utf8.encode s] <+: v ++ post) (u : Location)
    (hu : u ∈ made.trailSteps maxLinks (made.startOf root.isAbsolute) (pre.map .name)) :
    ¬ w ++ [Utf8.encode s] <+: u := by
  intro hp
  have hv : made.isDirAt v := h.plantable.isDirAt (by simp)
  have hne := h.leads.entry?_ne_none_of_mem
    (entry?_ne_none_of_isDirAt (h.leads.isDirAt_start hv)) u hu
  obtain ⟨rfl, _, _⟩ := he.entry?_of_ne_none hp hne
  -- The path went along the same names to where it led before.
  have hstart : fs.startOf root.isAbsolute = made.startOf root.isAbsolute := by
    rw [startOf, startOf]
    rcases he.start.sameStart h.not_lost with ha | hsame
    · rw [if_pos ha, if_pos ha]
    · rw [hsame.1]
  obtain ⟨start, steps, ho, hl⟩ := hr
  have hup : Step.up ∉ root.steps := root.up_notMem_steps_iff.mpr h.up_notMem
  rw [originOf_eq_start fs _ _ (not_lost_of_originOf hup (by rw [ho]; exact Option.some_ne_none _)),
    hstart] at ho
  cases ho
  have hnames := leads_namesOf _ hup hl
  rw [Path.namesOf_steps, h.names, List.map_append] at hnames
  obtain ⟨k1, v1, hpre, hpost⟩ := Leads.split _ _ hnames
  obtain ⟨rfl, rfl⟩ := hpre.unique (h.leads.mono he.keeps)
  cases post with
  | nil =>
    cases hpost
    exact hne (h.plantable.entry? _ rfl)
  | cons m post =>
    have hm : made.entry? (v1 ++ [m]) = none := h.plantable.entry? m rfl
    obtain ⟨_, _, hfirst, _⟩ := Leads.split [.name m] _ hpost
    by_cases hzm : w ++ [Utf8.encode s] <+: v1 ++ [m]
    · rcases List.prefix_concat_iff.mp hzm with heq | hzv
      · rw [← heq] at hm
        exact hne hm
      · exact hz (hzv.trans (List.prefix_append _ _))
    · rw [he.apart _ hzm] at hm
      exact hfirst.entry?_name_ne_none hm

/-- The way to a directory is as before once it has been made anew, unless the new one stands inside
the place of the old one. -/
private theorem Emptied.way (he : Emptied fs made root s (w ++ [Utf8.encode s]))
    (hr : Reaches fs root k0 w) (h : PlantedAt made root (Utf8.encode s) pre post k v) :
    (made.plant v (post ++ [Utf8.encode s])).trail root = fs.trail root ∨
      (∃ u ∈ fs.trail root, w ++ [Utf8.encode s] <+: u) ∧ w ++ [Utf8.encode s] <+: v ++ post := by
  have hsame := sameStart_plant made v (post ++ [Utf8.encode s])
  have hstart : root.isAbsolute = true ∨ SameStart fs (made.plant v (post ++ [Utf8.encode s])) :=
    (he.start.sameStart h.not_lost).imp_right fun hs => hs.trans hsame
  have hlinks : ∀ u, ¬ w ++ [Utf8.encode s] <+: u →
      (made.plant v (post ++ [Utf8.encode s])).linkAt? u = fs.linkAt? u := fun u hu =>
    (linkAt?_plant h.plantable u).trans (linkAt?_congr (he.apart u hu))
  by_cases hz : w ++ [Utf8.encode s] <+: v ++ post
  · refine .inr ⟨?_, hz⟩
    by_contra hno
    have htrail := trail_congr hstart fun u hu => hlinks u fun hp => hno ⟨u, hu, hp⟩
    exact hno ⟨v ++ post, by rw [← htrail]; exact h.reaches.mem_trail, hz⟩
  · refine .inl (Eq.symm ?_)
    apply trail_congr (hstart.imp_right fun hs => ⟨hs.1.symm, hs.2.symm⟩)
    intro u hu
    refine (hlinks u ?_).symm
    rcases h.mem_trail u hu with hu | ⟨_, hu⟩
    · exact he.not_prefix_of_mem hr h hz u hu
    · exact fun hp => hz (hp.trans hu)

private theorem renewed_of_emptied (he : Emptied fs made root s (w ++ [Utf8.encode s]))
    (hr : Reaches fs root k0 w) (h : PlantedAt made root (Utf8.encode s) pre post k v) :
    Renewed fs (made.plant v (post ++ [Utf8.encode s])) root (Utf8.encode s) (v ++ post) := by
  have hplace : fs.place root (Utf8.encode s) = w ++ [Utf8.encode s] := by
    rw [place, hr.destination_eq]
  have hplant := entry?_plant_cases h.plantable
  have hsame := sameStart_plant made v (post ++ [Utf8.encode s])
  refine ⟨⟨k, h.reaches⟩, (isDirAt_iff _ _).mpr h.entry?_home, h.entry?_below, ?_, ?_, ?_, ?_⟩
  · intro u hu
    rw [hplace] at hu
    rw [← he.apart u hu]
    rcases hplant u with heq | ⟨hn, hd, _, _, hu⟩
    · exact .inl heq
    · exact .inr ⟨hn, hd, by rwa [List.append_assoc]⟩
  · intro u hu
    rw [hplace] at hu
    rcases hplant u with heq | ⟨_, hd, _⟩
    · rw [heq]
      by_cases huw : u = w ++ [Utf8.encode s]
      · rw [huw]
        exact he.self.imp_right fun hd => hd.2.1
      · exact .inl (he.below u hu huw)
    · exact .inr hd
  · rw [hplace]
    rcases he.way hr h with hway | ⟨hinside, hz⟩
    · exact .inl hway
    · refine .inr ⟨hinside, hz, fun m hm => ?_⟩
      rcases hplant (v ++ post ++ [m]) with heq | ⟨_, _, _, _, hu⟩
      · rw [heq]
        apply he.below _ (hz.trans (List.prefix_append _ _))
        intro heq
        have hlen := hz.length_le
        rw [← heq, List.length_append, List.length_singleton] at hlen
        omega
      · rw [← List.append_assoc, List.prefix_append_right_inj] at hu
        exact absurd (List.cons_prefix_cons.mp hu).1 hm
  · rw [hplace]
    rcases he.start with hs | ⟨hw, hlost⟩
    · exact .inl (hs.trans hsame)
    · exact .inr ⟨hw, by rw [hsame.2]; exact hlost⟩

/-- A directory that has been reset is made anew, whatever stood there and on the way there. -/
theorem resetDir_spec {fs' : FileSystem} {u : Unit} (hs : IsEntryName (Utf8.encode s))
    (hup : Step.up ∉ root.moves) (h : resetDir (root / s) fs = .ok u fs') :
    Nameable (root / s) ∧ ∃ home, Renewed fs fs' root (Utf8.encode s) home := by
  rw [resetDir] at h
  split at h
  · obtain ⟨_, made, hdiscard, hmake⟩ := Action.bind_ok_iff.mp h
    obtain ⟨k0, w, hr, _, he⟩ := discard_spec hs hup hdiscard
    obtain ⟨hname, hcase⟩ := makeDirs_cases hs hup hmake
    refine ⟨hname, ?_⟩
    rcases hcase with ⟨hdir, _⟩ | ⟨pre, post, k, v, hp, rfl⟩
    · exact absurd hdir (he.not_isDir hs hup hr)
    · exact ⟨v ++ post, renewed_of_emptied he hr hp⟩
  · rename_i hi
    obtain ⟨hname, hcase⟩ := makeDirs_cases hs hup h
    refine ⟨hname, ?_⟩
    rcases hcase with ⟨hdir, _⟩ | ⟨pre, post, k, v, hp, rfl⟩
    · obtain ⟨l, e, hf⟩ := exists_find_of_isDir (.inl rfl) hdir
      rw [inspect, hf] at hi
      cases hi
    · exact ⟨v ++ post, renewed_of_planted hp⟩
  · cases h

end Reset

end FileSystem

end LaunchDist
