import LaunchDist.Proofs.FileSystem.Linkless
/-!
# Paths that are read while files are edited

Where no link stands, edits that replace nothing on the trail of a path do not change what it leads to.
So a copy is one more edit, which puts what stood at its source before all of them.
-/
namespace LaunchDist

namespace FileSystem

open LaunchDist.Path (Step namesOf IsEntryName)

section Trail

variable {fs fs' : FileSystem} {p : Path} {xs : List Step} {k : Nat} {l : Location} {e : DirEntry}
  {edits : List Edit}

theorem Linkless.getLast?_trailSteps (hlinks : Linkless fs) (hup : Step.up ∉ xs) :
    (fs.trailSteps k l xs).getLast? = some (l ++ namesOf xs) := by
  induction xs generalizing l with
  | nil =>
    rw [trailSteps_nil]
    exact congrArg some (List.append_nil l).symm
  | cons s rest ih =>
    have hrest : Step.up ∉ rest := fun hm => hup (List.mem_cons_of_mem _ hm)
    cases s with
    | here =>
      rw [trailSteps_stay _ _ _ _ _ (.inl rfl)]
      exact ih hrest
    | slash =>
      rw [trailSteps_stay _ _ _ _ _ (.inr rfl)]
      exact ih hrest
    | up => exact absurd List.mem_cons_self hup
    | name n =>
      have hnames : namesOf (.name n :: rest) = n :: namesOf rest := rfl
      rw [trailSteps_enter _ _ _ _ _ (hlinks _),
        List.getLast?_cons_of_ne_nil (List.ne_nil_of_mem (start_mem_trailSteps ..)), ih hrest, hnames,
        List.append_assoc, List.singleton_append]

theorem Linkless.destination_eq_down (hlinks : Linkless fs) (hup : Step.up ∉ p.moves)
    (hlost : p.isAbsolute = true ∨ fs.lostLevels = 0) : fs.destination p = fs.down p := by
  have hup' : Step.up ∉ p.steps := p.up_notMem_steps_iff.mpr hup
  have hlast : (fs.trailSteps maxLinks (fs.startOf p.isAbsolute) p.steps).getLast? =
      some (fs.down p) := by
    rw [hlinks.getLast?_trailSteps hup', Path.namesOf_steps, down]
  rw [destination, trail, origin?, originOf_eq_start fs _ _ hlost]
  rw [List.getLastD_eq_getLast?, hlast]
  rfl

theorem Linkless.place_eq_down (hlinks : Linkless fs) (hup : Step.up ∉ p.moves)
    (hlost : p.isAbsolute = true ∨ fs.lostLevels = 0) {s : String}
    (hs : IsEntryName (Utf8.encode s)) : fs.place p (Utf8.encode s) = fs.down (p / s) := by
  rw [place, hlinks.destination_eq_down hup hlost, down_entry hs]

theorem EditedBy.trail_eq (h : EditedBy edits fs fs') (hlinks : Linkless fs)
    (hstart : p.isAbsolute = true ∨ SameStart fs fs') : fs'.trail p = fs.trail p := by
  apply trail_congr hstart
  intro u _
  rw [h.linkless hlinks u, hlinks u]

theorem EditedBy.find (h : EditedBy edits fs fs') (ha : p.isAbsolute = true)
    (hout : ∀ u ∈ fs.trail p, ∀ edit ∈ edits, ¬ edit.Replaces u)
    (hf : fs.find .follow p = .ok (some l, e)) : fs'.find .follow p = .ok (some l, e) := by
  apply find_of_same hf (.inl ha)
  intro u hu
  rcases h.apart (hout u hu) with heq | ⟨hn, _⟩
  · exact heq
  · exact absurd hn (entry?_ne_none_of_find hf u hu)

/-- A path that finds something does so where it led before the edits, unless it starts in a removed
directory. -/
theorem EditedBy.eq_destination (h : EditedBy edits fs fs') (hlinks : Linkless fs)
    (hp : p.isAbsolute = true ∨ Step.up ∉ p.moves) (hf : fs'.find .follow p = .ok (some l, e)) :
    (p.isAbsolute = true ∨ SameStart fs fs') ∧ l = fs.destination p ∧ fs'.entry? l = some e := by
  obtain ⟨_, ⟨k, hr⟩, he⟩ := find_follow_iff.mp hf
  have hstart : p.isAbsolute = true ∨ SameStart fs fs' := by
    rcases hp with ha | hup
    · exact .inl ha
    · exact (hr.not_lost hup).imp_right h.sameStart_of_not_lost
  exact ⟨hstart, by rw [← destination_congr (h.trail_eq hlinks hstart), hr.destination_eq], he⟩

end Trail

section Straight

variable {fs fs' : FileSystem} {p src : Path} {s : String} {edits : List Edit}

theorem Straight.parent (h : Straight fs (p / s)) (hs : IsEntryName (Utf8.encode s))
    (hne : p.bytes ≠ []) : Straight fs p := by
  obtain ⟨hn, _, hup, hlost, hlen, hstart⟩ := (straight_entry_iff hs).mp h
  have hsub : p.bytes.Sublist (p / s).bytes :=
    Path.sublist_join p (Path.ofString s) hs.isAbsolute
  exact ⟨hn.of_sublist hsub hne, hup, hlost, hlen, hstart⟩

theorem EditedBy.find_file_iff (h : EditedBy edits fs fs') (hlinks : Linkless fs)
    (hs : IsEntryName (Utf8.encode s)) (hup : Step.up ∉ p.moves)
    (hstart : (p / s).isAbsolute = true ∨ SameStart fs fs')
    (hout : ∀ edit ∈ edits, ¬ edit.Replaces (fs.down (p / s))) {l : Location} {mode : Mode}
    {content : Bytes} :
    fs'.find .follow (p / s) = .ok (some l, .file mode content) ↔
      fs.find .follow (p / s) = .ok (some l, .file mode content) := by
  have hdown : fs'.down (p / s) = fs.down (p / s) := down_congr hstart
  rw [(h.linkless hlinks).find_entry_iff (by decide) hs hup, hlinks.find_entry_iff (by decide) hs hup,
    hdown, h.entry?_file_iff hout]
  constructor
  · rintro ⟨hp, hl, he⟩
    refine ⟨hp.congr (hstart.imp_right SameStart.symm) fun ha => ?_, hl, he⟩
    -- Where the path starts, a directory stands above the file.
    have hsame := hstart.resolve_left (by rw [ha]; decide)
    have hd : fs.isDirAt (fs.down p) := isDirAt_down hs (by rw [he]; exact Option.some_ne_none _)
    rw [hsame.1]
    rw [Path.isAbsolute_entry p s hs] at ha
    rw [down, startOf, ha] at hd
    exact isDirAt_of_prefix fs _ _ hd (List.prefix_append _ _)
  · rintro ⟨hp, hl, he⟩
    exact ⟨h.straight hp hstart, hl, he⟩

/-- A copy from a source that no edit has replaced puts what stood there before the edits. -/
theorem EditedBy.copyFile {fs'' : FileSystem} (h : EditedBy edits fs fs') (hlinks : Linkless fs)
    (hs : IsEntryName (Utf8.encode s)) (hup : Step.up ∉ p.moves)
    (hsrc : src.isAbsolute = true ∨ Step.up ∉ src.moves)
    (hout : ∀ edit ∈ edits, ¬ edit.Replaces (fs.destination src))
    (hne : fs.destination src ≠ fs.down (p / s))
    (hcopy : fs'.copyFile src (p / s) = .ok fs'') :
    Straight fs' (p / s) ∧ (src.isAbsolute = true ∨ fs'.lostLevels = 0) ∧
      EditedBy [.put (fs.down (p / s)) (fs.entry? (fs.destination src))] fs' fs'' := by
  have hlinks' := h.linkless hlinks
  obtain ⟨hp, _, l, mode, content, hf, hedited⟩ := hlinks'.copyFile_ok hs hup hcopy
  obtain ⟨hstart, rfl, he⟩ := h.eq_destination hlinks hsrc hf
  have hdown : fs'.down (p / s) = fs.down (p / s) :=
    down_congr (hp.not_lost.imp_right h.sameStart_of_not_lost)
  rw [hdown, ← (h.entry?_file_iff hout).mp he] at hedited
  refine ⟨hp, ?_, hedited hne⟩
  rcases hsrc with ha | hup
  · exact .inl ha
  · obtain ⟨_, ⟨k, hr⟩, _⟩ := find_follow_iff.mp hf
    exact hr.not_lost hup

end Straight

end FileSystem

end LaunchDist
