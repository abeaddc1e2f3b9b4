import LaunchDist.Proofs.FileSystem.Files
import LaunchDist.Proofs.FileSystem.Growth
import LaunchDist.Proofs.FileSystem.Passable
import LaunchDist.Proofs.FileSystem.Planting
/-!
# Changes that are confined to some places

A change at some places leaves everything else as it was, but for new directories on the way to one of
them. Making a directory, or making it anew, is confined to the place that its path names, whether or
not it succeeds.
-/
namespace LaunchDist

namespace FileSystem

open LaunchDist.Path (Step namesOf IsEntryName)

/-- Whether two states differ only at some places and below them, and in new directories on the way to
one of them. -/
structure Confined (places : List Location) (fs fs' : FileSystem) : Prop where
  entry? : ∀ u, fs'.entry? u = fs.entry? u ∨
    ∃ l ∈ places, l <+: u ∨ u <+: l ∧ fs.entry? u = none ∧ fs'.entry? u = some .dir
  start : SameStart fs fs' ∨ ∃ l ∈ places, l <+: fs.workingDir

namespace Confined

variable {places places' : List Location} {fs fs' fs'' : FileSystem} {l l' u : Location}

theorem refl (places : List Location) (fs : FileSystem) : Confined places fs fs :=
  ⟨fun _ => .inl rfl, .inl ⟨rfl, rfl⟩⟩

theorem trans (h : Confined places fs fs') (h' : Confined places fs' fs'') :
    Confined places fs fs'' where
  entry? u := by
    rcases h'.entry? u with heq' | ⟨l, hl, hu | ⟨hu, hn, hd⟩⟩
    · rw [heq']
      exact h.entry? u
    · exact .inr ⟨l, hl, .inl hu⟩
    · rcases h.entry? u with heq | ⟨l', hl', hu' | ⟨_, _, hd'⟩⟩
      · exact .inr ⟨l, hl, .inr ⟨hu, by rw [← heq, hn], hd⟩⟩
      · exact .inr ⟨l', hl', .inl hu'⟩
      · rw [hn] at hd'
        cases hd'
  start := by
    rcases h.start with hs | hw
    · exact h'.start.imp hs.trans fun ⟨l, hl, hw⟩ => ⟨l, hl, by rwa [← hs.1]⟩
    · exact .inr hw

theorem widen (h : Confined places fs fs') (hplaces : ∀ l ∈ places, ∃ l' ∈ places', l' <+: l) :
    Confined places' fs fs' where
  entry? u := by
    refine (h.entry? u).imp_right fun ⟨l, hl, hu⟩ => ?_
    obtain ⟨l', hl', hp⟩ := hplaces l hl
    rcases hu with hu | ⟨hu, hnew⟩
    · exact ⟨l', hl', .inl (hp.trans hu)⟩
    · exact ⟨l', hl', (List.prefix_or_prefix_of_prefix hp hu).imp_right fun hu' => ⟨hu', hnew⟩⟩
  start := h.start.imp_right fun ⟨l, hl, hw⟩ => by
    obtain ⟨l', hl', hp⟩ := hplaces l hl
    exact ⟨l', hl', hp.trans hw⟩

theorem mono (h : Confined places fs fs') (hplaces : places ⊆ places') : Confined places' fs fs' :=
  h.widen fun l hl => ⟨l, hplaces hl, List.prefix_refl _⟩

theorem apart (h : Confined places fs fs') (hl : ∀ l' ∈ places, ¬ l' <+: l ∧ ¬ l <+: l')
    (hu : l <+: u) : fs'.entry? u = fs.entry? u := by
  refine (h.entry? u).resolve_right fun ⟨l', hl', hu'⟩ => ?_
  obtain ⟨hno, hno'⟩ := hl l' hl'
  rcases hu' with hu' | ⟨hu', _⟩
  · exact (List.prefix_or_prefix_of_prefix hu' hu).elim hno hno'
  · exact hno' (hu.trans hu')

theorem put (hw : Writable fs l) (hl : ∃ l' ∈ places, l' <+: l) (mode : Mode) (content : Bytes) :
    Confined places fs (fs.put l (.file mode content)) where
  entry? u := by
    rw [hw.entry?_put]
    by_cases hu : u = l
    · subst hu
      obtain ⟨l', hl', hp⟩ := hl
      exact .inr ⟨l', hl', .inl hp⟩
    · rw [if_neg hu]
      exact .inl rfl
  start := .inl (sameStart_put ..)

end Confined

section MakeDirs

variable {fs fs' : FileSystem} {q root : Path} {s : String} {u : Unit} {e : FileFailure}

private theorem state_of_lead (fs : FileSystem) (absolute : Bool) {lead : List Step}
    (hlead : lead = [] ∨ lead = [.here])
    (hq : q.steps = lead) :
    Action.stateAfter (makeDirsFrom q (Path.shorter absolute lead.reverse) fs) = fs := by
  cases h : makeDirsFrom q (Path.shorter absolute lead.reverse) fs with
  | ok u fs' => exact eq_of_makeDirsFrom_lead hlead hq h
  | error e fs' =>
    rcases hlead with rfl | rfl
    · rcases state_of_makeDirAfter_error h with rfl | hfail | hmade
      · rfl
      · cases hfail
        rfl
      · cases hmade
    · rcases state_of_makeDirAfter_error h with rfl | hfail | hmade
      · rfl
      · cases (makeDirsFrom_nil absolute).symm.trans hfail
      · cases (makeDirsFrom_nil absolute).symm.trans hmade
        rfl

private theorem state_of_lost (absolute : Bool) {lead : List Step} (hlead : lead = [] ∨ lead = [.here])
    {ns : List Name} (hns : ∀ n ∈ ns, IsEntryName n)
    (hlost : ¬ (absolute = true ∨ fs.lostLevels = 0)) (hq : Spells q absolute lead ns) :
    Action.stateAfter
      (makeDirsFrom q (Path.shorter absolute (lead ++ ns.map Step.name).reverse) fs) = fs := by
  induction ns using List.reverseRecOn generalizing q with
  | nil =>
    rw [List.map_nil, List.append_nil]
    exact state_of_lead fs absolute hlead (hq.nil rfl)
  | append_singleton ms n ih =>
    have hms : ∀ m ∈ ms, IsEntryName m := fun m hm => hns m (List.mem_append_left _ hm)
    have hparent := ih hms (spells_ofComponents absolute hlead hms)
    obtain ⟨xs, hsteps, _, hup⟩ := hq.last ms n rfl
    rw [makeDirsFrom_concat]
    cases h : makeDirAfter q (makeDirsFrom (Path.ofComponents absolute (lead ++ ms.map .name))
      (Path.shorter absolute (lead ++ ms.map Step.name).reverse)) fs with
    | ok u fs' =>
      rcases makeDirAfter_ok h with ⟨_, rfl⟩ | ⟨made, hmade, hens⟩
      · rfl
      · obtain rfl : made = fs := by
          rcases hmade with rfl | hmade
          · rfl
          · rwa [hmade] at hparent
        obtain ⟨_, _, ⟨_, _, ho, _⟩, _⟩ := hens.spec hsteps
        rw [hq.isAbsolute] at ho
        exact absurd (not_lost_of_originOf hup (by rw [ho]; exact Option.some_ne_none _)) hlost
    | error e fs' =>
      rcases state_of_makeDirAfter_error h with rfl | hfail | hmade
      · rfl
      · rwa [hfail] at hparent
      · rwa [hmade] at hparent

/-- Directories that could not all be made are the beginning of a chain. If any has been made, the next
name is too long. -/
theorem planted_of_error (absolute : Bool) {lead : List Step}
    (hlead : lead = [] ∨ lead = [.here]) {ns : List Name} (hns : ∀ n ∈ ns, IsEntryName n)
    (hlost : absolute = true ∨ fs.lostLevels = 0) (hq : Spells q absolute lead ns)
    (h : makeDirsFrom q (Path.shorter absolute (lead ++ ns.map Step.name).reverse) fs = .error e fs') :
    ∃ ms rest pre post k v, ns = ms ++ rest ∧ Planted fs (fs.startOf absolute) ms pre post k v ∧
      fs' = fs.plant v post ∧
      (post ≠ [] → e = .system .nameTooLong ∧ ∃ n ∈ rest.head?, maxNameLength < n.length) := by
  have hnothing : Planted fs (fs.startOf absolute) [] [] [] maxLinks (fs.startOf absolute) :=
    ⟨rfl, .done _ _, plantable_nil _ _⟩
  induction ns using List.reverseRecOn generalizing q with
  | nil =>
    have hstate := state_of_lead (q := q) fs absolute hlead (hq.nil rfl)
    rw [List.map_nil, List.append_nil] at h
    rw [h] at hstate
    exact ⟨[], [], [], [], _, _, rfl, hnothing, hstate, fun hne => absurd rfl hne⟩
  | append_singleton ms n ih =>
    have hms : ∀ m ∈ ms, IsEntryName m := fun m hm => hns m (List.mem_append_left _ hm)
    have hparent := spells_ofComponents absolute hlead hms
    rw [makeDirsFrom_concat] at h
    obtain ⟨hb, ⟨rfl, _⟩ | ⟨hmissing, hfail | ⟨hmade, hmake, _⟩⟩⟩ := makeDirAfter_error_iff.mp h
    · exact ⟨[], _, [], [], _, _, rfl, hnothing, rfl, fun hne => absurd rfl hne⟩
    · obtain ⟨ms', rest, pre, post, k, v, rfl, hp, hstate, hlong⟩ := ih hms hparent hfail
      refine ⟨ms', rest ++ [n], pre, post, k, v, List.append_assoc .., hp, hstate, fun hne => ?_⟩
      obtain ⟨he, m, hm, hlen⟩ := hlong hne
      refine ⟨he, m, ?_, hlen⟩
      rw [List.head?_append, hm]
      rfl
    · obtain ⟨pre, post, k, v, hp, rfl, _⟩ :=
        makeDirsFrom_spec absolute lead hlead ms hms hlost hparent hmade
      obtain ⟨xs, hsteps, rfl, hup⟩ := hq.last ms n rfl
      refine ⟨namesOf xs, [n], pre, post, k, v, rfl, hp, rfl, fun hne => ?_⟩
      have hn : Nameable q := nameable_of_noEntry hb (locate_of_makeDir_noEntry hmissing)
      rw [← hq.isAbsolute] at hp hlost
      obtain ⟨he, hlen⟩ := hp.tooLong_of_error hsteps hup hn hlost hne hmake
      exact ⟨he, n, rfl, hlen⟩

/-- A chain of names that are missing on the way of a path to an entry, the first ones of those. -/
structure ChainTo (fs : FileSystem) (root : Path) (n : Name) (post : List Name) (v : Location) :
    Prop where
  up_notMem : Step.up ∉ root.moves
  not_lost : root.isAbsolute = true ∨ fs.lostLevels = 0
  way : ∃ pre rest, namesOf root.moves ++ [n] = pre ++ (post ++ rest) ∧
    WayTo fs (fs.startOf root.isAbsolute) pre (post ++ rest) v
  plantable : Plantable fs v post
  ne_nil : post ≠ []

theorem ChainTo.passable {n : Name} {post : List Name} {v : Location} (h : ChainTo fs root n post v) :
    Passable fs root ∧ v ++ post <+: fs.place root n := by
  obtain ⟨pre, rest, hnames, hway⟩ := h.way
  have hne : post ++ rest ≠ [] := fun hc => h.ne_nil (List.append_eq_nil_iff.mp hc).1
  obtain ⟨hp, hplace⟩ := hway.passable h.up_notMem h.not_lost hnames hne
  rw [hplace, ← List.append_assoc]
  exact ⟨hp, List.prefix_append _ _⟩

/-- What making an entry with its parents leaves, whether or not it succeeds. -/
theorem makeDirs_state (fs : FileSystem) (hs : IsEntryName (Utf8.encode s))
    (hup : Step.up ∉ root.moves) :
    Action.stateAfter (makeDirs (root / s) fs) = fs ∨
      ∃ post v, ChainTo fs root (Utf8.encode s) post v ∧
        Action.stateAfter (makeDirs (root / s) fs) = fs.plant v post := by
  obtain ⟨lead, hlead, hns, hspells, heq⟩ := exists_spells_entry hs hup
  rw [heq]
  by_cases hlost : root.isAbsolute = true ∨ fs.lostLevels = 0
  · -- Whatever comes of it, the beginning of the names has been planted.
    obtain ⟨ms, rest, pre, post, k, v, hnames, hp, hstate⟩ : ∃ ms rest pre post k v,
        namesOf root.moves ++ [Utf8.encode s] = ms ++ rest ∧
          Planted fs (fs.startOf root.isAbsolute) ms pre post k v ∧
          Action.stateAfter (makeDirsFrom (root / s) (Path.shorter root.isAbsolute
            (lead ++ (namesOf root.moves ++ [Utf8.encode s]).map Step.name).reverse) fs) =
            fs.plant v post := by
      cases h : makeDirsFrom (root / s) (Path.shorter root.isAbsolute
          (lead ++ (namesOf root.moves ++ [Utf8.encode s]).map Step.name).reverse) fs with
      | ok u fs' =>
        obtain ⟨pre, post, k, v, hp, hstate, _⟩ :=
          makeDirsFrom_spec root.isAbsolute lead hlead _ hns hlost hspells h
        exact ⟨_, [], pre, post, k, v, (List.append_nil _).symm, hp, hstate⟩
      | error e fs' =>
        obtain ⟨ms, rest, pre, post, k, v, hnames, hp, hstate, _⟩ :=
          planted_of_error root.isAbsolute hlead hns hlost hspells h
        exact ⟨ms, rest, pre, post, k, v, hnames, hp, hstate⟩
    rw [hstate]
    by_cases hne : post = []
    · exact .inl (by rw [hne]; rfl)
    · refine .inr ⟨post, v, ⟨hup, hlost, ⟨pre, rest, ?_, ⟨k, hp.leads⟩, fun n hn => ?_⟩, hp.plantable,
        hne⟩, rfl⟩
      · rw [hnames, hp.names, List.append_assoc]
      · obtain ⟨m, post, rfl⟩ := List.exists_cons_of_ne_nil hne
        exact hp.plantable.entry? n hn
  · exact .inl (state_of_lost root.isAbsolute hlead hns hlost hspells)

theorem makeDirs_confined (fs : FileSystem) (hs : IsEntryName (Utf8.encode s))
    (hup : Step.up ∉ root.moves) :
    Action.stateAfter (makeDirs (root / s) fs) = fs ∨ Passable fs root ∧
      Confined [fs.place root (Utf8.encode s)] fs (Action.stateAfter (makeDirs (root / s) fs)) := by
  refine (makeDirs_state fs hs hup).imp_right fun ⟨post, v, hchain, hstate⟩ => ?_
  obtain ⟨hp, hplace⟩ := hchain.passable
  rw [hstate]
  refine ⟨hp, fun w => ?_, .inl (sameStart_plant ..)⟩
  refine (entry?_plant_cases hchain.plantable w).imp_right fun ⟨hn, hd, _, _, hw⟩ => ?_
  exact ⟨_, List.mem_singleton_self _, .inr ⟨hw.trans hplace, hn, hd⟩⟩

end MakeDirs

section Reset

variable {fs made : FileSystem} {root : Path} {s : String} {k : Nat} {v w : Location}
  {post : List Name}

/-- Once an entry has been discarded, what is missing on the way to it was part of it. -/
private theorem ChainTo.below_discarded (hchain : ChainTo made root (Utf8.encode s) post v)
    (hr : Reaches fs root k w) (he : Emptied fs made root s (w ++ [Utf8.encode s])) {u : Location}
    (hv : v <+: u) (hne : u ≠ v) (hu : u <+: v ++ post) : w ++ [Utf8.encode s] <+: u := by
  obtain ⟨m, post, rfl⟩ := List.exists_cons_of_ne_nil hchain.ne_nil
  have hmu : v ++ [m] <+: u := by
    obtain ⟨r, rfl⟩ := hv
    cases r with
    | nil => exact absurd (List.append_nil v) hne
    | cons m' r =>
      obtain ⟨rfl, _⟩ := List.cons_prefix_cons.mp ((List.prefix_append_right_inj v).mp hu)
      simp
  refine List.IsPrefix.trans ?_ hmu
  by_contra hno
  obtain ⟨pre, rest, hnames, ⟨k1, hleads⟩, hmissing⟩ := hchain.way
  have hm : fs.entry? (v ++ [m]) = none := by
    rw [← he.apart _ hno]
    exact hmissing m rfl
  -- In the full state the names lead on from there.
  have hstart : made.startOf root.isAbsolute = fs.startOf root.isAbsolute := by
    rw [startOf, startOf]
    rcases he.start.sameStart hchain.not_lost with ha | hsame
    · rw [if_pos ha, if_pos ha]
    · rw [hsame.1]
  rw [hstart] at hleads
  have hpre := hleads.mono he.keeps
  have hup : Step.up ∉ root.steps := root.up_notMem_steps_iff.mpr hchain.up_notMem
  obtain ⟨start, steps, ho, hl⟩ := hr
  rw [originOf_eq_start fs _ _ (not_lost_of_originOf hup (by rw [ho]; exact Option.some_ne_none _))]
    at ho
  cases ho
  have hall := leads_namesOf _ hup hl
  rw [Path.namesOf_steps] at hall
  rcases List.eq_nil_or_concat (post ++ rest) with hnil | ⟨qs, n, hlast⟩
  · rw [List.cons_append, hnil] at hnames
    obtain ⟨hbefore, heq⟩ := List.append_inj' hnames rfl
    obtain rfl := (List.cons.inj heq).1
    rw [hbefore] at hall
    obtain ⟨_, rfl⟩ := hpre.unique hall
    exact hno (List.prefix_refl _)
  · rw [List.cons_append, hlast, List.concat_eq_append, ← List.cons_append, ← List.append_assoc]
      at hnames
    obtain ⟨hbefore, _⟩ := List.append_inj' hnames rfl
    rw [hbefore, List.map_append] at hall
    obtain ⟨_, _, hpre', hpost⟩ := Leads.split _ _ hall
    obtain ⟨rfl, rfl⟩ := hpre.unique hpre'
    obtain ⟨_, _, hfirst, _⟩ := Leads.split [.name m] _ hpost
    exact hfirst.entry?_name_ne_none hm

/-- Whatever comes of making a directory anew, what it changes is confined to the place of the directory,
to which the way is there if anything changes at all. -/
theorem resetDir_confined (fs : FileSystem) (hs : IsEntryName (Utf8.encode s))
    (hup : Step.up ∉ root.moves) :
    Action.stateAfter (resetDir (root / s) fs) = fs ∨ Passable fs root ∧
      Confined [fs.place root (Utf8.encode s)] fs (Action.stateAfter (resetDir (root / s) fs)) := by
  rw [resetDir]
  split
  · rename_i hseen
    right
    obtain ⟨made, hdiscard⟩ := discard_succeeds hs hup hseen
    obtain ⟨k, w, hr, _, he⟩ := discard_spec hs hup hdiscard
    rw [Action.bind_of_ok hdiscard, place, hr.destination_eq]
    have hstart : ∀ fs', SameStart made fs' →
        SameStart fs fs' ∨ ∃ l ∈ [w ++ [Utf8.encode s]], l <+: fs.workingDir := fun fs' hsame =>
      he.start.imp (·.trans hsame) fun hw => ⟨_, List.mem_singleton_self _, hw.1⟩
    have hmade : ∀ u, made.entry? u = fs.entry? u ∨ w ++ [Utf8.encode s] <+: u := fun u =>
      (em (w ++ [Utf8.encode s] <+: u)).symm.imp_left (he.apart u)
    refine ⟨hr.passable hup, fun u => ?_, hstart _ ?_⟩
    · rcases makeDirs_state made hs hup with hstate | ⟨post, v, hchain, hstate⟩
      · rw [hstate]
        exact (hmade u).imp_right fun hu => ⟨_, List.mem_singleton_self _, .inl hu⟩
      · rw [hstate]
        rcases entry?_plant_cases hchain.plantable u with heq | ⟨_, _, hv, hne, hu⟩
        · rw [heq]
          exact (hmade u).imp_right fun hu => ⟨_, List.mem_singleton_self _, .inl hu⟩
        · exact .inr ⟨_, List.mem_singleton_self _, .inl (hchain.below_discarded hr he hv hne hu)⟩
    · exact (grows_makeDirs (root / s) made).sameStart
  · exact makeDirs_confined fs hs hup
  · exact .inl rfl

end Reset

end FileSystem

end LaunchDist
