import LaunchDist.Proofs.FileSystem.Edit
import LaunchDist.Proofs.FileSystem.Files
import LaunchDist.Proofs.FileSystem.Growth
import LaunchDist.Proofs.FileSystem.Planting
/-!
# Files without links

Where no link stands, a path that does not go up leads straight down along its names. Every operation at
such a path is an edit, and it succeeds just if the path can be looked up and there is room for the
edit.
-/
namespace LaunchDist

namespace Node

mutual

/-- Whether no symbolic link is among a node and those below it. -/
def isLinkless : Node → Bool
  | .dir children => areLinkless children
  | .file _ _ | .socket => true
  | .link _ => false

def areLinkless : List (Name × Node) → Bool
  | [] => true
  | (_, node) :: rest => node.isLinkless && areLinkless rest

end

theorem isLinkless_of_lookup {children : List (Name × Node)} {n : Name} {node : Node}
    (h : areLinkless children = true) (hn : children.lookup n = some node) :
    node.isLinkless = true := by
  induction children with
  | nil => cases hn
  | cons c rest ih =>
    obtain ⟨m, other⟩ := c
    rw [areLinkless, Bool.and_eq_true] at h
    rw [List.lookup_cons] at hn
    split at hn
    · rw [← Option.some.inj hn]
      exact h.1
    · exact ih h.2 hn

theorem isLinkless_at? {node below : Node} {l : Location} (h : node.isLinkless = true)
    (hl : node.at? l = some below) : below.isLinkless = true := by
  induction l generalizing node with
  | nil => rwa [← Option.some.inj hl]
  | cons n rest ih =>
    obtain ⟨child, hn, hrest⟩ := Option.bind_eq_some_iff.mp hl
    cases node with
    | file mode content => cases hn
    | link target => cases hn
    | socket => cases hn
    | dir children => exact ih (isLinkless_of_lookup (by rwa [isLinkless] at h) hn) hrest

end Node

namespace FileSystem

open LaunchDist.Path (Step namesOf IsEntryName)

/-- Whether no symbolic link stands anywhere. -/
def Linkless (fs : FileSystem) : Prop :=
  ∀ u, fs.linkAt? u = none

theorem linkAt?_of_isLinkless {fs : FileSystem} {l u : Location}
    (h : (fs.node? l).all Node.isLinkless = true) (hu : l <+: u) : fs.linkAt? u = none := by
  obtain ⟨r, rfl⟩ := hu
  cases hl : fs.linkAt? (l ++ r) with
  | none => rfl
  | some target =>
    rw [linkAt?_eq_some_iff, entry?, Option.map_eq_some_iff, node?_append] at hl
    obtain ⟨node, hbelow, he⟩ := hl
    obtain ⟨above, habove, hnode⟩ := Option.bind_eq_some_iff.mp hbelow
    rw [habove, Option.all_some] at h
    have hlinkless := Node.isLinkless_at? h hnode
    cases node with
    | file mode content => cases he
    | dir children => cases he
    | socket => cases he
    | link target => rw [Node.isLinkless] at hlinkless; cases hlinkless

theorem linkless_of_areLinkless {fs : FileSystem} (h : Node.areLinkless fs.children = true) :
    Linkless fs := by
  intro u
  have hroot : (Node.dir fs.children).isLinkless = true := by rwa [Node.isLinkless]
  exact linkAt?_of_isLinkless (l := []) hroot (List.nil_prefix)

theorem Linkless.entry?_cases {fs : FileSystem} (hlinks : Linkless fs) (l : Location) :
    fs.entry? l = none ∨ fs.entry? l = some .dir ∨ fs.entry? l = some .socket ∨
      IsFile (fs.entry? l) := by
  cases he : fs.entry? l with
  | none => exact .inl rfl
  | some e =>
    cases e with
    | dir => exact .inr (.inl rfl)
    | socket => exact .inr (.inr (.inl rfl))
    | file mode content => exact .inr (.inr (.inr ⟨mode, content, rfl⟩))
    | link target =>
      have hlink := (linkAt?_eq_some_iff _ _ _).mpr he
      rw [hlinks] at hlink
      cases hlink

/-- Where a path leads that does not go up, if it meets no link. -/
def down (fs : FileSystem) (p : Path) : Location :=
  fs.startOf p.isAbsolute ++ namesOf p.moves

/-- Whether a path that does not go up can be looked up from where it starts. -/
structure Straight (fs : FileSystem) (p : Path) : Prop where
  nameable : Nameable p
  up_notMem : Step.up ∉ p.moves
  not_lost : p.isAbsolute = true ∨ fs.lostLevels = 0
  length_le : ∀ n ∈ namesOf p.moves, n.length ≤ maxNameLength
  start : fs.isDirAt (fs.startOf p.isAbsolute)

section Down

variable {fs fs' : FileSystem} {p : Path} {s : String} {edits : List Edit}

theorem down_entry (hs : IsEntryName (Utf8.encode s)) :
    fs.down (p / s) = fs.down p ++ [Utf8.encode s] := by
  rw [down, down, Path.isAbsolute_entry p s hs, Path.moves_entry p s hs, Path.namesOf_append,
    List.append_assoc]
  rfl

theorem prefix_down_entry (hs : IsEntryName (Utf8.encode s)) : fs.down p <+: fs.down (p / s) := by
  rw [down_entry hs]
  exact List.prefix_append _ _

theorem isDirAt_down (hs : IsEntryName (Utf8.encode s)) (hne : fs.entry? (fs.down (p / s)) ≠ none) :
    fs.isDirAt (fs.down p) := by
  rw [down_entry hs] at hne
  exact isDirAt_of_below fs _ _ [] hne

theorem startOf_congr (h : p.isAbsolute = true ∨ SameStart fs fs') :
    fs'.startOf p.isAbsolute = fs.startOf p.isAbsolute := by
  rw [startOf, startOf]
  rcases h with ha | hsame
  · rw [if_pos ha, if_pos ha]
  · rw [hsame.1]

theorem down_congr (h : p.isAbsolute = true ∨ SameStart fs fs') : fs'.down p = fs.down p := by
  rw [down, down, startOf_congr h]

theorem isAbsolute_of_entry_above (hs : IsEntryName (Utf8.encode s))
    (h : fs.down (p / s) <+: fs.workingDir) : (p / s).isAbsolute = true := by
  by_contra hno
  rw [down, startOf, if_neg hno] at h
  have hlen := h.length_le
  have hone : (namesOf [Step.name (Utf8.encode s)]).length = 1 := rfl
  rw [Path.moves_entry p s hs, Path.namesOf_append, List.length_append, List.length_append,
    hone] at hlen
  omega

/-- Where a relative path to an entry starts is kept by what changes the files below the entry only. -/
theorem start_of_kept_above (hs : IsEntryName (Utf8.encode s))
    (h : ¬ fs.down (p / s) <+: fs.workingDir → SameStart fs fs') :
    (p / s).isAbsolute = true ∨ SameStart fs fs' := by
  by_cases hw : fs.down (p / s) <+: fs.workingDir
  · exact .inl (isAbsolute_of_entry_above hs hw)
  · exact .inr (h hw)

/-- A path to an entry is straight just if that to its directory is, but for the lengths of the path and
of the name. -/
theorem straight_entry_iff (hs : IsEntryName (Utf8.encode s)) :
    Straight fs (p / s) ↔
      Nameable (p / s) ∧ (Utf8.encode s).length ≤ maxNameLength ∧ Step.up ∉ p.moves ∧
        (p.isAbsolute = true ∨ fs.lostLevels = 0) ∧
        (∀ n ∈ namesOf p.moves, n.length ≤ maxNameLength) ∧
        fs.isDirAt (fs.startOf p.isAbsolute) := by
  have habs := Path.isAbsolute_entry p s hs
  have hmoves := Path.moves_entry p s hs
  have hnames : namesOf (p / s).moves = namesOf p.moves ++ [Utf8.encode s] := by
    rw [hmoves, Path.namesOf_append]
    rfl
  constructor
  · rintro ⟨hn, hup, hlost, hlen, hstart⟩
    rw [habs] at hlost hstart
    rw [hmoves] at hup
    rw [hnames] at hlen
    exact ⟨hn, hlen _ (by simp), fun hm => hup (List.mem_append_left _ hm), hlost,
      fun m hm => hlen m (List.mem_append_left _ hm), hstart⟩
  · rintro ⟨hn, hlast, hup, hlost, hlen, hstart⟩
    refine ⟨hn, ?_, by rwa [habs], fun m hm => ?_, by rwa [habs]⟩
    · rw [hmoves]
      simpa using hup
    · rw [hnames] at hm
      rcases List.mem_append.mp hm with hm | hm
      · exact hlen m hm
      · obtain rfl := List.mem_singleton.mp hm
        exact hlast

theorem Straight.zero_notMem_entry (h : Straight fs p) (hs : IsEntryName (Utf8.encode s))
    (hzero : 0 ∉ Utf8.encode s) : 0 ∉ (p / s).bytes := by
  intro hmem
  exact ((Path.zero_mem_join p (Path.ofString s) hs.isAbsolute).mp hmem).elim h.nameable.zero_notMem hzero

theorem Straight.entry (h : Straight fs p) (hs : IsEntryName (Utf8.encode s))
    (hlen : (Utf8.encode s).length ≤ maxNameLength) (hzero : 0 ∉ Utf8.encode s)
    (hlong : ¬ isTooLong (p / s)) : Straight fs (p / s) := by
  refine (straight_entry_iff hs).mpr
    ⟨⟨?_, ?_, ?_⟩, hlen, h.up_notMem, h.not_lost, h.length_le, h.start⟩
  · exact Bool.eq_false_iff.mpr hlong
  · exact h.zero_notMem_entry hs hzero
  · exact Path.bytes_ne_nil_of_steps (Path.steps_entry p s hs)

theorem Straight.congr (h : Straight fs p) (hstart : p.isAbsolute = true ∨ SameStart fs fs')
    (hd : p.isAbsolute = false → fs'.isDirAt fs.workingDir) : Straight fs' p where
  nameable := h.nameable
  up_notMem := h.up_notMem
  not_lost := by
    rcases hstart with ha | hsame
    · exact .inl ha
    · rw [hsame.2]
      exact h.not_lost
  length_le := h.length_le
  start := by
    cases ha : p.isAbsolute with
    | true =>
      rw [startOf, if_pos rfl]
      exact isDirAt_nil fs'
    | false =>
      have hsame := hstart.resolve_left (by rw [ha]; decide)
      rw [startOf, if_neg (by decide), hsame.1]
      exact hd ha

theorem Straight.isDirAt_workingDir (h : Straight fs p) (ha : p.isAbsolute = false) :
    fs.isDirAt fs.workingDir := by
  have hd := h.start
  rwa [startOf, ha] at hd

theorem Straight.before {q : Path} (h : Straight fs' p) (hq : Straight fs q)
    (habs : q.isAbsolute = p.isAbsolute) (hstart : p.isAbsolute = true ∨ SameStart fs fs') :
    Straight fs p := by
  refine h.congr (hstart.imp_right SameStart.symm) fun ha => ?_
  rw [(hstart.resolve_left (by rw [ha]; decide)).1]
  exact hq.isDirAt_workingDir (habs.trans ha)

theorem Straight.congr_above (hp : Straight fs (p / s)) (hs : IsEntryName (Utf8.encode s))
    (hstart : (p / s).isAbsolute = true ∨ SameStart fs fs')
    (hkept : ∀ u, ¬ fs.down (p / s) <+: u → fs'.entry? u = fs.entry? u) : Straight fs' (p / s) := by
  refine hp.congr hstart fun ha => ?_
  rw [isDirAt_iff, hkept]
  · exact (isDirAt_iff _ _).mp (hp.isDirAt_workingDir ha)
  intro hw
  rw [isAbsolute_of_entry_above hs hw] at ha
  cases ha

theorem EditedBy.straight (h : EditedBy edits fs fs') (hp : Straight fs p)
    (hstart : p.isAbsolute = true ∨ SameStart fs fs') : Straight fs' p := by
  refine hp.congr hstart fun ha => ?_
  have hcwd := hp.isDirAt_workingDir ha
  have hsame := hstart.resolve_left (by rw [ha]; decide)
  rcases h.start with ⟨_, hkept⟩ | ⟨_, hlost⟩
  · exact h.isDirAt hcwd (hkept hcwd)
  · rw [hsame.2, hp.not_lost.resolve_left (by rw [ha]; decide)] at hlost
    exact absurd hlost (Nat.lt_irrefl 0)

theorem EditedBy.linkless (h : EditedBy edits fs fs') (hl : Linkless fs) : Linkless fs' := by
  intro u
  cases hu : fs'.linkAt? u with
  | none => rfl
  | some target =>
    rw [linkAt?_eq_some_iff, h.entry?] at hu
    refine absurd hu (h.fits.applyAll_ne_link target fun hlink => ?_)
    rw [← linkAt?_eq_some_iff, hl u] at hlink
    cases hlink

end Down

section Lookup

variable {fs : FileSystem} {purpose : Purpose} {p : Path} {s : String} {xs : List Step} {k k' : Nat}
  {l v : Location} {spot : Spot} {e : DirEntry}

theorem Linkless.leads (hlinks : Linkless fs) (hup : Step.up ∉ xs) (h : Leads fs k l xs k' v) :
    v = l ++ namesOf xs ∧ ∀ n ∈ namesOf xs, n.length ≤ maxNameLength := by
  induction h with
  | done k l => exact ⟨(List.append_nil l).symm, by simp [namesOf]⟩
  | @stay k l s rest _ _ hs _ _ ih =>
    have hnames : namesOf (s :: rest) = namesOf rest := by rcases hs with rfl | rfl <;> rfl
    rw [hnames]
    exact ih fun hm => hup (List.mem_cons_of_mem _ hm)
  | up => exact absurd List.mem_cons_self hup
  | @enter k l n rest _ _ _ hn _ _ _ ih =>
    obtain ⟨hv, hlen⟩ := ih fun hm => hup (List.mem_cons_of_mem _ hm)
    have hnames : namesOf (.name n :: rest) = n :: namesOf rest := rfl
    rw [hnames]
    refine ⟨by rw [hv, List.append_assoc, List.singleton_append], fun m hm => ?_⟩
    rcases List.mem_cons.mp hm with rfl | hm
    · exact hn
    · exact hlen m hm
  | follow _ _ hl =>
    rw [hlinks] at hl
    cases hl

theorem Linkless.exists_leads (hlinks : Linkless fs) (hup : Step.up ∉ xs)
    (hlen : ∀ n ∈ namesOf xs, n.length ≤ maxNameLength) (hd : fs.isDirAt (l ++ namesOf xs)) :
    Leads fs k l xs k (l ++ namesOf xs) :=
  leads_of_namesOf xs hup hd (leads_names _ hlen (entry?_ne_none_of_isDirAt hd) (hlinks _))

theorem Linkless.locate_entry_iff (hlinks : Linkless fs) (hcan : purpose ≠ .canonical)
    (hs : IsEntryName (Utf8.encode s)) (hup : Step.up ∉ p.moves) :
    fs.locate purpose (p / s) = .ok spot ↔
      Straight fs (p / s) ∧ fs.isDirAt (fs.down p) ∧
        spot = if fs.entry? (fs.down (p / s)) = none then .vacant (fs.down p) (Utf8.encode s)
          else .found (fs.down (p / s)) := by
  have habs := Path.isAbsolute_entry p s hs
  have hsteps := Path.steps_entry p s hs
  rw [down_entry hs]
  constructor
  · intro h
    obtain ⟨k, v, ⟨start, rest, ho, hleads⟩, hv, hlast⟩ := reaches_before hcan hsteps h
    have hlost := not_lost_of_originOf hup (by rw [ho]; exact Option.some_ne_none _)
    rw [originOf_eq_start fs _ _ hlost] at ho
    cases ho
    obtain ⟨hend, hlen⟩ := hlinks.leads hup hleads
    rw [habs] at hend
    obtain ⟨_, hn, hspot⟩ := (lookupSteps_lastEntry hcan (hlinks _)).mp hlast
    rw [habs] at hlost hleads
    rw [down, ← hend]
    exact ⟨(straight_entry_iff hs).mpr ⟨nameable_of_locate h, hn, hup, hlost, hlen,
      hleads.isDirAt_start hv⟩, hv, hspot⟩
  · rintro ⟨hp, hd, rfl⟩
    obtain ⟨hname, hn, _, hlost, hlen, _⟩ := (straight_entry_iff hs).mp hp
    have hleads : Leads fs maxLinks (fs.startOf p.isAbsolute) p.moves maxLinks (fs.down p) :=
      hlinks.exists_leads hup hlen hd
    apply locate_of_reachesAlong hcan hname hsteps
    · rw [habs]
      exact ⟨_, _, originOf_eq_start fs _ _ hlost, hleads⟩
    · exact (lookupSteps_lastEntry hcan (hlinks _)).mpr ⟨hd, hn, rfl⟩

theorem Linkless.find_entry_iff (hlinks : Linkless fs) (hcan : purpose ≠ .canonical)
    (hs : IsEntryName (Utf8.encode s)) (hup : Step.up ∉ p.moves) {l? : Option Location} :
    fs.find purpose (p / s) = .ok (l?, e) ↔
      Straight fs (p / s) ∧ l? = some (fs.down (p / s)) ∧
        fs.entry? (fs.down (p / s)) = some e := by
  constructor
  · intro h
    obtain ⟨l, rfl, hloc, he⟩ := location_of_find hcan (Path.namesOf_entry_ne_nil p s hs) h
    obtain ⟨hp, _, hspot⟩ := (hlinks.locate_entry_iff hcan hs hup).mp hloc
    obtain ⟨_, rfl⟩ := eq_of_found hspot
    exact ⟨hp, rfl, he⟩
  · rintro ⟨hp, rfl, he⟩
    have hne : fs.entry? (fs.down (p / s)) ≠ none := by
      rw [he]
      exact Option.some_ne_none _
    have hd : fs.isDirAt (fs.down p) := isDirAt_down hs hne
    have hloc := (hlinks.locate_entry_iff hcan hs hup).mpr ⟨hp, hd, rfl⟩
    rw [if_neg hne] at hloc
    rw [find, hloc]
    simp only [he]

theorem Linkless.not_lost_of_find (hlinks : Linkless fs) (hs : IsEntryName (Utf8.encode s))
    (hup : Step.up ∉ p.moves) {l? : Option Location} (h : fs.find .follow (p / s) = .ok (l?, e)) :
    p.isAbsolute = true ∨ fs.lostLevels = 0 := by
  have hlost := ((hlinks.find_entry_iff (by decide) hs hup).mp h).1.not_lost
  rwa [Path.isAbsolute_entry p s hs] at hlost

/-- Where only directories stand on the way, a chain can be planted for those that are missing. -/
theorem Linkless.exists_planted (hlinks : Linkless fs) (hd : fs.isDirAt l) (ns : List Name)
    (hlen : ∀ n ∈ ns, n.length ≤ maxNameLength)
    (hfits : (Edit.dirs (l ++ ns)).Fits fs.entry?) :
    ∃ pre post, Planted fs l ns pre post maxLinks (l ++ pre) ∧ fs.isDirAt (l ++ pre) := by
  induction ns generalizing l with
  | nil =>
    refine ⟨[], [], ⟨rfl, ?_, plantable_nil _ _⟩, ?_⟩
    · rw [List.append_nil]
      exact .done _ _
    · rwa [List.append_nil]
  | cons n ns ih =>
    by_cases hn : fs.entry? (l ++ [n]) = none
    · refine ⟨[], n :: ns, ⟨rfl, ?_, ?_⟩, ?_⟩
      · rw [List.append_nil]
        exact .done _ _
      · rw [List.append_nil]
        refine ⟨fun _ => hd, fun m hm => ?_, hlen⟩
        obtain rfl := Option.some.inj hm
        exact hn
      · rwa [List.append_nil]
    · have hnext : fs.isDirAt (l ++ [n]) := by
        rw [isDirAt_iff]
        exact (hfits (l ++ [n]) (by simp)).resolve_left hn
      obtain ⟨pre, post, hp, hend⟩ := ih hnext (fun m hm => hlen m (List.mem_cons_of_mem _ hm))
        (by rwa [List.append_assoc])
      have hcons : l ++ [n] ++ pre = l ++ n :: pre := by rw [List.append_assoc, List.singleton_append]
      rw [hcons] at hp hend
      refine ⟨n :: pre, post, ⟨by rw [hp.names]; rfl, ?_, hp.plantable⟩, hend⟩
      exact .enter hd (hlen n List.mem_cons_self) hn (hlinks _) hp.leads

theorem Linkless.inspect_missing (hlinks : Linkless fs) (hs : IsEntryName (Utf8.encode s))
    (hup : Step.up ∉ p.moves) (hp : Straight fs (p / s))
    (hfits : (Edit.renew (fs.down (p / s))).Fits fs.entry?)
    (he : fs.entry? (fs.down (p / s)) = none) :
    fs.inspect (p / s) = .error (.system .noEntry) := by
  have habs := Path.isAbsolute_entry p s hs
  have hsteps := Path.steps_entry p s hs
  by_cases hd : fs.isDirAt (fs.down p)
  · have hloc : fs.locate .inspect (p / s) = .ok (.vacant (fs.down p) (Utf8.encode s)) :=
      (hlinks.locate_entry_iff (by decide) hs hup).mpr ⟨hp, hd, (if_pos he).symm⟩
    rw [inspect, find, hloc]
    rfl
  · obtain ⟨hname, _, _, hlost, hlen, hstart⟩ := (straight_entry_iff hs).mp hp
    have hway : (Edit.dirs (fs.down p)).Fits fs.entry? := by
      intro u hu
      rw [down_entry hs] at hfits
      refine hfits u (hu.trans (List.prefix_append _ _)) ?_
      rintro rfl
      exact absurd hu.length_le (by simp)
    obtain ⟨pre, post, hplanted, hv⟩ := hlinks.exists_planted hstart _ hlen hway
    have hpost : post ≠ [] := by
      rintro rfl
      have hnames := hplanted.names
      rw [List.append_nil] at hnames
      rw [down, hnames] at hd
      exact hd hv
    have hloc : fs.locate .inspect (p / s) = .error (.system .noEntry) := by
      rw [← habs] at hplanted hlost hv
      exact hplanted.locate_missing (by decide) hsteps hup hname hlost hv hpost
    rw [inspect, find, hloc]
    rfl

end Lookup

section Make

variable {fs fs' : FileSystem} {p : Path} {s : String} {u : Unit}

theorem Linkless.makeDirs_succeeds (hlinks : Linkless fs) (hs : IsEntryName (Utf8.encode s))
    (hp : Straight fs (p / s)) (hfits : (Edit.dirs (fs.down (p / s))).Fits fs.entry?) :
    ∃ fs', makeDirs (p / s) fs = .ok () fs' ∧ EditedBy [.dirs (fs.down (p / s))] fs fs' := by
  obtain ⟨hname, hn, hup, hlost, hlen, hstart⟩ := (straight_entry_iff hs).mp hp
  have hlens : ∀ m ∈ namesOf p.moves ++ [Utf8.encode s], m.length ≤ maxNameLength := by
    intro m hm
    rcases List.mem_append.mp hm with hm | hm
    · exact hlen m hm
    · obtain rfl := List.mem_singleton.mp hm
      exact hn
  have hdown : fs.down (p / s) = fs.startOf p.isAbsolute ++ (namesOf p.moves ++ [Utf8.encode s]) := by
    rw [down_entry hs, down, List.append_assoc]
  rw [hdown] at hfits ⊢
  obtain ⟨pre, post, hplanted, hv⟩ := hlinks.exists_planted hstart _ hlens hfits
  refine ⟨_, makeDirs_of_planted hs hup hname hlost hplanted hv, ?_⟩
  refine .single hfits (fun l => ?_) (.inl ⟨sameStart_plant .., fun _ h => h⟩)
  rw [entry?_plant hplanted.plantable, Edit.apply_dirs, hplanted.names, ← List.append_assoc]
  by_cases hl : l <+: fs.startOf p.isAbsolute ++ pre ++ post
  · rw [if_pos hl]
    by_cases hbelow : fs.startOf p.isAbsolute ++ pre <+: l ∧ l ≠ fs.startOf p.isAbsolute ++ pre
    · rw [if_pos ⟨hbelow.1, hbelow.2, hl⟩]
    · rw [if_neg fun h => hbelow ⟨h.1, h.2.1⟩]
      -- Up to where the chain starts, the directories were there.
      have habove : l <+: fs.startOf p.isAbsolute ++ pre := by
        rcases List.prefix_or_prefix_of_prefix hl (List.prefix_append _ post) with h | h
        · exact h
        · by_contra hno
          exact hbelow ⟨h, fun heq => hno (heq ▸ List.prefix_refl _)⟩
      have hdir := isDirAt_of_prefix fs _ _ hv habove
      exact (isDirAt_iff _ _).mp hdir
  · rw [if_neg hl, if_neg fun h => hl h.2.2]

theorem Linkless.makeDirs_ok (hlinks : Linkless fs) (hs : IsEntryName (Utf8.encode s))
    (hup : Step.up ∉ p.moves) (h : makeDirs (p / s) fs = .ok u fs') :
    Straight fs (p / s) ∧ EditedBy [.dirs (fs.down (p / s))] fs fs' := by
  obtain ⟨hname, hlost, pre, post, k, v, hplanted, _, hdir⟩ := makeDirs_spec hs hup h
  obtain ⟨hv, hlen⟩ := hlinks.leads (by simp) hplanted.leads
  rw [Path.namesOf_map_name] at hv hlen
  have hdown : fs.down (p / s) = v ++ post := by
    rw [down_entry hs, down, List.append_assoc, hplanted.names, hv, List.append_assoc]
  have hd : fs.isDirAt v := by
    by_cases hpost : post = []
    · obtain ⟨l?, hf⟩ := find_of_isDir (hdir hpost)
      have he := ((hlinks.find_entry_iff (by decide) hs hup).mp hf).2.2
      rw [hdown, hpost, List.append_nil] at he
      exact (isDirAt_iff _ _).mpr he
    · exact hplanted.plantable.isDirAt hpost
  have hlens : ∀ m ∈ namesOf p.moves ++ [Utf8.encode s], m.length ≤ maxNameLength := by
    intro m hm
    rw [hplanted.names] at hm
    rcases List.mem_append.mp hm with hm | hm
    · exact hlen m hm
    · exact hplanted.plantable.length_le m hm
  have hp : Straight fs (p / s) := (straight_entry_iff hs).mpr ⟨hname, hlens _ (by simp), hup, hlost,
    fun m hm => hlens m (List.mem_append_left _ hm), hplanted.leads.isDirAt_start hd⟩
  have hfits : (Edit.dirs (fs.down (p / s))).Fits fs.entry? := by
    intro l hl
    rw [hdown] at hl
    by_cases habove : l <+: v
    · have hdir := isDirAt_of_prefix fs _ _ hd habove
      exact .inr ((isDirAt_iff _ _).mp hdir)
    · have hbelow : v <+: l :=
        (List.prefix_or_prefix_of_prefix hl (List.prefix_append _ _)).resolve_left habove
      refine .inl (hplanted.plantable.entry?_eq_none l hbelow ?_ (.inl hl) ?_)
      · rintro rfl
        exact habove (List.prefix_refl _)
      · rintro rfl
        rw [List.append_nil] at hl
        exact habove hl
  obtain ⟨made, hmake, hedited⟩ := hlinks.makeDirs_succeeds hs hp hfits
  cases hmake.symm.trans h
  exact ⟨hp, hedited⟩

/-- Only what is no directory keeps an entry from being made once the way to it is there. -/
theorem fits_dirs_entry (hs : IsEntryName (Utf8.encode s))
    (hway : (Edit.dirs (fs.down p)).Fits fs.entry?)
    (hopen : fs.entry? (fs.down (p / s)) = none ∨ fs.entry? (fs.down (p / s)) = some .dir) :
    (Edit.dirs (fs.down (p / s))).Fits fs.entry? := by
  intro l hl
  rw [down_entry hs, List.prefix_concat_iff] at hl
  rcases hl with rfl | hl
  · rw [← down_entry hs]
    exact hopen
  · exact hway l hl

theorem Linkless.makeDirs_of_not_dir (hlinks : Linkless fs) (hs : IsEntryName (Utf8.encode s))
    (hp : Straight fs (p / s)) (hne : fs.entry? (fs.down (p / s)) ≠ none)
    (he : fs.entry? (fs.down (p / s)) ≠ some .dir) :
    makeDirs (p / s) fs = .error (.system .alreadyExists) fs := by
  have hup : Step.up ∉ p.moves := ((straight_entry_iff hs).mp hp).2.2.1
  have hd : fs.isDirAt (fs.down p) := isDirAt_down hs hne
  have hloc : fs.locate .directory (p / s) = .ok (.found (fs.down (p / s))) := by
    rw [(hlinks.locate_entry_iff (by decide) hs hup).mpr ⟨hp, hd, rfl⟩, if_neg hne]
  rw [makeDirs, Path.parents_entry p s hs]
  refine makeDirAfter_error_iff.mpr ⟨Path.bytes_ne_nil_of_steps (Path.steps_entry p s hs), .inl ?_⟩
  refine ⟨rfl, by decide, by rw [makeDir, hloc], fun hdir => ?_⟩
  obtain ⟨l?, hf⟩ := find_of_isDir hdir
  exact he ((hlinks.find_entry_iff (by decide) hs hup).mp hf).2.2

end Make

/-- The permission bits of a file that is opened for writing at a location. -/
def modeAt (view : View) (l : Location) : Mode :=
  match view l with
  | some (.file mode _) => mode
  | _ => newFileMode

section Put

variable {fs fs' : FileSystem} {p src : Path} {s : String} {l : Location} {mode : Mode}
  {content : Bytes}

theorem editedBy_put (h : Writable fs l) (mode : Mode) (content : Bytes) :
    EditedBy [.put l (some (.file mode content))] fs (fs.put l (.file mode content)) := by
  refine .single ⟨⟨mode, content, rfl⟩, h.ne_nil, (isDirAt_iff _ _).mp h.isDirAt, h.entry?⟩
    (fun u => ?_) (.inl ⟨sameStart_put .., fun _ h => h⟩)
  rw [h.entry?_put, Edit.apply_put]

theorem Linkless.target_entry_iff (hlinks : Linkless fs) (hs : IsEntryName (Utf8.encode s))
    (hup : Step.up ∉ p.moves) {t : Location × Mode} :
    fs.target (p / s) = .ok t ↔
      Straight fs (p / s) ∧ Writable fs (fs.down (p / s)) ∧
        t = (fs.down (p / s), modeAt fs.entry? (fs.down (p / s))) := by
  have hdown : fs.down (p / s) = fs.down p ++ [Utf8.encode s] := down_entry hs
  constructor
  · intro h
    rw [target] at h
    cases hloc : fs.locate .create (p / s) with
    | error failure =>
      rw [hloc] at h
      cases h
    | ok spot =>
      obtain ⟨hp, hd, hspot⟩ := (hlinks.locate_entry_iff (by decide) hs hup).mp hloc
      have hne : fs.down (p / s) ≠ [] := by simp [hdown]
      have hparent : fs.isDirAt (fs.down (p / s)).dropLast := by
        rw [hdown, List.dropLast_concat]
        exact hd
      rw [hloc, hspot] at h
      cases he : fs.entry? (fs.down (p / s)) with
      | none =>
        rw [if_pos he] at h
        cases h
        exact ⟨hp, ⟨hne, hparent, .inl he⟩, by rw [modeAt, he, hdown]⟩
      | some e =>
        rw [if_neg (by simp [he])] at h
        simp only [he] at h
        cases e with
        | file mode content =>
          cases h
          exact ⟨hp, ⟨hne, hparent, .inr ⟨mode, content, he⟩⟩, by rw [modeAt, he]⟩
        | link target => cases h
        | socket => cases h
        | dir => cases h
  · rintro ⟨hp, hw, rfl⟩
    have hd : fs.isDirAt (fs.down p) := by
      have hparent := hw.isDirAt
      rwa [hdown, List.dropLast_concat] at hparent
    have hloc := (hlinks.locate_entry_iff (by decide : Purpose.create ≠ .canonical) hs hup).mpr
      ⟨hp, hd, rfl⟩
    rw [target, hloc]
    rcases hw.entry? with he | ⟨mode, content, he⟩
    · rw [if_pos he, modeAt, he, hdown]
    · rw [if_neg (by simp [he]), modeAt]
      simp only [he]

theorem Linkless.target_refused {e : Errno} (hlinks : Linkless fs) (hs : IsEntryName (Utf8.encode s))
    (hp : Straight fs (p / s))
    (he : fs.entry? (fs.down (p / s)) = some .dir ∧ e = .isDirectory ∨
      fs.entry? (fs.down (p / s)) = some .socket ∧ e = .noDeviceOrAddress) :
    fs.target (p / s) = .error (.system e) := by
  have hup : Step.up ∉ p.moves := ((straight_entry_iff hs).mp hp).2.2.1
  have hne : fs.entry? (fs.down (p / s)) ≠ none := by
    rcases he with ⟨he, -⟩ | ⟨he, -⟩ <;> rw [he] <;> exact Option.some_ne_none _
  have hd : fs.isDirAt (fs.down p) := isDirAt_down hs hne
  have hloc := (hlinks.locate_entry_iff (by decide : Purpose.create ≠ .canonical) hs hup).mpr
    ⟨hp, hd, rfl⟩
  rw [if_neg hne] at hloc
  rw [target, hloc]
  rcases he with ⟨he, rfl⟩ | ⟨he, rfl⟩ <;> simp only [he]

theorem target_of_isTooLong (h : isTooLong p) (hzero : 0 ∉ p.bytes) :
    fs.target p = .error (.system .nameTooLong) := by
  have hloc : fs.locate .create p = .error (.system .nameTooLong) := by
    rw [locate, if_pos]
    simpa [h] using hzero
  rw [target, hloc]

theorem Linkless.write_succeeds (hlinks : Linkless fs) (hs : IsEntryName (Utf8.encode s))
    (hup : Step.up ∉ p.moves) (hp : Straight fs (p / s)) (hw : Writable fs (fs.down (p / s)))
    (content : Bytes) :
    ∃ fs', fs.write (p / s) content = .ok fs' ∧ EditedBy
      [.put (fs.down (p / s)) (some (.file (modeAt fs.entry? (fs.down (p / s))) content))] fs fs' := by
  have ht := (hlinks.target_entry_iff hs hup).mpr ⟨hp, hw, rfl⟩
  rw [write, ht]
  exact ⟨_, rfl, editedBy_put hw _ _⟩

theorem Linkless.copyFile_succeeds (hlinks : Linkless fs) (hs : IsEntryName (Utf8.encode s))
    (hup : Step.up ∉ p.moves) (hf : fs.find .follow src = .ok (some l, .file mode content))
    (hp : Straight fs (p / s)) (hw : Writable fs (fs.down (p / s))) (hne : l ≠ fs.down (p / s)) :
    ∃ fs', fs.copyFile src (p / s) = .ok fs' ∧
      EditedBy [.put (fs.down (p / s)) (some (.file mode content))] fs fs' := by
  have ht := (hlinks.target_entry_iff hs hup).mpr ⟨hp, hw, rfl⟩
  rw [copyFile, hf, ht]
  simp only [if_neg hne]
  exact ⟨_, rfl, editedBy_put hw _ _⟩

theorem Linkless.copyFile_ok (hlinks : Linkless fs) (hs : IsEntryName (Utf8.encode s))
    (hup : Step.up ∉ p.moves) (h : fs.copyFile src (p / s) = .ok fs') :
    Straight fs (p / s) ∧ Writable fs (fs.down (p / s)) ∧
      ∃ l mode content, fs.find .follow src = .ok (some l, .file mode content) ∧
        (l ≠ fs.down (p / s) →
          EditedBy [.put (fs.down (p / s)) (some (.file mode content))] fs fs') := by
  obtain ⟨l, mode, content, l', m, hf, ht, rfl⟩ := copyFile_spec h
  obtain ⟨hp, hw, heq⟩ := (hlinks.target_entry_iff hs hup).mp ht
  cases heq
  refine ⟨hp, hw, l, mode, content, hf, fun hne => ?_⟩
  rw [if_neg hne]
  exact editedBy_put hw _ _

end Put

section Renew

variable {fs fs' : FileSystem} {p : Path} {s : String} {l : Location} {e : DirEntry} {u : Unit}

/-- The state once a node has been discarded: it is gone, with all that was below it. -/
structure Discarded (fs fs' : FileSystem) (l : Location) : Prop where
  ne_nil : l ≠ []
  entry? : ∀ u, fs'.entry? u = if l <+: u then none else fs.entry? u
  start : SameStart (fs.remove l) fs'

theorem discarded_remove (fs : FileSystem) (hl : l ≠ []) : Discarded fs (fs.remove l) l where
  ne_nil := hl
  entry? u := entry?_remove fs l u hl
  start := ⟨rfl, rfl⟩

theorem discarded_clear_remove (hl : l ≠ []) (hd : fs.isDirAt l) :
    Discarded fs ((fs.clear l).remove l) l where
  ne_nil := hl
  entry? u := by
    rw [entry?_remove _ _ _ hl, entry?_clear fs l u hd]
    by_cases hu : l <+: u
    · rw [if_pos hu, if_pos hu]
    · rw [if_neg hu, if_neg hu, if_neg fun h => hu h.1]
  start := by
    have hpos := List.length_pos_iff.mpr hl
    by_cases hw : l <+: fs.workingDir
    · have hlen := hw.length_le
      simp only [SameStart, remove, clear, hw, if_true, retreat, lostLevels_put, workingDir_put,
        List.prefix_rfl, lostLevels_update, workingDir_update, List.length_dropLast, true_and]
      omega
    · simp [SameStart, remove, clear, hw]

private theorem Linkless.removeDir_clear (hlinks : Linkless fs) (hs : IsEntryName (Utf8.encode s))
    (hup : Step.up ∉ p.moves) (hp : Straight fs (p / s)) (hd : fs.isDirAt (fs.down (p / s))) :
    (fs.clear (fs.down (p / s))).removeDir (p / s) =
      .ok ((fs.clear (fs.down (p / s))).remove (fs.down (p / s))) := by
  have hentry := fun u => entry?_clear fs (fs.down (p / s)) u hd
  have hstart : (p / s).isAbsolute = true ∨ SameStart fs (fs.clear (fs.down (p / s))) := by
    refine start_of_kept_above hs fun hw => ?_
    rw [clear, if_neg hw]
    exact sameStart_put ..
  have hcleared : Linkless (fs.clear (fs.down (p / s))) := by
    intro u
    by_cases hu : fs.down (p / s) <+: u ∧ u ≠ fs.down (p / s)
    · rw [linkAt?, hentry, if_pos hu]
    · exact (linkAt?_congr (by rw [hentry, if_neg hu])).trans (hlinks u)
  have hstraight : Straight (fs.clear (fs.down (p / s))) (p / s) := by
    refine hp.congr_above hs hstart fun u hu => ?_
    rw [hentry, if_neg fun h => hu h.1]
  have hfind : (fs.clear (fs.down (p / s))).find .directory (p / s) =
      .ok (some (fs.down (p / s)), .dir) := by
    refine (hcleared.find_entry_iff (by decide) hs hup).mpr ⟨hstraight, ?_, ?_⟩
    · rw [down_congr hstart]
    · rw [down_congr hstart, hentry, if_neg fun h => h.2 rfl]
      exact (isDirAt_iff _ _).mp hd
  rw [removeDir, hfind, lastStep?_entry p hs]
  simp only [namesAt_clear hd, ne_eq, not_true_eq_false, if_false]

theorem Linkless.discard_succeeds (hlinks : Linkless fs) (hs : IsEntryName (Utf8.encode s))
    (hup : Step.up ∉ p.moves) (hp : Straight fs (p / s))
    (he : fs.entry? (fs.down (p / s)) = some e) :
    ∃ fs', discard (p / s) fs = .ok () fs' ∧ Discarded fs fs' (fs.down (p / s)) := by
  have hne : fs.down (p / s) ≠ [] := by simp [down_entry hs]
  have hfind : fs.find .inspect (p / s) = .ok (some (fs.down (p / s)), e) :=
    (hlinks.find_entry_iff (by decide) hs hup).mpr ⟨hp, rfl, he⟩
  have hinspect : fs.inspect (p / s) = .ok e := by
    rw [inspect, hfind]
    rfl
  cases e with
  | link target =>
    have hlink := (linkAt?_eq_some_iff _ _ _).mpr he
    rw [hlinks] at hlink
    cases hlink
  | file _ _ | socket =>
    refine ⟨fs.remove (fs.down (p / s)), ?_, discarded_remove fs hne⟩
    rw [discard, hinspect]
    exact Action.atomic_ok_iff.mpr (by rw [unlink, hfind])
  | dir =>
    have hd : fs.isDirAt (fs.down (p / s)) := (isDirAt_iff _ _).mpr he
    refine ⟨_, ?_, discarded_clear_remove hne hd⟩
    rw [discard, hinspect]
    change removeTree (p / s) fs = _
    have hremove := hlinks.removeDir_clear hs hup hp hd
    rw [removeTree, hfind]
    simp only [Option.elim_some, hremove]

namespace Discarded

variable (h : Discarded fs fs' l)

include h

theorem sameStart (hw : ¬ l <+: fs.workingDir) : SameStart fs fs' := by
  have hstart := h.start
  simpa [SameStart, remove, hw] using hstart

theorem lost (hw : l <+: fs.workingDir) : 0 < fs'.lostLevels := by
  have hlen := hw.length_le
  have hpos := List.length_pos_iff.mpr h.ne_nil
  have hlost := h.start.2
  simp only [remove, hw, if_true, retreat, workingDir_update, lostLevels_update,
    List.length_dropLast] at hlost
  omega

theorem linkless (hlinks : Linkless fs) : Linkless fs' := by
  intro u
  by_cases hu : l <+: u
  · rw [linkAt?, h.entry?, if_pos hu]
  · exact (linkAt?_congr (by rw [h.entry?, if_neg hu])).trans (hlinks u)

theorem editedBy {fs'' : FileSystem} (hfits : (Edit.renew l).Fits fs.entry?)
    (hmade : EditedBy [.dirs l] fs' fs'') : EditedBy [.renew l] fs fs'' := by
  have hsame : SameStart fs' fs'' := hmade.sameStart (by simp [Edit.Removes])
  refine .single hfits (fun u => ?_) ?_
  · rw [hmade.entry?]
    change (Edit.dirs l).apply fs'.entry? u = _
    rw [Edit.apply_dirs, Edit.apply_renew, h.entry?]
  · by_cases hw : l <+: fs.workingDir
    · exact .inr ⟨hw, by rw [hsame.2]; exact h.lost hw⟩
    · exact .inl ⟨(h.sameStart hw).trans hsame, fun _ => hw⟩

end Discarded

private theorem Linkless.resetDir_missing (hlinks : Linkless fs) (hs : IsEntryName (Utf8.encode s))
    (hp : Straight fs (p / s)) (hfits : (Edit.renew (fs.down (p / s))).Fits fs.entry?)
    (he : fs.entry? (fs.down (p / s)) = none) :
    ∃ fs', resetDir (p / s) fs = .ok () fs' ∧ EditedBy [.renew (fs.down (p / s))] fs fs' := by
  have hup : Step.up ∉ p.moves := ((straight_entry_iff hs).mp hp).2.2.1
  have hway : (Edit.dirs (fs.down (p / s))).Fits fs.entry? := by
    intro u hu
    by_cases hend : u = fs.down (p / s)
    · exact .inl (by rw [hend, he])
    · exact hfits u hu hend
  obtain ⟨fs', hmake, hmade⟩ := hlinks.makeDirs_succeeds hs hp hway
  refine ⟨fs', ?_, .single hfits (fun u => ?_) (.inl ⟨?_, fun hcwd hw => ?_⟩)⟩
  · rw [resetDir, hlinks.inspect_missing hs hup hp hfits he]
    exact hmake
  · rw [hmade.entry?]
    change (Edit.dirs (fs.down (p / s))).apply fs.entry? u = _
    rw [Edit.apply_dirs, Edit.apply_renew]
    by_cases hu : fs.down (p / s) <+: u
    · rw [if_pos hu, entry?_below_none fs _ u he hu]
    · rw [if_neg hu]
  · exact hmade.sameStart (by simp [Edit.Removes])
  · have hdir := isDirAt_of_prefix fs _ _ hcwd hw
    exact entry?_ne_none_of_isDirAt hdir he

theorem Linkless.resetDir_succeeds (hlinks : Linkless fs) (hs : IsEntryName (Utf8.encode s))
    (hp : Straight fs (p / s)) (hfits : (Edit.renew (fs.down (p / s))).Fits fs.entry?) :
    ∃ fs', resetDir (p / s) fs = .ok () fs' ∧ EditedBy [.renew (fs.down (p / s))] fs fs' := by
  have hup : Step.up ∉ p.moves := ((straight_entry_iff hs).mp hp).2.2.1
  cases he : fs.entry? (fs.down (p / s)) with
  | none => exact hlinks.resetDir_missing hs hp hfits he
  | some e =>
    obtain ⟨made, hdiscard, hgone⟩ := hlinks.discard_succeeds hs hup hp he
    have hstart : (p / s).isAbsolute = true ∨ SameStart fs made := start_of_kept_above hs hgone.sameStart
    have hdown : made.down (p / s) = fs.down (p / s) := down_congr hstart
    have hp' : Straight made (p / s) := by
      refine hp.congr_above hs hstart fun u hu => ?_
      rw [hgone.entry?, if_neg hu]
    have hway : (Edit.dirs (made.down (p / s))).Fits made.entry? := by
      intro u hu
      rw [hdown] at hu
      rw [hgone.entry?]
      by_cases hend : u = fs.down (p / s)
      · rw [hend, if_pos (List.prefix_refl _)]
        exact .inl rfl
      · rw [if_neg fun h => hend (hu.eq_of_length_le h.length_le)]
        exact hfits u hu hend
    obtain ⟨fs', hmake, hmade⟩ := (hgone.linkless hlinks).makeDirs_succeeds hs hp' hway
    rw [hdown] at hmade
    refine ⟨fs', ?_, hgone.editedBy hfits hmade⟩
    have hinspect : fs.inspect (p / s) = .ok e := by
      have hfind : fs.find .inspect (p / s) = .ok (some (fs.down (p / s)), e) :=
        (hlinks.find_entry_iff (by decide) hs hup).mpr ⟨hp, rfl, he⟩
      rw [inspect, hfind]
      rfl
    rw [resetDir, hinspect]
    exact (Action.bind_of_ok hdiscard).trans hmake

/-- Making a directory anew takes away where a relative path starts only if it is not below. -/
theorem EditedBy.start_of_renew (hs : IsEntryName (Utf8.encode s))
    (h : EditedBy [.renew (fs.down (p / s))] fs fs') :
    (p / s).isAbsolute = true ∨ SameStart fs fs' := by
  refine start_of_kept_above hs fun hw => h.sameStart fun edit hedit hremoved => hw ?_
  obtain rfl := List.mem_singleton.mp hedit
  exact hremoved

theorem EditedBy.vacant_of_renew (hs : IsEntryName (Utf8.encode s))
    (h : EditedBy [.renew (fs.down p)] fs fs') (hstart : p.isAbsolute = true ∨ SameStart fs fs') :
    fs'.entry? (fs'.down (p / s)) = none ∧ Writable fs' (fs'.down (p / s)) := by
  have hdown : fs'.down (p / s) = fs.down p ++ [Utf8.encode s] := by
    rw [down_entry hs, down_congr hstart]
  have hnone : fs'.entry? (fs'.down (p / s)) = none := by
    rw [hdown]
    exact h.renewed.2 _ (List.prefix_append _ _) (by simp)
  refine ⟨hnone, by simp [hdown], ?_, .inl hnone⟩
  rw [hdown, List.dropLast_concat, isDirAt_iff]
  exact h.renewed.1

theorem Linkless.resetDir_ok (hlinks : Linkless fs) (hs : IsEntryName (Utf8.encode s))
    (hup : Step.up ∉ p.moves) (h : resetDir (p / s) fs = .ok u fs') :
    Straight fs (p / s) ∧ EditedBy [.renew (fs.down (p / s))] fs fs' := by
  have hready : Straight fs (p / s) ∧ (Edit.renew (fs.down (p / s))).Fits fs.entry? := by
    rw [resetDir] at h
    split at h
    · rename_i hseen
      obtain ⟨l?, hf⟩ := inspect_ok hseen
      obtain ⟨hp, _, he⟩ := (hlinks.find_entry_iff (by decide) hs hup).mp hf
      refine ⟨hp, fun l hl hne => .inr ?_⟩
      obtain ⟨rest, hrest⟩ := hl
      cases rest with
      | nil => exact absurd (by rw [← hrest, List.append_nil]) hne
      | cons n rest =>
        rw [← isDirAt_iff]
        apply isDirAt_of_below fs l n rest
        rw [hrest, he]
        exact Option.some_ne_none _
    · obtain ⟨hp, hmade⟩ := hlinks.makeDirs_ok hs hup h
      exact ⟨hp, fun l hl _ => hmade.fits.1 l hl⟩
    · cases h
  obtain ⟨hp, hfits⟩ := hready
  obtain ⟨made, hreset, hedited⟩ := hlinks.resetDir_succeeds hs hp hfits
  cases hreset.symm.trans h
  exact ⟨hp, hedited⟩

/-- Where relative paths start once a directory has been made anew: what stood there has been removed. -/
theorem Linkless.start_of_resetDir (hlinks : Linkless fs) (hs : IsEntryName (Utf8.encode s))
    (hup : Step.up ∉ p.moves) (h : resetDir (p / s) fs = .ok u fs') :
    SameStart (if fs.entry? (fs.down (p / s)) = none then fs else fs.remove (fs.down (p / s))) fs' := by
  obtain ⟨hp, hedited⟩ := hlinks.resetDir_ok hs hup h
  have hgrows : ∀ {made}, makeDirs (p / s) made = .ok u fs' → SameStart made fs' := by
    intro made hmake
    have hstate := (grows_makeDirs (p / s) made).sameStart
    rwa [hmake] at hstate
  by_cases he : fs.entry? (fs.down (p / s)) = none
  · rw [if_pos he]
    rw [resetDir, hlinks.inspect_missing hs hup hp hedited.fits.1 he] at h
    exact hgrows h
  · obtain ⟨e, he'⟩ := Option.ne_none_iff_exists'.mp he
    rw [if_neg he]
    obtain ⟨made, hdiscard, hgone⟩ := hlinks.discard_succeeds hs hup hp he'
    have hinspect : fs.inspect (p / s) = .ok e := by
      rw [inspect, (hlinks.find_entry_iff (by decide) hs hup).mpr ⟨hp, rfl, he'⟩]
      rfl
    rw [resetDir, hinspect] at h
    exact hgone.start.trans (hgrows ((Action.bind_of_ok hdiscard).symm.trans h))

theorem SameStart.remove (h : SameStart fs fs') (l : Location) :
    SameStart (fs.remove l) (fs'.remove l) := by
  obtain ⟨hcwd, hlost⟩ := h
  by_cases hl : l <+: fs.workingDir
  · simp [SameStart, FileSystem.remove, retreat, hcwd, hlost, hl]
  · simp [SameStart, FileSystem.remove, hcwd, hlost, hl]

theorem Linkless.sameStart_of_resetDir {cleared cleared' : FileSystem} (hlinks : Linkless fs)
    (hlinks' : Linkless fs') (hs : IsEntryName (Utf8.encode s)) (hup : Step.up ∉ p.moves)
    (hsame : SameStart fs fs') (hplace : fs'.entry? (fs.down (p / s)) = fs.entry? (fs.down (p / s)))
    (h : resetDir (p / s) fs = .ok u cleared) (h' : resetDir (p / s) fs' = .ok u cleared') :
    SameStart cleared cleared' := by
  have hstart := hlinks.start_of_resetDir hs hup h
  have hstart' := hlinks'.start_of_resetDir hs hup h'
  rw [down_congr (.inr hsame), hplace] at hstart'
  by_cases he : fs.entry? (fs.down (p / s)) = none
  · rw [if_pos he] at hstart hstart'
    exact hstart.symm.trans (hsame.trans hstart')
  · rw [if_neg he] at hstart hstart'
    exact hstart.symm.trans ((hsame.remove _).trans hstart')

end Renew

end FileSystem

end LaunchDist
