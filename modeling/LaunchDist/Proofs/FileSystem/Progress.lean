import LaunchDist.Proofs.FileSystem.Listing
import LaunchDist.Proofs.FileSystem.Reset
import LaunchDist.Proofs.Path.Shorter
/-!
# Changes that succeed, and what is left of those that do not

What can be seen can be discarded. A path at which making a directory has failed does not lead to one
afterwards.
-/
namespace LaunchDist

namespace FileSystem

open LaunchDist.Path (Step namesOf IsEntryName)

section Lacking

variable {fs fs' : FileSystem} {k k' : Nat} {l v : Location} {xs : List Step}

theorem Keeps.isDirAt_of_ne_none (hk : Keeps fs' fs) (hl : fs'.entry? l ≠ none) (hd : fs.isDirAt l) :
    fs'.isDirAt l := by
  have houtline := hk l hl
  rw [(isDirAt_iff _ _).mp hd] at houtline
  rw [isDirAt_iff]
  cases he : fs'.entry? l with
  | none => exact absurd he hl
  | some e =>
    rw [he] at houtline
    cases e with
    | dir => rfl
    | file mode content => cases houtline
    | link target => cases houtline
    | socket => cases houtline

private theorem lookupSteps_missing {purpose : Purpose} {m n : Name} {rest ys : List Step}
    (hd : fs.isDirAt l) (hm : m.length ≤ maxNameLength) (hne : fs.entry? (l ++ [m]) = none)
    (hp : purpose ≠ .canonical) :
    fs.lookupSteps purpose k l ((.name m :: rest) ++ .name n :: ys) = .error .noEntry := by
  rw [List.cons_append, lookupSteps_name _ _ _ _ _ _ hp, if_pos hd,
    if_neg (fun h => ne_slash_before _ _ _ h.2), if_neg (Nat.not_lt.mpr hm), lookupName, hne]
  simp only [isLast_before, Bool.false_eq_true, if_false]

/-- A look-up in a state that lacks some nodes goes on as in the full one, or misses an entry. -/
theorem Leads.leads_or_noEntry (hk : Keeps fs' fs) (h : Leads fs k l xs k' v)
    (hl : fs'.entry? l ≠ none) :
    Leads fs' k l xs k' v ∨ ∀ purpose n ys, purpose ≠ .canonical →
      fs'.lookupSteps purpose k l (xs ++ .name n :: ys) = .error .noEntry := by
  induction h with
  | done k l => exact .inl (.done k l)
  | stay hs hd _ ih =>
    have hd' := hk.isDirAt_of_ne_none hl hd
    rcases ih hl with h | h
    · exact .inl (.stay hs hd' h)
    · right
      intro purpose n ys hp
      rw [List.cons_append, lookupSteps_stay _ _ _ _ _ _ hs, if_pos hd', h purpose n ys hp]
  | up hd _ ih =>
    have hd' := hk.isDirAt_of_ne_none hl hd
    rcases ih (entry?_ne_none_of_isDirAt (isDirAt_dropLast _ _ hl)) with h | h
    · exact .inl (.up hd' h)
    · right
      intro purpose n ys hp
      rw [List.cons_append, lookupSteps_up, if_pos hd', h purpose n ys hp]
  | @enter k l m rest _ _ hd hm he hlink _ ih =>
    have hd' := hk.isDirAt_of_ne_none hl hd
    by_cases hne : fs'.entry? (l ++ [m]) = none
    · exact .inr fun _ _ _ => lookupSteps_missing hd' hm hne
    · have hlink' : fs'.linkAt? (l ++ [m]) = none := by rw [← hk.linkAt? _ hne, hlink]
      rcases ih hne with h | h
      · exact .inl (.enter hd' hm hne hlink' h)
      · right
        intro purpose n ys hp
        rw [List.cons_append, lookupSteps_name _ _ _ _ _ _ hp, if_pos hd',
          if_neg (fun h => ne_slash_before _ _ _ h.2), if_neg (Nat.not_lt.mpr hm),
          lookupName_enter _ _ _ _ _ _ hne hlink' (by simp [isLast_before]), h purpose n ys hp]
  | @follow k l m target rest _ _ hd hm hlink _ ih =>
    have hd' := hk.isDirAt_of_ne_none hl hd
    by_cases hne : fs'.entry? (l ++ [m]) = none
    · exact .inr fun _ _ _ => lookupSteps_missing hd' hm hne
    · have hlink' : fs'.linkAt? (l ++ [m]) = some target := by rw [← hk.linkAt? _ hne, hlink]
      have hstart : fs'.entry? (linkStart l target) ≠ none := by
        rw [linkStart]
        split
        · exact Option.some_ne_none _
        · exact hl
      rcases ih hstart with h | h
      · exact .inl (.follow hd' hm hlink' h)
      · right
        intro purpose n ys hp
        rw [List.cons_append, lookupSteps_name _ _ _ _ _ _ hp, if_pos hd',
          if_neg (fun h => ne_slash_before _ _ _ h.2), if_neg (Nat.not_lt.mpr hm),
          lookupName_link _ _ _ _ _ _ _ hlink' (keepsLink_before _ _ _), ← List.append_assoc]
        exact h purpose n ys hp

end Lacking

section Locate

variable {fs fs' : FileSystem} {purpose : Purpose} {p q : Path} {k : Nat} {v start : Location}
  {steps : List Step} {s : String}

theorem locate_of_origin (hcan : purpose ≠ .canonical) (hp : Nameable p)
    (ho : fs.origin? p = some (start, steps)) :
    fs.locate purpose p = (fs.lookupSteps purpose maxLinks start steps).mapError .system := by
  rw [locate_eq hp]
  rw [origin?, originOf] at ho
  by_cases ha : p.isAbsolute
  · rw [if_pos ha] at ho ⊢
    cases ho
    rfl
  · rw [if_neg ha, Option.map_eq_some_iff] at ho
    obtain ⟨_, hasc, heq⟩ := ho
    cases heq
    rw [if_neg ha, if_neg (fun hc => hcan hc.1), lookupRelative_eq _ _ _ _ _ hasc]

private theorem lookupRelative_lost (hp : purpose ≠ .create) (levels : Nat) (xs : List Step)
    (hup : Step.up ∉ xs) (n : Name) (ys : List Step) :
    fs.lookupRelative purpose (levels + 1) (xs ++ .name n :: ys) = .error .noEntry := by
  induction xs with
  | nil => rw [List.nil_append, lookupRelative, if_neg (fun h => hp h.1)]
  | cons s xs ih =>
    have hrest : Step.up ∉ xs := fun hm => hup (List.mem_cons_of_mem _ hm)
    cases s with
    | up => exact absurd List.mem_cons_self hup
    | here => exact ih hrest
    | slash => exact ih hrest
    | name m => rw [List.cons_append, lookupRelative, if_neg (fun h => hp h.1)]

theorem locate_entry_lost (hcan : purpose ≠ .canonical) (hp : purpose ≠ .create)
    (hs : IsEntryName (Utf8.encode s)) (hup : Step.up ∉ p.moves) (hn : Nameable (p / s))
    (ha : p.isAbsolute = false) (hlost : 0 < fs.lostLevels) :
    fs.locate purpose (p / s) = .error (.system .noEntry) := by
  obtain ⟨levels, hlevels⟩ := Nat.exists_eq_succ_of_ne_zero (Nat.ne_of_gt hlost)
  rw [locate_eq hn, Path.isAbsolute_entry p s hs, ha, if_neg (by decide),
    if_neg (fun hc => hcan hc.1), hlevels, Path.steps_entry p s hs,
    lookupRelative_lost hp levels p.moves hup]
  rfl

end Locate

section Discard

variable {fs : FileSystem} {root : Path} {s : String} {k : Nat} {v l : Location}

theorem lastStep?_entry (p : Path) (hs : IsEntryName (Utf8.encode s)) :
    (p / s).lastStep? = some (.name (Utf8.encode s)) := by
  rw [Path.lastStep?, Path.steps_entry p s hs, List.filter_append,
    List.filter_cons_of_pos (by simp), List.filter_nil, List.getLast?_concat]

theorem workingDir_clear (h : l <+: fs.workingDir) : (fs.clear l).workingDir = l := by
  rw [clear, if_pos h]
  rfl

theorem namesAt_clear (hd : fs.isDirAt l) : (fs.clear l).namesAt l = [] := by
  rw [List.eq_nil_iff_forall_not_mem]
  intro n hmem
  rw [mem_namesAt_iff, entry?_clear _ _ _ hd, if_pos ⟨List.prefix_append _ _, by simp⟩] at hmem
  exact hmem rfl

private theorem start_cleared (he : fs.isDirAt l)
    (hstart : root.isAbsolute = true ∨ SameStart fs (fs.clear l))
    (hd : fs.isDirAt (fs.startOf root.isAbsolute)) :
    entry? (fs.clear l) (fs.startOf root.isAbsolute) ≠ none := by
  rw [entry?_clear _ _ _ he, if_neg]
  · exact entry?_ne_none_of_isDirAt hd
  · rintro ⟨hbelow, hne⟩
    cases ha : root.isAbsolute with
    | true =>
      rw [startOf, ha, if_pos rfl] at hbelow hne
      exact hne (List.prefix_nil.mp hbelow).symm
    | false =>
      rw [startOf, ha, if_neg (by decide)] at hbelow hne
      have hsame := hstart.resolve_left (by rw [ha]; decide)
      exact hne (hsame.1.symm.trans (workingDir_clear hbelow))

/-- Once a directory is empty its path leads to it, or misses an entry: the path may have led through
it. -/
private theorem locate_cleared (hs : IsEntryName (Utf8.encode s)) (hup : Step.up ∉ root.moves)
    (hn : Nameable (root / s)) (hlen : (Utf8.encode s).length ≤ maxNameLength)
    (hr : Reaches fs root k v) (hv : fs.isDirAt v) (he : fs.isDirAt (v ++ [Utf8.encode s])) :
    (fs.clear (v ++ [Utf8.encode s])).locate .directory (root / s) =
        .ok (.found (v ++ [Utf8.encode s])) ∨
      (fs.clear (v ++ [Utf8.encode s])).locate .directory (root / s) = .error (.system .noEntry) := by
  have hclear := fun u => entry?_clear fs (v ++ [Utf8.encode s]) u he
  by_cases hstart : root.isAbsolute = true ∨ SameStart fs (fs.clear (v ++ [Utf8.encode s]))
  · obtain ⟨start, steps, ho, hl⟩ := (reaches_iff_moves hv).mp hr
    have hlost := not_lost_of_originOf hup (by rw [ho]; exact Option.some_ne_none _)
    rw [originOf_eq_start fs _ _ hlost] at ho
    cases ho
    have horigin : (fs.clear (v ++ [Utf8.encode s])).origin? (root / s) =
        some (fs.startOf root.isAbsolute, root.moves ++ [.name (Utf8.encode s)]) := by
      rw [origin?_congr (by rwa [Path.isAbsolute_entry root s hs]), origin?,
        Path.isAbsolute_entry root s hs, Path.steps_entry root s hs, originOf_eq_start fs _ _ hlost]
    rw [locate_of_origin (by decide) hn horigin]
    have hpresent := start_cleared he hstart (hl.isDirAt_start hv)
    rcases hl.leads_or_noEntry (keeps_of_clear he) hpresent with h | h
    · left
      have hv' : (fs.clear (v ++ [Utf8.encode s])).isDirAt v := by
        rw [isDirAt_iff, hclear, if_neg (fun hc => absurd hc.1.length_le (by simp))]
        exact (isDirAt_iff _ _).mp hv
      have hself : entry? (fs.clear (v ++ [Utf8.encode s])) (v ++ [Utf8.encode s]) ≠ none := by
        rw [hclear, if_neg (fun hc => hc.2 rfl)]
        exact entry?_ne_none_of_isDirAt he
      have hlast := (lookupSteps_lastName (k := k) (.inr rfl)).mpr ⟨hv', hlen, rfl⟩
      rw [if_neg hself] at hlast
      rw [h.lookupSteps_append (by decide), hlast]
      rfl
    · right
      rw [h _ _ _ (by decide)]
      rfl
  · right
    have ha : root.isAbsolute = false := Bool.eq_false_iff.mpr fun h => hstart (.inl h)
    have hlost : 0 < (fs.clear (v ++ [Utf8.encode s])).lostLevels := by
      rcases startKept_clear fs (v ++ [Utf8.encode s]) with hsame | ⟨_, hlost⟩
      · exact absurd (.inr hsame) hstart
      · exact hlost
    exact locate_entry_lost (by decide) (by decide) hs hup hn ha hlost

private theorem removeTree_succeeds (hs : IsEntryName (Utf8.encode s)) (hup : Step.up ∉ root.moves)
    {l? : Option Location} (hf : fs.find .inspect (root / s) = .ok (l?, .dir)) :
    ∃ fs', removeTree (root / s) fs = .ok () fs' := by
  obtain ⟨k, v, hr, hv, rfl, he⟩ := find_entry (.inl rfl) hs hf
  have hd : fs.isDirAt (v ++ [Utf8.encode s]) := (isDirAt_iff _ _).mpr he
  obtain ⟨l, _, hloc, _⟩ := location_of_find (by decide) (Path.namesOf_entry_ne_nil root s hs) hf
  obtain ⟨hn, hlen, _⟩ := (locate_entry_iff (.inl rfl) hs).mp hloc
  rw [removeTree, hf]
  simp only [Option.elim_some]
  rcases locate_cleared hs hup hn hlen hr hv hd with hfound | hmissing
  · have hself : entry? (fs.clear (v ++ [Utf8.encode s])) (v ++ [Utf8.encode s]) = some .dir := by
      rw [entry?_clear _ _ _ hd, if_neg (fun hc => hc.2 rfl), he]
    have hremove : (fs.clear (v ++ [Utf8.encode s])).removeDir (root / s) =
        .ok ((fs.clear (v ++ [Utf8.encode s])).remove (v ++ [Utf8.encode s])) := by
      rw [removeDir, find, hfound, lastStep?_entry root hs]
      simp only [hself]
      simp only [namesAt_clear hd, ne_eq, not_true_eq_false, if_false]
    rw [hremove]
    exact ⟨_, rfl⟩
  · have hremove : (fs.clear (v ++ [Utf8.encode s])).removeDir (root / s) =
        .error (.system .noEntry) := by
      rw [removeDir, find, hmissing]
    rw [hremove]
    exact ⟨_, rfl⟩

theorem discard_succeeds (hs : IsEntryName (Utf8.encode s)) (hup : Step.up ∉ root.moves) {e : DirEntry}
    (h : fs.inspect (root / s) = .ok e) : ∃ fs', discard (root / s) fs = .ok () fs' := by
  obtain ⟨l?, hf⟩ := inspect_ok h
  obtain ⟨_, v, _, _, rfl, _⟩ := find_entry (.inl rfl) hs hf
  rw [discard, h]
  cases e with
  | dir => exact removeTree_succeeds hs hup hf
  | file _ _ | link _ | socket =>
    refine ⟨fs.remove (v ++ [Utf8.encode s]), ?_⟩
    exact Action.atomic_ok_iff.mpr (by rw [unlink, hf])

end Discard

theorem Nameable.of_sublist {p q : Path} (h : Nameable p) (hsub : q.bytes.Sublist p.bytes)
    (hne : q.bytes ≠ []) : Nameable q where
  isTooLong := by
    have hlong := h.isTooLong
    rw [FileSystem.isTooLong, decide_eq_false_iff_not] at hlong ⊢
    exact fun hlt => hlong (Nat.lt_of_lt_of_le hlt hsub.length_le)
  zero_notMem := fun hz => h.zero_notMem (hsub.subset hz)
  ne_nil := hne

/-- How a path to a directory and the path to its parent are written. -/
structure ParentOf (q parent : Path) (n : Name) (ns : List Name) : Prop where
  steps : ∃ xs, q.steps = xs ++ [.name n] ∧ namesOf xs = ns ∧ Step.up ∉ xs
  isAbsolute : parent.isAbsolute = q.isAbsolute
  up_notMem : Step.up ∉ parent.steps
  names : namesOf parent.steps = ns
  sublist : parent.bytes.Sublist q.bytes

section Parent

variable {fs fs' : FileSystem} {q parent : Path} {n : Name} {ns : List Name}

theorem parentOf_entry {root : Path} {s : String} (hs : IsEntryName (Utf8.encode s))
    (hup : Step.up ∉ root.moves) :
    ParentOf (root / s) (Path.ofComponents root.isAbsolute root.components) (Utf8.encode s)
      (namesOf root.moves) := by
  have hparts : ∀ c ∈ root.components, Path.IsComponent c := fun c hc =>
    Path.isComponent_of_mem_moves root c (Path.mem_components root c hc)
  have hsteps := Path.steps_ofComponents root.isAbsolute root.components hparts
  refine ⟨⟨root.moves, Path.steps_entry root s hs, rfl, hup⟩, ?_, ?_, ?_, ?_⟩
  · rw [Path.isAbsolute_ofComponents _ _ hparts, Path.isAbsolute_entry root s hs]
  · rw [hsteps]
    exact fun hm => hup (Path.mem_components root _ hm)
  · rw [hsteps, Path.namesOf_components]
  · exact root.components_sublist.trans (Path.sublist_join root (Path.ofString s) hs.isAbsolute)

theorem parentOf_ofComponents (absolute : Bool) {lead : List Step}
    (hlead : lead = [] ∨ lead = [.here]) (hns : ∀ m ∈ ns ++ [n], IsEntryName m) :
    ParentOf (Path.ofComponents absolute (lead ++ (ns ++ [n]).map .name))
      (Path.ofComponents absolute (lead ++ ns.map .name)) n ns := by
  have hns' : ∀ m ∈ ns, IsEntryName m := fun m hm => hns m (List.mem_append_left _ hm)
  have hq := spells_ofComponents absolute hlead hns
  have hparent := spells_ofComponents absolute hlead hns'
  have hparts : ∀ c ∈ lead ++ ns.map Step.name, Path.IsComponent c ∧ c ≠ .up := by
    intro c hc
    rcases List.mem_append.mp hc with hc | hc
    · rcases hlead with rfl | rfl
      · cases hc
      · obtain rfl := List.mem_singleton.mp hc
        exact ⟨trivial, by simp⟩
    · obtain ⟨m, hm, rfl⟩ := List.mem_map.mp hc
      exact ⟨hns' m hm, by simp⟩
  have hsteps := Path.steps_ofComponents absolute _ fun c hc => (hparts c hc).1
  refine ⟨hq.last ns n rfl, ?_, ?_, ?_, ?_⟩
  · rw [hparent.isAbsolute, hq.isAbsolute]
  · rw [hsteps]
    exact fun hm => (hparts _ hm).2 rfl
  · rw [hsteps, Path.namesOf_append, Path.namesOf_map_name]
    rcases hlead with rfl | rfl <;> rfl
  · apply Path.ofComponents_sublist
    rw [List.map_append, ← List.append_assoc]
    exact List.sublist_append_left _ _

theorem ParentOf.isDir (h : ParentOf q parent n ns) (hne : parent.bytes ≠ []) (hdir : fs.isDir q) :
    fs.isDir parent := by
  obtain ⟨xs, hq, hnames, hup⟩ := h.steps
  obtain ⟨l?, hf⟩ := find_of_isDir hdir
  obtain ⟨l, rfl, _⟩ := location_of_find (by decide)
    (by rw [hq, Path.namesOf_append]; simp [namesOf]) hf
  obtain ⟨hn, ⟨k', hr⟩, _⟩ := find_follow_iff.mp hf
  rw [Reaches, hq] at hr
  obtain ⟨k, v, ⟨start, rest, ho, hl⟩, hlast⟩ := hr.split (fun _ => rfl)
  have hv : fs.isDirAt v := hlast.isDirAt_of_name
  have hlost := not_lost_of_originOf hup (by rw [ho]; exact Option.some_ne_none _)
  rw [originOf_eq_start fs _ _ hlost] at ho
  cases ho
  have hleads : Leads fs maxLinks (fs.startOf q.isAbsolute) parent.steps k v := by
    apply leads_of_namesOf parent.steps h.up_notMem hv
    rw [h.names, ← hnames]
    exact leads_namesOf xs hup hl
  have hreaches : Reaches fs parent k v := by
    rw [Reaches, h.isAbsolute]
    exact ⟨_, _, originOf_eq_start fs _ _ hlost, hleads⟩
  have hfind := find_follow_iff.mpr
    ⟨hn.of_sublist h.sublist hne, ⟨k, hreaches⟩, (isDirAt_iff _ _).mp hv⟩
  rw [FileSystem.isDir, stat_of_find hfind]

theorem ParentOf.not_isDir_of_error (h : ParentOf q parent n ns) {rest : List Path}
    (hparent : ∀ e, makeDirsFrom parent rest fs = .error e fs' →
      parent.bytes ≠ [] ∧ ¬ fs'.isDir parent) {e : FileFailure}
    (hmake : makeDirAfter q (makeDirsFrom parent rest) fs = .error e fs') : ¬ fs'.isDir q := by
  rcases (makeDirAfter_error_iff.mp hmake).2 with ⟨rfl, _, _, hd⟩ | ⟨_, hbefore | ⟨_, _, hd⟩⟩
  · exact hd
  · obtain ⟨hne, hno⟩ := hparent e hbefore
    exact fun hdir => hno (h.isDir hne hdir)
  · exact hd

theorem makeDirsFrom_nil (absolute : Bool) :
    makeDirsFrom (Path.ofComponents absolute []) (Path.shorter absolute []) fs = .ok () fs := by
  cases absolute with
  | false => rfl
  | true => rfl

theorem makeDirsFrom_error (absolute : Bool) {lead : List Step} (hlead : lead = [] ∨ lead = [.here])
    (hns : ∀ m ∈ ns, IsEntryName m) {e : FileFailure}
    (h : makeDirsFrom (Path.ofComponents absolute (lead ++ ns.map .name))
      (Path.shorter absolute (lead ++ ns.map Step.name).reverse) fs = .error e fs') :
    (Path.ofComponents absolute (lead ++ ns.map .name)).bytes ≠ [] ∧
      ¬ fs'.isDir (Path.ofComponents absolute (lead ++ ns.map .name)) := by
  induction ns using List.reverseRecOn generalizing e with
  | nil =>
    rw [List.map_nil, List.append_nil] at h ⊢
    rcases hlead with rfl | rfl
    · cases (makeDirsFrom_nil absolute).symm.trans h
    · obtain ⟨hb, hfailed⟩ := makeDirAfter_error_iff.mp h
      refine ⟨hb, ?_⟩
      rcases hfailed with ⟨rfl, _, _, hd⟩ | ⟨_, hparent | ⟨_, _, hd⟩⟩
      · exact hd
      · cases (makeDirsFrom_nil absolute).symm.trans hparent
      · exact hd
  | append_singleton ms n ih =>
    have hparent := parentOf_ofComponents absolute hlead hns
    rw [makeDirsFrom_concat] at h
    refine ⟨(makeDirAfter_error_iff.mp h).1, hparent.not_isDir_of_error (fun e he => ?_) h⟩
    exact ih (fun m hm => hns m (List.mem_append_left _ hm)) he

end Parent

section Entry

variable {fs fs' : FileSystem} {root : Path} {s : String} {e : FileFailure}

theorem not_isDir_of_makeDirs (hs : IsEntryName (Utf8.encode s)) (hup : Step.up ∉ root.moves)
    (h : makeDirs (root / s) fs = .error e fs') : ¬ fs'.isDir (root / s) := by
  obtain ⟨lead, hlead, hcomp⟩ := Path.components_of_up_notMem root hup
  rw [makeDirs, Path.parents_entry root s hs] at h
  apply (parentOf_entry hs hup).not_isDir_of_error _ h
  intro e' he
  rw [hcomp] at he ⊢
  exact makeDirsFrom_error root.isAbsolute hlead (fun m hm => isEntryName_of_mem_moves hm) he

theorem not_isDir_of_resetDir (hs : IsEntryName (Utf8.encode s)) (hup : Step.up ∉ root.moves)
    (h : resetDir (root / s) fs = .error e fs') : ¬ fs'.isDir (root / s) := by
  rw [resetDir] at h
  split at h
  · rename_i hseen
    obtain ⟨made, hdiscard⟩ := discard_succeeds hs hup hseen
    rcases Action.bind_error_iff.mp h with hfail | ⟨_, made', _, hmake⟩
    · rw [hdiscard] at hfail
      cases hfail
    · exact not_isDir_of_makeDirs hs hup hmake
  · exact not_isDir_of_makeDirs hs hup h
  · rename_i hfail
    cases h
    intro hdir
    obtain ⟨l?, found, hf⟩ := exists_find_of_isDir (.inl rfl) hdir
    rw [inspect, hf] at hfail
    cases hfail

end Entry

end FileSystem

end LaunchDist
