import LaunchDist.Proofs.FileSystem.Growth
import LaunchDist.Proofs.FileSystem.Progress
/-!
# Directories that can be made

A directory is made with its parents wherever a chain of directories can be planted that ends in it.
-/
namespace LaunchDist

namespace FileSystem

open LaunchDist.Path (Step namesOf IsEntryName)

section Plant

variable {fs : FileSystem} {q : Path} {xs : List Step} {n : Name} {ms pre post : List Name} {k : Nat}
  {u v : Location}

theorem locate_last (hq : q.steps = xs ++ [.name n]) (hn : Nameable q)
    (hlost : q.isAbsolute = true ∨ fs.lostLevels = 0)
    (hleads : Leads fs maxLinks (fs.startOf q.isAbsolute) xs k u) (hu : fs.isDirAt u)
    (hlen : n.length ≤ maxNameLength) :
    fs.locate .directory q =
      .ok (if fs.entry? (u ++ [n]) = none then .vacant u n else .found (u ++ [n])) := by
  apply locate_of_reachesAlong (by decide) hn hq ⟨_, _, originOf_eq_start fs _ _ hlost, hleads⟩
  exact (lookupSteps_lastName (.inr rfl)).mpr ⟨hu, hlen, rfl⟩

private theorem makeDir_of_locate_vacant (h : fs.locate .directory q = .ok (.vacant u n)) :
    fs.makeDir q = .ok (fs.put (u ++ [n]) .empty) := by
  rw [makeDir, h]

private theorem makeDirAfter_of_makeDir {fs' : FileSystem} {makeParent : Change Unit} (hn : Nameable q)
    (h : fs.makeDir q = .ok fs') : makeDirAfter q makeParent fs = .ok () fs' := by
  rw [makeDirAfter, if_neg hn.ne_nil, h]

private theorem makeDirAfter_of_parent {made fs' : FileSystem} {makeParent : Change Unit}
    (hn : Nameable q) (hloc : fs.locate .directory q = .error (.system .noEntry))
    (hparent : makeParent fs = .ok () made) (hmake : made.makeDir q = .ok fs') :
    makeDirAfter q makeParent fs = .ok () fs' := by
  have hmissing : fs.makeDir q = .error (.system .noEntry) := by rw [makeDir, hloc]
  rw [makeDirAfter, if_neg hn.ne_nil, hmissing, hparent]
  simp only [hmake]
  rfl

theorem Planted.leads_steps (hup : Step.up ∉ xs)
    (hp : Planted fs (fs.startOf q.isAbsolute) (namesOf xs) pre post k v) (hv : fs.isDirAt v) :
    Leads (fs.plant v post) maxLinks (fs.startOf q.isAbsolute) xs k (v ++ post) ∧
      (fs.plant v post).isDirAt (v ++ post) := by
  have hend : (fs.plant v post).isDirAt (v ++ post) := by
    by_cases hpost : post = []
    · subst hpost
      rwa [List.append_nil]
    · rw [isDirAt_iff, entry?_plant hp.plantable,
        if_pos ⟨List.prefix_append _ _, by simpa using hpost, List.prefix_refl _⟩]
  exact ⟨leads_of_namesOf xs hup hend hp.leads_plant, hend⟩

theorem Planted.locate_tooLong {ys : List Step} (hq : q.steps = xs ++ .name n :: ys)
    (hup : Step.up ∉ xs) (hn : Nameable q) (hlost : q.isAbsolute = true ∨ fs.lostLevels = 0)
    (hp : Planted fs (fs.startOf q.isAbsolute) (namesOf xs) pre post k v) (hv : fs.isDirAt v)
    (hlong : maxNameLength < n.length) :
    (fs.plant v post).locate .directory q = .error (.system .nameTooLong) := by
  have hsame := sameStart_plant fs v post
  have hstart : (fs.plant v post).startOf q.isAbsolute = fs.startOf q.isAbsolute := by
    rw [startOf, startOf, hsame.1]
  have horigin : (fs.plant v post).origin? q =
      some ((fs.plant v post).startOf q.isAbsolute, xs ++ .name n :: ys) := by
    rw [origin?, hq, originOf_eq_start _ _ _ (by rwa [hsame.2])]
  obtain ⟨hleads, hend⟩ := hp.leads_steps hup hv
  rw [← hstart] at hleads
  rw [locate_of_origin (by decide) hn horigin, hleads.lookupSteps_append (by decide),
    lookupSteps_name _ _ _ _ _ _ (by decide), if_pos hend, if_neg (by simp), if_pos hlong]
  rfl

/-- At the end of a chain of new directories only a name that is too long cannot be made. -/
theorem Planted.tooLong_of_error {e : FileFailure} (hq : q.steps = xs ++ [.name n])
    (hup : Step.up ∉ xs) (hn : Nameable q) (hlost : q.isAbsolute = true ∨ fs.lostLevels = 0)
    (hp : Planted fs (fs.startOf q.isAbsolute) (namesOf xs) pre post k v) (hpost : post ≠ [])
    (h : (fs.plant v post).makeDir q = .error e) :
    e = .system .nameTooLong ∧ maxNameLength < n.length := by
  have hv : fs.isDirAt v := hp.plantable.isDirAt hpost
  by_cases hlen : n.length ≤ maxNameLength
  · have hsame := sameStart_plant fs v post
    have hstart : (fs.plant v post).startOf q.isAbsolute = fs.startOf q.isAbsolute := by
      rw [startOf, startOf, hsame.1]
    obtain ⟨hleads, hend⟩ := hp.leads_steps hup hv
    rw [← hstart] at hleads
    have hloc := locate_last hq hn (by rwa [hsame.2]) hleads hend hlen
    rw [if_pos (entry?_plant_below hp.plantable hpost _ (List.prefix_append _ _) (by simp))] at hloc
    rw [makeDir, hloc] at h
    cases h
  · have hlong := Nat.lt_of_not_le hlen
    rw [makeDir, hp.locate_tooLong hq hup hn hlost hv hlong] at h
    exact ⟨(Except.error.inj h).symm, hlong⟩

theorem Planted.locate_missing {purpose : Purpose} (hcan : purpose ≠ .canonical)
    (hq : q.steps = xs ++ [.name n]) (hup : Step.up ∉ xs) (hn : Nameable q)
    (hlost : q.isAbsolute = true ∨ fs.lostLevels = 0)
    (hp : Planted fs (fs.startOf q.isAbsolute) (namesOf xs) pre post k v) (hv : fs.isDirAt v)
    (hpost : post ≠ []) : fs.locate purpose q = .error (.system .noEntry) := by
  have hleads := (hp.leads_steps hup hv).1
  have hstart : fs.isDirAt (fs.startOf q.isAbsolute) := hp.leads.isDirAt_start hv
  have hmissing : fs.entry? (v ++ post) = none :=
    hp.plantable.entry?_eq_none _ (List.prefix_append _ _) (by simpa using hpost)
      (.inl (List.prefix_refl _)) hpost
  have horigin : fs.origin? q = some (fs.startOf q.isAbsolute, xs ++ [.name n]) := by
    rw [origin?, hq, originOf_eq_start fs _ _ hlost]
  rcases hleads.leads_or_noEntry (keeps_plant hp.plantable) (entry?_ne_none_of_isDirAt hstart) with
    h | h
  · exfalso
    apply h.entry?_ne_none_of_mem (entry?_ne_none_of_isDirAt hstart) _ _ hmissing
    exact List.mem_of_getLast? h.getLast?_trailSteps
  · rw [locate_of_origin hcan hn horigin, h _ _ _ hcan]
    rfl

private theorem makeDirAfter_of_whole {makeParent : Change Unit} (hq : q.steps = xs ++ [.name n])
    (hup : Step.up ∉ xs) (hn : Nameable q) (hlost : q.isAbsolute = true ∨ fs.lostLevels = 0)
    (hl : Leads fs maxLinks (fs.startOf q.isAbsolute) ((namesOf xs ++ [n]).map .name) k v)
    (hv : fs.isDirAt v) : makeDirAfter q makeParent fs = .ok () fs := by
  have hnames : namesOf q.steps = namesOf xs ++ [n] := by
    rw [hq, Path.namesOf_append]
    rfl
  have hup' : Step.up ∉ q.steps := by
    rw [hq]
    simpa using hup
  rw [← hnames] at hl
  have hreaches : Reaches fs q k v :=
    ⟨_, _, originOf_eq_start fs _ _ hlost, leads_of_namesOf q.steps hup' hv hl⟩
  have hfind := find_follow_iff.mpr ⟨hn, ⟨k, hreaches⟩, (isDirAt_iff _ _).mp hv⟩
  exact makeDirAfter_of_isDir (by rw [isDir, stat_of_find hfind])

/-- A directory is made where a chain ends, once its parents have been made. -/
private theorem makeDirAfter_of_missing {makeParent : Change Unit} (hq : q.steps = xs ++ [.name n])
    (hup : Step.up ∉ xs) (hn : Nameable q) (hlost : q.isAbsolute = true ∨ fs.lostLevels = 0)
    (hplant : Plantable fs v (post ++ [n]))
    (hp : Planted fs (fs.startOf q.isAbsolute) (namesOf xs) pre post k v) (hv : fs.isDirAt v)
    (hparent : makeParent fs = .ok () (fs.plant v post)) :
    makeDirAfter q makeParent fs = .ok () (fs.plant v (post ++ [n])) := by
  obtain ⟨hleads, hend⟩ := hp.leads_steps hup hv
  have hsame := sameStart_plant fs v post
  have hstart : (fs.plant v post).startOf q.isAbsolute = fs.startOf q.isAbsolute := by
    rw [startOf, startOf, hsame.1]
  have hfree : entry? (fs.plant v post) (v ++ post ++ [n]) = none := by
    rw [entry?_plant hp.plantable, if_neg, List.append_assoc]
    · exact hplant.entry?_eq_none _ (List.prefix_append _ _) (by simp) (.inl (List.prefix_refl _))
        (by simp)
    · intro hc
      exact absurd hc.2.2.length_le (by simp)
  rw [← hstart] at hleads
  have hloc := locate_last hq hn (by rw [hsame.2]; exact hlost) hleads hend
    (hplant.length_le n (by simp))
  rw [if_pos hfree] at hloc
  have hmake := makeDir_of_locate_vacant hloc
  rw [← plant_concat] at hmake
  by_cases hpost : post = []
  · subst hpost
    exact makeDirAfter_of_makeDir hn hmake
  · exact makeDirAfter_of_parent hn (hp.locate_missing (by decide) hq hup hn hlost hv hpost)
      hparent hmake

private theorem makeDirAfter_of_planted {makeParent : Change Unit} (hq : q.steps = xs ++ [.name n])
    (hup : Step.up ∉ xs) (hn : Nameable q) (hlost : q.isAbsolute = true ∨ fs.lostLevels = 0)
    (hp : Planted fs (fs.startOf q.isAbsolute) (namesOf xs ++ [n]) pre post k v)
    (hv : fs.isDirAt v)
    (hparent : ∀ post', Planted fs (fs.startOf q.isAbsolute) (namesOf xs) pre post' k v →
      makeParent fs = .ok () (fs.plant v post')) :
    makeDirAfter q makeParent fs = .ok () (fs.plant v post) := by
  rcases List.eq_nil_or_concat post with rfl | ⟨post, m, rfl⟩
  · have hwhole := hp.leads
    rw [← List.append_nil pre, ← hp.names] at hwhole
    exact makeDirAfter_of_whole hq hup hn hlost hwhole hv
  · rw [List.concat_eq_append] at hp ⊢
    have hnames := hp.names
    rw [← List.append_assoc] at hnames
    obtain ⟨hbefore, hm⟩ := List.append_inj' hnames rfl
    obtain rfl := (List.cons.inj hm).1
    have hp' : Planted fs (fs.startOf q.isAbsolute) (namesOf xs) pre post k v := by
      refine ⟨hbefore, hp.leads, fun _ => hv, fun x hx => ?_, fun x hx => ?_⟩
      · apply hp.plantable.entry? x
        rw [List.head?_append_of_ne_nil _ (List.ne_nil_of_mem (List.mem_of_mem_head? hx))]
        exact hx
      · exact hp.plantable.length_le x (List.mem_append_left _ hx)
    exact makeDirAfter_of_missing hq hup hn hlost hp.plantable hp' hv (hparent post hp')

private theorem makeDirsFrom_of_planted (absolute : Bool) {lead : List Step}
    (hlead : lead = [] ∨ lead = [.here]) (ns : List Name) (hns : ∀ m ∈ ns, IsEntryName m)
    (hlost : absolute = true ∨ fs.lostLevels = 0)
    (hn : (Path.ofComponents absolute (lead ++ ns.map .name)).bytes ≠ [] →
      Nameable (Path.ofComponents absolute (lead ++ ns.map .name)))
    (hp : Planted fs (fs.startOf absolute) ns pre post k v) (hv : fs.isDirAt v) :
    makeDirsFrom (Path.ofComponents absolute (lead ++ ns.map .name))
      (Path.shorter absolute (lead ++ ns.map Step.name).reverse) fs = .ok () (fs.plant v post) := by
  have hq := spells_ofComponents absolute hlead hns
  induction ns using List.reverseRecOn generalizing post with
  | nil =>
    obtain ⟨rfl, rfl⟩ := List.append_eq_nil_iff.mp hp.names.symm
    cases hp.leads
    rw [List.map_nil, List.append_nil] at hn hq ⊢
    rcases hlead with rfl | rfl
    · exact makeDirsFrom_nil absolute
    · have hsteps := hq.nil rfl
      have horigin := originOf_eq_start fs absolute [.here] hlost
      have hleads : Leads fs maxLinks (fs.startOf absolute) [.here] maxLinks (fs.startOf absolute) :=
        .stay (.inl rfl) hv (.done _ _)
      have hname : Nameable (Path.ofComponents absolute [.here]) := by
        apply hn
        cases absolute <;> decide
      have hreaches : Reaches fs (Path.ofComponents absolute [.here]) maxLinks
          (fs.startOf absolute) := by
        rw [Reaches, hq.isAbsolute, hsteps]
        exact ⟨_, _, horigin, hleads⟩
      have hfind := find_follow_iff.mpr ⟨hname, ⟨_, hreaches⟩, (isDirAt_iff _ _).mp hv⟩
      exact makeDirAfter_of_isDir (by rw [isDir, stat_of_find hfind])
  | append_singleton ms m ih =>
    have hms : ∀ x ∈ ms, IsEntryName x := fun x hx => hns x (List.mem_append_left _ hx)
    have hparent := parentOf_ofComponents absolute hlead hns
    obtain ⟨xs, hsteps, rfl, hup⟩ := hq.last ms m rfl
    have hname := hn (Path.bytes_ne_nil_of_steps hsteps)
    rw [← hq.isAbsolute] at hp hlost
    rw [makeDirsFrom_concat]
    refine makeDirAfter_of_planted hsteps hup hname hlost hp hv fun post' hp' => ?_
    rw [hq.isAbsolute] at hp'
    exact ih hms (fun hne => hname.of_sublist hparent.sublist hne) hp'
      (spells_ofComponents absolute hlead hms)

/-- A directory is made wherever a chain can be planted that ends in it. -/
theorem makeDirs_of_planted {root : Path} {s : String} (hs : IsEntryName (Utf8.encode s))
    (hup : Step.up ∉ root.moves) (hn : Nameable (root / s))
    (hlost : root.isAbsolute = true ∨ fs.lostLevels = 0)
    (hp : Planted fs (fs.startOf root.isAbsolute) (namesOf root.moves ++ [Utf8.encode s]) pre post k v)
    (hv : fs.isDirAt v) : makeDirs (root / s) fs = .ok () (fs.plant v post) := by
  obtain ⟨lead, hlead, hcomp⟩ := Path.components_of_up_notMem root hup
  have hparent := parentOf_entry hs hup
  have habs := Path.isAbsolute_entry root s hs
  rw [makeDirs, Path.parents_entry root s hs, hcomp]
  rw [hcomp] at hparent
  rw [← habs] at hp hlost
  refine makeDirAfter_of_planted (Path.steps_entry root s hs) hup hn hlost hp hv fun post' hp' => ?_
  rw [habs] at hp' hlost
  exact makeDirsFrom_of_planted root.isAbsolute hlead _ (fun m hm => isEntryName_of_mem_moves hm) hlost
    (fun hne => hn.of_sublist hparent.sublist hne) hp' hv

end Plant

end FileSystem

end LaunchDist
