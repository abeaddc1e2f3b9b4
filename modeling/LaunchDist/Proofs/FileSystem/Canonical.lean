import LaunchDist.Proofs.FileSystem.Walkable
/-!
# Canonical paths

The canonical path of a node goes from the root through directories alone, and leads to the node that
it was asked for. The last step to a file goes to an entry, also where a link stands there.
-/
namespace LaunchDist

namespace FileSystem

open LaunchDist.Path (Step namesOf IsEntryName)

/-- Whether the working directory has the names of entries, and the target of each link is a path. -/
structure WellNamed (fs : FileSystem) : Prop where
  workingDir : ∀ n ∈ fs.workingDir, Usable n
  target : ∀ l t, fs.linkAt? l = some t → 0 ∉ t.bytes

theorem Linkless.wellNamed {fs : FileSystem} (h : Linkless fs) (hw : ∀ n ∈ fs.workingDir, Usable n) :
    WellNamed fs := by
  refine ⟨hw, fun l t hl => ?_⟩
  rw [h l] at hl
  cases hl

theorem WellNamed.put_link {fs : FileSystem} {l : Location} {t : Path} (h : WellNamed fs) (hl : l ≠ [])
    (hd : fs.isDirAt l.dropLast) (ht : 0 ∉ t.bytes) : WellNamed (fs.put l (.link t)) := by
  refine ⟨by rw [workingDir_put]; exact h.workingDir, fun v t' hv => ?_⟩
  rw [linkAt?_eq_some_iff, entry?_put _ _ _ _ hl hd (fun _ => rfl)] at hv
  split_ifs at hv
  · cases hv
    exact ht
  · exact h.target v t' ((linkAt?_eq_some_iff fs v t').mpr hv)

section Leads

variable {fs : FileSystem} {k k' : Nat} {l v : Location} {steps : List Step}

/-- Whether a name stands in a path that can be looked up. -/
private def Written (n : Name) : Prop :=
  IsEntryName n ∧ 0 ∉ n

private theorem written_of_steps {p : Path} (hzero : 0 ∉ p.bytes) : ∀ n ∈ namesOf p.steps, Written n := by
  intro n hn
  rw [Path.namesOf_steps] at hn
  obtain ⟨s, hs, heq⟩ := List.mem_filterMap.mp hn
  cases s with
  | name m =>
    obtain rfl := Option.some.inj heq
    exact ⟨Path.isComponent_of_mem_moves p _ hs,
      fun h0 => hzero ((Path.sublist_of_mem_moves hs).subset h0)⟩
  | here => cases heq
  | up => cases heq
  | slash => cases heq

private theorem usable_of_leads (hfs : WellNamed fs) (h : Leads fs k l steps k' v)
    (hl : ∀ n ∈ l, Usable n) (hsteps : ∀ n ∈ namesOf steps, Written n) : ∀ n ∈ v, Usable n := by
  induction h with
  | done => exact hl
  | stay hs _ _ ih =>
    rcases hs with rfl | rfl
    · exact ih hl hsteps
    · exact ih hl hsteps
  | up _ _ ih => exact ih (fun n hn => hl n (List.dropLast_subset _ hn)) hsteps
  | @enter k l n rest k' v _ hlen _ _ _ ih =>
    obtain ⟨hn, hrest⟩ := List.forall_mem_cons.mp hsteps
    refine ih (fun m hm => ?_) hrest
    rcases List.mem_append.mp hm with hm | hm
    · exact hl m hm
    · obtain rfl := List.mem_singleton.mp hm
      exact ⟨hn.1, hn.2, hlen⟩
  | @follow k l n target rest k' v _ _ hlink _ ih =>
    refine ih (fun m hm => ?_) (fun m hm => ?_)
    · rw [linkStart] at hm
      split at hm
      · exact absurd hm List.not_mem_nil
      · exact hl m hm
    · rw [Path.namesOf_append] at hm
      rcases List.mem_append.mp hm with hm | hm
      · exact written_of_steps (hfs.target _ _ hlink) m hm
      · exact hsteps m (List.mem_cons_of_mem _ hm)

theorem isDirAt_linkStart (hd : fs.isDirAt l) (target : Path) : fs.isDirAt (linkStart l target) := by
  rw [linkStart]
  split
  · exact isDirAt_nil fs
  · exact hd

/-- No node on a canonical path has a path that is too long, a directory perhaps apart. -/
private theorem isTooLong_of_canonical
    (h : fs.lookupSteps .canonical k l steps = .ok (.found v)) (hv : fs.isDirAt v = false) :
    steps = [] ∧ v = l ∨ isTooLong v.path = false := by
  induction k, l, steps using stepsInduction with
  | nil k l =>
    rw [lookupSteps_nil] at h
    cases h
    exact .inl ⟨rfl, rfl⟩
  | cons k l s rest ihr ihj =>
    obtain ⟨hd, hfirst⟩ := begins_of_lookupSteps s h
    have hne : ∀ u, fs.isDirAt u → v ≠ u := by
      rintro u hu rfl
      rw [hu] at hv
      cases hv
    right
    cases hfirst with
    | stay _ h => exact (ihr l h).resolve_left fun heq => hne l hd heq.2
    | up h =>
      have hdrop := isDirAt_dropLast _ _ (entry?_ne_none_of_isDirAt hd)
      exact (ihr _ h).resolve_left fun heq => hne _ hdrop heq.2
    | enter _ _ _ hnext =>
      rcases ihr _ hnext with ⟨_, rfl⟩ | hlong
      · exact isTooLong_of_lookupSteps _ _ _ _ _ _ h
      · exact hlong
    | @follow _ _ n target _ _ _ hnext =>
      exact (ihj _ _ _ rfl hnext).resolve_left fun heq => hne _ (isDirAt_linkStart hd target) heq.2
    | stop hrest => simp [Purpose.keepsLink] at hrest
    | vacant _ _ _ _ hspot => cases hspot

theorem Leads.steps_eq (h : Leads fs k l steps k' v) (hv : fs.isDirAt v = false) (hne : steps ≠ []) :
    ∃ xs n, steps = xs ++ [.name n] := by
  obtain ⟨xs, s, rfl⟩ : ∃ xs s, steps = xs ++ [s] :=
    ⟨_, _, (List.dropLast_append_getLast hne).symm⟩
  obtain ⟨k1, u, _, hlast⟩ := Leads.split xs [s] h
  by_cases hs : ∃ n, s = .name n
  · obtain ⟨n, rfl⟩ := hs
    exact ⟨xs, n, rfl⟩
  · rw [hlast.isDirAt_end fun n hn => hs ⟨n, hn⟩] at hv
    cases hv

theorem Leads.entry_end (h : Leads fs k l steps k' v) (he : fs.entry? l ≠ none)
    (hl : fs.linkAt? l = none) : fs.entry? v ≠ none ∧ fs.linkAt? v = none := by
  induction h with
  | done => exact ⟨he, hl⟩
  | stay _ _ _ ih => exact ih he hl
  | up hd _ ih =>
    have hdrop := isDirAt_dropLast _ _ (entry?_ne_none_of_isDirAt hd)
    exact ih (entry?_ne_none_of_isDirAt hdrop) (linkAt?_of_isDirAt hdrop)
  | enter _ _ hnode hlink _ ih => exact ih hnode hlink
  | @follow _ _ _ target _ _ _ hd _ _ _ ih =>
    have hstart := isDirAt_linkStart hd target
    exact ih (entry?_ne_none_of_isDirAt hstart) (linkAt?_of_isDirAt hstart)

theorem Leads.entry_last (h : Leads fs k l steps k' v) (hv : fs.isDirAt v = false)
    (hne : steps ≠ []) : fs.entry? v ≠ none ∧ fs.linkAt? v = none := by
  obtain ⟨xs, n, rfl⟩ := h.steps_eq hv hne
  obtain ⟨_, u, _, hlast⟩ := Leads.split xs _ h
  have hu := hlast.isDirAt_of_name
  exact hlast.entry_end (entry?_ne_none_of_isDirAt hu) (linkAt?_of_isDirAt hu)

end Leads

section Canonical

variable {fs : FileSystem} {p : Path} {l : Location}

theorem reaches_of_canonicalize (h : fs.canonicalize p = .ok l) : ∃ k, Reaches fs p k l := by
  obtain ⟨_, _, ho, hs⟩ := lookupSteps_of_canonicalize h
  obtain ⟨k, hk⟩ := leads_of_found (.inr (.inr (.inl rfl))) hs
  exact ⟨k, _, _, ho, hk⟩

private theorem steps_ne_nil_of_canonicalize (h : fs.canonicalize p = .ok l)
    (hl : fs.isDirAt l = false) : p.steps ≠ [] := by
  obtain ⟨_, hb, _, hs⟩ := lookupSteps_of_canonicalize h
  intro hnil
  cases ha : p.isAbsolute with
  | false => exact Path.steps_ne_nil hb ha hnil
  | true =>
    rw [hnil, ha, lookupSteps_nil] at hs
    cases hs
    rw [show fs.startOf true = [] from rfl, isDirAt_nil] at hl
    cases hl

theorem steps_of_canonicalize (h : fs.canonicalize p = .ok l) (hl : fs.isDirAt l = false) :
    ∃ xs n, p.steps = xs ++ [.name n] := by
  obtain ⟨_, _, _, hs⟩ := lookupSteps_of_canonicalize h
  obtain ⟨k, hk⟩ := leads_of_found (.inr (.inr (.inl rfl))) hs
  exact hk.steps_eq hl (steps_ne_nil_of_canonicalize h hl)

theorem entry_of_canonicalize (h : fs.canonicalize p = .ok l) (hl : fs.isDirAt l = false) :
    fs.entry? l ≠ none ∧ fs.linkAt? l = none := by
  obtain ⟨_, _, _, hs⟩ := lookupSteps_of_canonicalize h
  obtain ⟨k, hk⟩ := leads_of_found (.inr (.inr (.inl rfl))) hs
  exact hk.entry_last hl (steps_ne_nil_of_canonicalize h hl)

theorem linkAt?_of_prefix {l' : Location} (he : fs.entry? l ≠ none) (hl : fs.linkAt? l = none)
    (hp : l' <+: l) : fs.linkAt? l' = none := by
  obtain ⟨r, rfl⟩ := hp
  cases r with
  | nil => rwa [List.append_nil] at hl
  | cons n r => exact linkAt?_of_isDirAt (isDirAt_of_below fs l' n r he)

theorem usable_location (hfs : WellNamed fs) (h : fs.canonicalize p = .ok l) : ∀ n ∈ l, Usable n := by
  obtain ⟨hzero, _, _, hs⟩ := lookupSteps_of_canonicalize h
  obtain ⟨k, hk⟩ := leads_of_found (.inr (.inr (.inl rfl))) hs
  refine usable_of_leads hfs hk (fun n hn => ?_) (written_of_steps hzero)
  rw [startOf] at hn
  split at hn
  · exact absurd hn List.not_mem_nil
  · exact hfs.workingDir n hn

theorem isComponent_location (hl : ∀ n ∈ l, Usable n) : ∀ s ∈ l.map Step.name, Path.IsComponent s := by
  intro s hs
  obtain ⟨n, hn, rfl⟩ := List.mem_map.mp hs
  exact (hl n hn).isEntryName

theorem Location.steps_path (hl : ∀ n ∈ l, Usable n) : l.path.steps = l.map .name :=
  Path.steps_ofComponents true _ (isComponent_location hl)

theorem Location.zero_notMem_path (hl : ∀ n ∈ l, Usable n) : 0 ∉ l.path.bytes := by
  intro hzero
  rcases Path.mem_bytes_ofComponents hzero with hsep | ⟨s, hs, hmem⟩
  · exact absurd hsep (by decide)
  · obtain ⟨n, hn, rfl⟩ := List.mem_map.mp hs
    exact (hl n hn).zero_notMem hmem

/-- The canonical path of what is not a directory leads to it. -/
theorem find_canonical (hfs : WellNamed fs) (h : fs.canonicalize p = .ok l)
    (hl : fs.isDirAt l = false) {e : DirEntry} (he : fs.entry? l = some e) :
    fs.find .follow l.path = .ok (some l, e) := by
  have husable := usable_location hfs h
  have hlink := (entry_of_canonicalize h hl).2
  refine find_follow_iff.mpr ⟨⟨?_, Location.zero_notMem_path husable, ?_⟩, ⟨maxLinks, [], _, rfl, ?_⟩, he⟩
  · obtain ⟨_, _, _, hs⟩ := lookupSteps_of_canonicalize h
    exact (isTooLong_of_canonical hs hl).resolve_left
      fun hnil => steps_ne_nil_of_canonicalize h hl hnil.1
  · exact List.cons_ne_nil _ _
  · rw [Location.steps_path husable]
    refine leads_names l (fun n hn => (husable n hn).length_le) ?_ hlink
    rw [List.nil_append, he]
    exact Option.some_ne_none _

end Canonical

end FileSystem

end LaunchDist
