import LaunchDist.Proofs.FileSystem.Spared
/-!
# Looking up again where something is gone

A walk that can still be made once something has been removed ends where it ended before, also if it
starts in a removed directory. So a path that takes a name leads nowhere once the place of that name is
free.
-/
namespace LaunchDist

namespace FileSystem

open LaunchDist.Path (Step namesOf)

section Walk

variable {fs fs' : FileSystem} {absolute : Bool} {k k' levels : Nat} {l v v' below : Location}
  {xs ys : List Step}

theorem leads_of_ascend (h : ascend levels xs = some ys) (hlen : below.length = levels)
    (hd : fs.isDirAt (l ++ below)) (hl : Leads fs k l ys k' v) :
    Leads fs k (l ++ below) xs k' v := by
  induction xs generalizing levels below with
  | nil =>
    cases levels with
    | zero =>
      rw [List.length_eq_zero_iff.mp hlen, List.append_nil]
      rwa [← Option.some.inj h] at hl
    | succ levels => cases h
  | cons s xs ih =>
    cases levels with
    | zero =>
      rw [List.length_eq_zero_iff.mp hlen, List.append_nil]
      rwa [← Option.some.inj h] at hl
    | succ levels =>
      cases s with
      | here => exact .stay (.inl rfl) hd (ih h hlen hd)
      | slash => exact .stay (.inr rfl) hd (ih h hlen hd)
      | name n => cases h
      | up =>
        have hne : below ≠ [] := by
          rintro rfl
          cases hlen
        have hup := isDirAt_dropLast fs _ (entry?_ne_none_of_isDirAt hd)
        refine .up hd ?_
        rw [List.dropLast_append_of_ne_nil hne] at hup ⊢
        exact ih h (by rw [List.length_dropLast, hlen]; rfl) hup

/-- A walk that is made again where something is gone ends where it ended. -/
theorem ReachesAlong.of_withdrawn (hk : Keeps fs' fs) (hw : Withdrawn fs fs')
    (h : fs.ReachesAlong absolute xs k v) (h' : fs'.ReachesAlong absolute xs k' v') : v' = v := by
  obtain ⟨start, rest, ho, hl⟩ := h
  obtain ⟨start', rest', ho', hl'⟩ := h'
  have hl' := hl'.mono hk
  cases absolute with
  | true =>
    cases ho
    cases ho'
    exact (hl'.unique hl).2
  | false =>
    obtain ⟨below, hbelow, hdepth⟩ := hw.exists_below
    rw [originOf, if_neg (by decide), Option.map_eq_some_iff] at ho ho'
    obtain ⟨zs, hasc, heq⟩ := ho
    cases heq
    obtain ⟨ys, hasc', heq⟩ := ho'
    cases heq
    rw [hdepth, ascend_add, hasc, Option.bind_some] at hasc'
    have hd : below = [] ∨ fs.isDirAt fs.workingDir := by
      cases hl with
      | done =>
        -- Without steps none of the removed directories has been left.
        cases below with
        | nil => exact .inl rfl
        | cons n below => cases hasc'
      | stay _ hd | up hd | enter hd | follow hd => exact .inr hd
    rw [← hbelow] at hl hd
    rcases hd with rfl | hd
    · rw [List.length_nil, ascend_zero] at hasc'
      rw [List.append_nil, Option.some.inj hasc'] at hl
      exact (hl'.unique hl).2
    · exact ((leads_of_ascend hasc' rfl hd hl').unique hl).2

theorem not_isDir_of_gone {p : Path} {n : Name} (hp : p.steps = xs ++ .name n :: ys)
    (hk : Keeps fs' fs) (hw : Withdrawn fs fs') (h : fs.ReachesAlong p.isAbsolute xs k v)
    (hgone : fs'.entry? (v ++ [n]) = none) : ¬ fs'.isDir p := by
  intro hdir
  obtain ⟨l?, hf⟩ := find_of_isDir hdir
  have hnames : namesOf p.steps ≠ [] := by
    rw [hp, Path.namesOf_append]
    exact List.append_ne_nil_of_right_ne_nil _ (List.cons_ne_nil _ _)
  obtain ⟨l, rfl, _⟩ := location_of_find (by decide) hnames hf
  obtain ⟨_, ⟨k', hr⟩, _⟩ := find_follow_iff.mp hf
  rw [Reaches, hp] at hr
  obtain ⟨k1, w, hx, hl⟩ := hr.split fun _ => rfl
  obtain rfl := h.of_withdrawn hk hw hx
  obtain ⟨_, _, hname, _⟩ := Leads.split [.name n] ys hl
  exact hname.entry?_name_ne_none hgone

end Walk

section LastName

variable {fs : FileSystem} {purpose : Purpose} {k levels : Nat} {l : Location} {steps xs ys : List Step}
  {spot : Spot} {p : Path}

/-- Whether a look-up has ended at what is no directory, or where one is to be made. -/
def MissesDir (fs : FileSystem) (purpose : Purpose) : Spot → Prop
  | .found v => ¬ fs.isDirAt v
  | .vacant _ _ => purpose = .directory
  | .removed => False

private theorem keepsLink_of_append (h : purpose.keepsLink (xs ++ ys)) : purpose.keepsLink ys := by
  cases purpose with
  | inspect =>
    rw [Purpose.keepsLink, List.isEmpty_iff, List.append_eq_nil_iff] at h
    rw [h.2]
    rfl
  | directory =>
    rw [Purpose.keepsLink, isLast_iff] at h ⊢
    rcases h with h | h
    · exact .inl (List.append_eq_nil_iff.mp h).2
    · cases xs with
      | nil => exact .inr h
      | cons s xs => exact .inl (List.append_eq_nil_iff.mp (List.cons.inj h).2).2
  | follow => cases h
  | create => cases h
  | canonical => cases h

theorem exists_lastName (hp : purpose = .inspect ∨ purpose = .directory)
    (h : fs.lookupSteps purpose k l steps = .ok spot) (hend : fs.MissesDir purpose spot) :
    steps = [] ∧ spot = .found l ∨
      ∃ xs n ys, steps = xs ++ .name n :: ys ∧ purpose.keepsLink ys := by
  have hnil : purpose.keepsLink [] := by rcases hp with rfl | rfl <;> rfl
  induction k, l, steps using stepsInduction with
  | nil k l =>
    rw [lookupSteps_nil] at h
    cases h
    exact .inl ⟨rfl, rfl⟩
  | cons k l s rest ihr ihj =>
    right
    obtain ⟨hd, hfirst⟩ := begins_of_lookupSteps s h
    have hcons : (∃ xs n ys, rest = xs ++ .name n :: ys ∧ purpose.keepsLink ys) →
        ∃ xs n ys, s :: rest = xs ++ .name n :: ys ∧ purpose.keepsLink ys := by
      rintro ⟨xs, n, ys, rfl, hys⟩
      exact ⟨s :: xs, n, ys, rfl, hys⟩
    cases hfirst with
    | stay _ h =>
      rcases ihr l h with ⟨_, rfl⟩ | hrest
      · exact absurd hd hend
      · exact hcons hrest
    | up h =>
      rcases ihr _ h with ⟨_, rfl⟩ | hrest
      · exact absurd (isDirAt_dropLast _ _ (entry?_ne_none_of_isDirAt hd)) hend
      · exact hcons hrest
    | @enter _ _ n _ _ _ _ h =>
      rcases ihr _ h with ⟨rfl, _⟩ | hrest
      · exact ⟨[], n, [], rfl, hnil⟩
      · exact hcons hrest
    | @follow _ _ n target _ _ _ h =>
      by_cases hkept : purpose.keepsLink rest
      · exact ⟨[], n, rest, rfl, hkept⟩
      · rcases ihj _ _ _ rfl h with ⟨hnone, _⟩ | ⟨xs, m, ys, heq, hys⟩
        · rw [(List.append_eq_nil_iff.mp hnone).2] at hkept
          exact absurd hnil hkept
        · -- The target's own names are not last, as the link is followed.
          rcases List.append_eq_append_iff.mp heq with ⟨zs, -, hrest⟩ | ⟨zs, -, hmore⟩
          · exact hcons ⟨zs, m, ys, hrest, hys⟩
          · cases zs with
            | nil => exact hcons ⟨[], m, ys, hmore.symm, hys⟩
            | cons z zs =>
              rw [(List.cons.inj hmore).2] at hys
              exact absurd (keepsLink_of_append hys) hkept
    | @stop _ _ n _ hrest _ =>
      refine ⟨[], n, rest, rfl, ?_⟩
      rcases hrest with hkept | ⟨rfl, hlast⟩
      · exact hkept
      · exact hlast
    | @vacant _ _ n _ _ _ hlast _ hspot =>
      subst hspot
      obtain rfl : purpose = .directory := hend
      exact ⟨[], n, rest, rfl, hlast⟩

private theorem isSuffix_of_ascend (h : ascend levels xs = some ys) :
    ys <:+ xs ∧ (ys = xs ∨ Step.up ∈ xs) := by
  induction xs generalizing levels with
  | nil =>
    cases levels with
    | zero => exact Option.some.inj h ▸ ⟨List.suffix_rfl, .inl rfl⟩
    | succ levels => cases h
  | cons s xs ih =>
    have hcons : ∀ levels, ascend (levels + 1) xs = some ys →
        ys <:+ s :: xs ∧ (ys = s :: xs ∨ Step.up ∈ s :: xs) := by
      intro levels h
      refine ⟨(ih h).1.trans (List.suffix_cons _ _), .inr (List.mem_cons_of_mem _ ?_)⟩
      by_contra hup
      rw [ascend_of_up_notMem _ _ hup] at h
      cases h
    cases levels with
    | zero => exact Option.some.inj h ▸ ⟨List.suffix_rfl, .inl rfl⟩
    | succ levels =>
      cases s with
      | here => exact hcons levels h
      | slash => exact hcons levels h
      | up => exact ⟨(ih h).1.trans (List.suffix_cons _ _), .inr List.mem_cons_self⟩
      | name n => cases h

private theorem isSuffix_of_originOf {absolute : Bool}
    (h : fs.originOf absolute xs = some (l, ys)) :
    ys <:+ xs ∧ (absolute = true ∧ l = [] ∨
      absolute = false ∧ l = fs.workingDir ∧ (ys = xs ∨ Step.up ∈ xs)) := by
  cases absolute with
  | true =>
    cases h
    exact ⟨List.suffix_rfl, .inl ⟨rfl, rfl⟩⟩
  | false =>
    rw [originOf, if_neg (by decide), Option.map_eq_some_iff] at h
    obtain ⟨zs, hasc, heq⟩ := h
    cases heq
    obtain ⟨hsuffix, hup⟩ := isSuffix_of_ascend hasc
    exact ⟨hsuffix, .inr ⟨rfl, rfl, hup⟩⟩

/-- A path at which a look-up ends at no directory takes a name last, unless it does no more than leave
the removed directories. -/
theorem exists_lastName_of_locate (hp : purpose = .inspect ∨ purpose = .directory)
    (h : fs.locate purpose p = .ok spot) (hend : fs.MissesDir purpose spot) :
    (Step.up ∈ p.steps ∧ p.isAbsolute = false ∧ spot = .found fs.workingDir) ∨
      ∃ xs n ys k v, p.steps = xs ++ .name n :: ys ∧ purpose.keepsLink ys ∧
        fs.ReachesAlong p.isAbsolute xs k v ∧ fs.isDirAt v ∧ n.length ≤ maxNameLength ∧
        spot = if fs.entry? (v ++ [n]) = none then .vacant v n else .found (v ++ [n]) := by
  have hcan : purpose ≠ .canonical := by rcases hp with rfl | rfl <;> decide
  rcases origin?_of_locate hcan h with ⟨start, rest, ho, hs⟩ | ⟨rfl, _⟩
  · obtain ⟨hsuffix, hfrom⟩ := isSuffix_of_originOf ho
    rcases exists_lastName hp hs hend with ⟨rfl, rfl⟩ | ⟨xs, n, ys, rfl, hys⟩
    · left
      rcases hfrom with ⟨_, rfl⟩ | ⟨ha, rfl, hup⟩
      · exact absurd (isDirAt_nil fs) hend
      · refine ⟨?_, ha, rfl⟩
        rcases hup with hsame | hup
        · exact absurd hsame.symm (Path.steps_ne_nil (nameable_of_locate h).ne_nil ha)
        · exact hup
    · right
      obtain ⟨before, hbefore⟩ := hsuffix
      rw [← List.append_assoc] at hbefore
      obtain ⟨k, v, hx, hv, hspot⟩ := reaches_before hcan hbefore.symm h
      obtain ⟨_, hlen, hspot⟩ := (lookupSteps_kept hp hys).mp hspot
      exact ⟨_, n, ys, k, v, hbefore.symm, hys, hx, hv, hlen, hspot⟩
  · exact hend.elim

theorem exists_steps_of_lastStep? {n : Name} (h : p.lastStep? = some (.name n)) :
    ∃ xs ys, p.steps = xs ++ .name n :: ys ∧ Purpose.isLast ys := by
  obtain ⟨xs, hs | hs⟩ := Path.steps_of_lastStep? h
  · exact ⟨xs, [], hs, rfl⟩
  · exact ⟨xs, [.slash], hs, rfl⟩

end LastName

end FileSystem

end LaunchDist
