import LaunchDist.Proofs.FileSystem.Trail
/-!
# What a look-up finds

A look-up that follows links succeeds just where a walk leads. One that keeps a last link, or that may
end at a free name, does so behind the walk along the steps before the last name.
-/
namespace LaunchDist

namespace FileSystem

open LaunchDist.Path (Step)

section Step

variable (fs : FileSystem) (purpose : Purpose) (k : Nat) (l : Location) (n : Name)
  (rest : List Step)

@[simp] theorem lookupSteps_nil : fs.lookupSteps purpose k l [] = .ok (.found l) := by
  cases k <;> rfl

theorem lookupSteps_stay (s : Step) (hs : s = .here ∨ s = .slash) :
    fs.lookupSteps purpose k l (s :: rest) =
      if fs.isDirAt l then fs.lookupSteps purpose k l rest else .error .notDirectory := by
  rcases hs with rfl | rfl <;> cases k <;> rfl

theorem lookupSteps_up :
    fs.lookupSteps purpose k l (.up :: rest) =
      if fs.isDirAt l then fs.lookupSteps purpose k l.dropLast rest else .error .notDirectory := by
  cases k <;> rfl

/-- What a look-up finds that goes on behind a link, with the links that it had before that one. -/
def lookupBehind (purpose : Purpose) : Nat → Location → List Step → Except Errno Spot
  | 0 => fun _ _ => .error .tooManyLinks
  | links + 1 => fs.lookupSteps purpose links

theorem lookupSteps_eq :
    fs.lookupSteps purpose k = fs.lookupWith purpose (fs.lookupBehind purpose k) := by
  cases k <;> rfl

/-- The first name of a look-up, once it may be looked for. -/
def lookupName (n : Name) (rest : List Step) : Except Errno Spot :=
  match fs.entry? (l ++ [n]) with
  | none => if Purpose.isLast rest then .ok (.vacant l n) else .error .noEntry
  | some (.link target) =>
    if purpose.keepsLink rest then .ok (.found (l ++ [n]))
    else fs.lookupBehind purpose k (linkStart l target) (target.steps ++ rest)
  | some _ =>
    if purpose = .directory ∧ Purpose.isLast rest then .ok (.found (l ++ [n]))
    else fs.lookupSteps purpose k (l ++ [n]) rest

theorem lookupSteps_name (hp : purpose ≠ .canonical) :
    fs.lookupSteps purpose k l (.name n :: rest) =
      if fs.isDirAt l then
        if purpose = .create ∧ rest = [.slash] then .error .isDirectory
        else if maxNameLength < n.length then .error .nameTooLong
        else fs.lookupName purpose k l n rest
      else .error .notDirectory := by
  rw [lookupSteps_eq, lookupWith, if_neg (fun h => hp h.1), ← lookupSteps_eq]
  cases fs.isDirAt l <;> rfl

theorem lookupSteps_name_ok (spot : Spot)
    (h : fs.lookupSteps purpose k l (.name n :: rest) = .ok spot) :
    fs.isDirAt l ∧ ¬ (purpose = .create ∧ rest = [.slash]) ∧ n.length ≤ maxNameLength ∧
      fs.lookupName purpose k l n rest = .ok spot := by
  rw [lookupSteps_eq, lookupWith, ← lookupSteps_eq] at h
  by_cases hlong : purpose = .canonical ∧ isTooLong (l ++ [n]).path
  · rw [if_pos hlong] at h
    cases h
  · rw [if_neg hlong] at h
    cases hd : fs.isDirAt l with
    | false =>
      rw [if_pos (by rw [hd]; rfl)] at h
      cases h
    | true =>
      rw [if_neg (by rw [hd]; decide)] at h
      by_cases hc : purpose = .create ∧ rest = [.slash]
      · rw [if_pos hc] at h
        cases h
      · rw [if_neg hc] at h
        by_cases hn : maxNameLength < n.length
        · rw [if_pos hn] at h
          cases h
        · rw [if_neg hn] at h
          exact ⟨rfl, hc, Nat.le_of_not_lt hn, h⟩

theorem isTooLong_of_lookupSteps (spot : Spot)
    (h : fs.lookupSteps .canonical k l (.name n :: rest) = .ok spot) :
    isTooLong (l ++ [n]).path = false := by
  rw [lookupSteps_eq, lookupWith] at h
  rw [← Bool.not_eq_true]
  intro hlong
  rw [if_pos ⟨rfl, hlong⟩] at h
  cases h

theorem lookupName_link (target : Path) (hl : fs.linkAt? (l ++ [n]) = some target)
    (hk : purpose.keepsLink rest = false) :
    fs.lookupName purpose k l n rest =
      fs.lookupBehind purpose k (linkStart l target) (target.steps ++ rest) := by
  rw [lookupName, (linkAt?_eq_some_iff _ _ _).mp hl]
  simp only [hk, Bool.false_eq_true, if_false]

theorem lookupName_enter (he : fs.entry? (l ++ [n]) ≠ none) (hl : fs.linkAt? (l ++ [n]) = none)
    (hd : ¬ (purpose = .directory ∧ Purpose.isLast rest)) :
    fs.lookupName purpose k l n rest = fs.lookupSteps purpose k (l ++ [n]) rest := by
  rw [lookupName]
  rw [linkAt?] at hl
  cases hent : fs.entry? (l ++ [n]) with
  | none => exact absurd hent he
  | some e =>
    rw [hent] at hl
    cases e with
    | file mode content => exact if_neg hd
    | link target => cases hl
    | socket => exact if_neg hd
    | dir => exact if_neg hd

end Step

/-- What the first step of a look-up has done that ends at a spot. -/
inductive Begins (fs : FileSystem) (purpose : Purpose) (spot : Spot) :
    Nat → Location → Step → List Step → Prop
  | stay {k l s rest} (hs : s = .here ∨ s = .slash)
      (h : fs.lookupSteps purpose k l rest = .ok spot) : Begins fs purpose spot k l s rest
  | up {k l rest} (h : fs.lookupSteps purpose k l.dropLast rest = .ok spot) :
      Begins fs purpose spot k l .up rest
  | enter {k l n rest} (hn : n.length ≤ maxNameLength) (he : fs.entry? (l ++ [n]) ≠ none)
      (hl : fs.linkAt? (l ++ [n]) = none) (h : fs.lookupSteps purpose k (l ++ [n]) rest = .ok spot) :
      Begins fs purpose spot k l (.name n) rest
  | follow {k l n target rest} (hn : n.length ≤ maxNameLength)
      (hl : fs.linkAt? (l ++ [n]) = some target)
      (h : fs.lookupSteps purpose k (linkStart l target) (target.steps ++ rest) = .ok spot) :
      Begins fs purpose spot (k + 1) l (.name n) rest
  /-- A link is kept, or a directory is made where something stands. -/
  | stop {k l n rest}
      (hrest : purpose.keepsLink rest = true ∨ purpose = .directory ∧ Purpose.isLast rest = true)
      (hspot : spot = .found (l ++ [n])) : Begins fs purpose spot k l (.name n) rest
  | vacant {k l n rest} (hn : n.length ≤ maxNameLength) (he : fs.entry? (l ++ [n]) = none)
      (hlast : Purpose.isLast rest = true) (hc : ¬ (purpose = .create ∧ rest = [.slash]))
      (hspot : spot = .vacant l n) : Begins fs purpose spot k l (.name n) rest

section First

variable {fs : FileSystem} {purpose : Purpose} {k : Nat} {l : Location} {n : Name} {rest : List Step}
  {spot : Spot}

private theorem begins_name (hn : n.length ≤ maxNameLength)
    (hc : ¬ (purpose = .create ∧ rest = [.slash]))
    (h : fs.lookupName purpose k l n rest = .ok spot) :
    Begins fs purpose spot k l (.name n) rest := by
  by_cases he : fs.entry? (l ++ [n]) = none
  · rw [lookupName, he] at h
    by_cases hlast : Purpose.isLast rest
    · simp only [hlast, if_true, Except.ok.injEq] at h
      exact .vacant hn he hlast hc h.symm
    · simp only [hlast, Bool.false_eq_true, if_false] at h
      cases h
  · cases hl : fs.linkAt? (l ++ [n]) with
    | none =>
      by_cases hd : purpose = .directory ∧ Purpose.isLast rest
      · rw [lookupName] at h
        rw [linkAt?] at hl
        split at h
        · rename_i hent
          exact absurd hent he
        · rename_i hent
          rw [hent] at hl
          cases hl
        · rw [if_pos hd] at h
          exact .stop (.inr hd) (Except.ok.inj h).symm
      · rw [lookupName_enter _ _ _ _ _ _ he hl hd] at h
        exact .enter hn he hl h
    | some target =>
      by_cases hk : purpose.keepsLink rest
      · rw [lookupName, (linkAt?_eq_some_iff _ _ _).mp hl] at h
        simp only [hk, if_true] at h
        exact .stop (.inl hk) (Except.ok.inj h).symm
      · rw [lookupName_link _ _ _ _ _ _ _ hl (Bool.eq_false_iff.mpr hk)] at h
        cases k with
        | zero => cases h
        | succ k => exact .follow hn hl h

theorem begins_of_lookupSteps (s : Step)
    (h : fs.lookupSteps purpose k l (s :: rest) = .ok spot) :
    fs.isDirAt l ∧ Begins fs purpose spot k l s rest := by
  cases s with
  | name n =>
    obtain ⟨hd, hc, hn, h⟩ := lookupSteps_name_ok _ _ _ _ _ _ _ h
    exact ⟨hd, begins_name hn hc h⟩
  | up =>
    rw [lookupSteps_up] at h
    by_cases hd : fs.isDirAt l
    · rw [if_pos hd] at h
      exact ⟨hd, .up h⟩
    · rw [if_neg hd] at h
      cases h
  | here =>
    rw [lookupSteps_stay _ _ _ _ _ _ (.inl rfl)] at h
    by_cases hd : fs.isDirAt l
    · rw [if_pos hd] at h
      exact ⟨hd, .stay (.inl rfl) h⟩
    · rw [if_neg hd] at h
      cases h
  | slash =>
    rw [lookupSteps_stay _ _ _ _ _ _ (.inr rfl)] at h
    by_cases hd : fs.isDirAt l
    · rw [if_pos hd] at h
      exact ⟨hd, .stay (.inr rfl) h⟩
    · rw [if_neg hd] at h
      cases h

end First

theorem isLast_iff {rest : List Step} :
    Purpose.isLast rest = true ↔ rest = [] ∨ rest = [.slash] := by
  constructor
  · intro h
    unfold Purpose.isLast at h
    split at h
    · exact .inl rfl
    · exact .inr rfl
    · cases h
  · rintro (rfl | rfl) <;> rfl

theorem isLast_of_keepsLink {purpose : Purpose} {rest : List Step}
    (h : purpose.keepsLink rest = true) : Purpose.isLast rest = true := by
  cases purpose with
  | inspect => rw [List.isEmpty_iff.mp h]; rfl
  | directory => exact h
  | follow => cases h
  | create => cases h
  | canonical => cases h

theorem namesOf_of_isLast {rest : List Step} (h : Purpose.isLast rest = true) :
    Path.namesOf rest = [] := by
  rcases isLast_iff.mp h with rfl | rfl <;> rfl

theorem length_le_of_lookupSteps {fs : FileSystem} {purpose : Purpose} {k : Nat} {l : Location}
    {steps : List Step} {spot : Spot} (h : fs.lookupSteps purpose k l steps = .ok spot) :
    ∀ n ∈ Path.namesOf steps, n.length ≤ maxNameLength := by
  induction k, l, steps using stepsInduction with
  | nil k l =>
    intro n hn
    exact absurd hn List.not_mem_nil
  | cons k l s rest ihr ihj =>
    have hlast : Purpose.isLast rest = true →
        ∀ n ∈ Path.namesOf rest, n.length ≤ maxNameLength := by
      intro hl n hn
      rw [namesOf_of_isLast hl] at hn
      exact absurd hn List.not_mem_nil
    have hrest : ∀ n ∈ Path.namesOf rest, n.length ≤ maxNameLength := by
      cases (begins_of_lookupSteps s h).2 with
      | stay _ h => exact ihr _ h
      | up h => exact ihr _ h
      | enter _ _ _ h => exact ihr _ h
      | follow _ _ h =>
        intro n hn
        refine ihj _ _ _ rfl h n ?_
        rw [Path.namesOf_append]
        exact List.mem_append_right _ hn
      | stop hstop _ => exact hlast (hstop.elim isLast_of_keepsLink And.right)
      | vacant _ _ hl _ _ => exact hlast hl
    cases s with
    | here => exact hrest
    | slash => exact hrest
    | up => exact hrest
    | name m =>
      have hm := (lookupSteps_name_ok _ _ _ _ _ _ _ h).2.2.1
      intro n hn
      rcases List.mem_cons.mp hn with rfl | hn
      · exact hm
      · exact hrest n hn

section Before

variable {fs : FileSystem} {purpose : Purpose} {k k1 : Nat} {l v : Location} {spot : Spot}

theorem isLast_before (xs ys : List Step) (n : Name) :
    Purpose.isLast (xs ++ .name n :: ys) = false := by
  rcases xs with _ | ⟨s, _ | ⟨s', xs⟩⟩
  · rfl
  · cases s <;> rfl
  · cases s <;> rfl

theorem keepsLink_before (xs ys : List Step) (n : Name) :
    purpose.keepsLink (xs ++ .name n :: ys) = false := by
  cases purpose with
  | inspect => cases xs <;> rfl
  | directory => exact isLast_before xs ys n
  | follow => rfl
  | create => rfl
  | canonical => rfl

theorem ne_slash_before (xs ys : List Step) (n : Name) :
    xs ++ .name n :: ys ≠ [.slash] := by
  intro h
  have hlast := isLast_before xs ys n
  rw [h] at hlast
  cases hlast

theorem Leads.lookupSteps_append (hp : purpose ≠ .canonical) {xs : List Step}
    (h : Leads fs k l xs k1 v) (n : Name) (ys : List Step) :
    fs.lookupSteps purpose k l (xs ++ .name n :: ys) =
      fs.lookupSteps purpose k1 v (.name n :: ys) := by
  induction h with
  | done k l => rfl
  | stay hs hd _ ih => rw [List.cons_append, lookupSteps_stay _ _ _ _ _ _ hs, if_pos hd, ih]
  | up hd _ ih => rw [List.cons_append, lookupSteps_up, if_pos hd, ih]
  | enter hd hn he hl _ ih =>
    rw [List.cons_append, lookupSteps_name _ _ _ _ _ _ hp, if_pos hd,
      if_neg (fun h => ne_slash_before _ _ _ h.2), if_neg (Nat.not_lt.mpr hn),
      lookupName_enter _ _ _ _ _ _ he hl (by simp [isLast_before]), ih]
  | follow hd hn hl _ ih =>
    rw [List.cons_append, lookupSteps_name _ _ _ _ _ _ hp, if_pos hd,
      if_neg (fun h => ne_slash_before _ _ _ h.2), if_neg (Nat.not_lt.mpr hn),
      lookupName_link _ _ _ _ _ _ _ hl (keepsLink_before _ _ _), ← List.append_assoc]
    exact ih

theorem leads_before (xs ys : List Step) (n : Name)
    (h : fs.lookupSteps purpose k l (xs ++ .name n :: ys) = .ok spot) :
    ∃ k1 v, Leads fs k l xs k1 v ∧ fs.lookupSteps purpose k1 v (.name n :: ys) = .ok spot := by
  induction k, l, xs using stepsInduction with
  | nil k l => exact ⟨k, l, .done k l, h⟩
  | cons k l s xs ihr ihj =>
    obtain ⟨hd, hfirst⟩ := begins_of_lookupSteps s h
    cases hfirst with
    | stay hs h =>
      obtain ⟨k1, v, hx, hy⟩ := ihr l h
      exact ⟨k1, v, .stay hs hd hx, hy⟩
    | up h =>
      obtain ⟨k1, v, hx, hy⟩ := ihr _ h
      exact ⟨k1, v, .up hd hx, hy⟩
    | enter hn he hl h =>
      obtain ⟨k1, v, hx, hy⟩ := ihr _ h
      exact ⟨k1, v, .enter hd hn he hl hx, hy⟩
    | follow hn hl h =>
      obtain ⟨k1, v, hx, hy⟩ := ihj _ _ _ rfl (by rwa [List.append_assoc])
      exact ⟨k1, v, .follow hd hn hl hx, hy⟩
    | stop hrest => simp [keepsLink_before, isLast_before] at hrest
    | vacant _ _ hlast => simp [isLast_before] at hlast

end Before

section Spot

variable {fs : FileSystem} {purpose : Purpose} {k k' : Nat} {l v : Location} {steps : List Step}
  {n : Name}

theorem Leads.lookupSteps (h : Leads fs k l steps k' v) :
    fs.lookupSteps .follow k l steps = .ok (.found v) := by
  induction h with
  | done k l => exact lookupSteps_nil ..
  | stay hs hd _ ih => rw [lookupSteps_stay _ _ _ _ _ _ hs, if_pos hd, ih]
  | up hd _ ih => rw [lookupSteps_up, if_pos hd, ih]
  | enter hd hn he hl _ ih =>
    rw [lookupSteps_name _ _ _ _ _ _ (by decide), if_pos hd, if_neg (by simp),
      if_neg (Nat.not_lt.mpr hn), lookupName_enter _ _ _ _ _ _ he hl (by simp), ih]
  | follow hd hn hl _ ih =>
    rw [lookupSteps_name _ _ _ _ _ _ (by decide), if_pos hd, if_neg (by simp),
      if_neg (Nat.not_lt.mpr hn), lookupName_link _ _ _ _ _ _ _ hl rfl]
    exact ih

theorem Leads.exists_found (hp : purpose = .inspect ∨ purpose = .directory)
    (h : Leads fs k l steps k' v) (hv : fs.entry? v ≠ none) :
    ∃ w, fs.lookupSteps purpose k l steps = .ok (.found w) ∧ fs.entry? w ≠ none := by
  have hcan : purpose ≠ .canonical := by rcases hp with rfl | rfl <;> decide
  have hcre : purpose ≠ .create := by rcases hp with rfl | rfl <;> decide
  induction h with
  | done k l => exact ⟨l, lookupSteps_nil .., hv⟩
  | stay hs hd _ ih => rw [lookupSteps_stay _ _ _ _ _ _ hs, if_pos hd]; exact ih hv
  | up hd _ ih => rw [lookupSteps_up, if_pos hd]; exact ih hv
  | @enter k l n rest _ _ hd hn he hl _ ih =>
    rw [lookupSteps_name _ _ _ _ _ _ hcan, if_pos hd, if_neg (fun h => hcre h.1),
      if_neg (Nat.not_lt.mpr hn)]
    by_cases hstop : purpose = .directory ∧ Purpose.isLast rest
    · obtain ⟨e, hsome⟩ := Option.ne_none_iff_exists'.mp he
      refine ⟨l ++ [n], ?_, he⟩
      rw [linkAt?, hsome] at hl
      rw [lookupName, hsome]
      cases e with
      | link target => cases hl
      | file mode content => exact if_pos hstop
      | socket => exact if_pos hstop
      | dir => exact if_pos hstop
    · rw [lookupName_enter _ _ _ _ _ _ he hl hstop]
      exact ih hv
  | @follow k l n target rest _ _ hd hn hl _ ih =>
    rw [lookupSteps_name _ _ _ _ _ _ hcan, if_pos hd, if_neg (fun h => hcre h.1),
      if_neg (Nat.not_lt.mpr hn)]
    by_cases hkept : purpose.keepsLink rest
    · refine ⟨l ++ [n], ?_, entry?_ne_none_of_linkAt? hl⟩
      rw [lookupName, (linkAt?_eq_some_iff _ _ _).mp hl]
      exact if_pos hkept
    · rw [lookupName_link _ _ _ _ _ _ _ hl (Bool.eq_false_iff.mpr hkept)]
      exact ih hv

/-- A look-up that follows a last link, or that ends in a directory, has found its way. -/
theorem leads_of_found
    (hp : purpose = .follow ∨ purpose = .create ∨ purpose = .canonical ∨ fs.isDirAt v)
    (h : fs.lookupSteps purpose k l steps = .ok (.found v)) : ∃ k', Leads fs k l steps k' v := by
  induction k, l, steps using stepsInduction with
  | nil k l =>
    rw [lookupSteps_nil] at h
    cases h
    exact ⟨k, .done k _⟩
  | cons k l s rest ihr ihj =>
    obtain ⟨hd, hfirst⟩ := begins_of_lookupSteps s h
    cases hfirst with
    | stay hs h =>
      obtain ⟨k', hx⟩ := ihr l h
      exact ⟨k', .stay hs hd hx⟩
    | up h =>
      obtain ⟨k', hx⟩ := ihr _ h
      exact ⟨k', .up hd hx⟩
    | enter hn he hl h =>
      obtain ⟨k', hx⟩ := ihr _ h
      exact ⟨k', .enter hd hn he hl hx⟩
    | follow hn hl h =>
      obtain ⟨k', hx⟩ := ihj _ _ _ rfl h
      exact ⟨k', .follow hd hn hl hx⟩
    | @stop _ _ n rest hrest hspot =>
      -- Only look-ups that keep a last link or make a directory stop before it.
      rcases hp with rfl | rfl | rfl | hv
      · simp [Purpose.keepsLink] at hrest
      · simp [Purpose.keepsLink] at hrest
      · simp [Purpose.keepsLink] at hrest
      · obtain rfl := Spot.found.inj hspot
        have hn := length_le_of_lookupSteps h n (by simp [Path.namesOf])
        refine ⟨k, .enter hd hn (entry?_ne_none_of_isDirAt hv) (linkAt?_of_isDirAt hv) ?_⟩
        rcases isLast_iff.mp (hrest.elim isLast_of_keepsLink And.right) with rfl | rfl
        · exact .done _ _
        · exact .stay (.inr rfl) hv (.done _ _)
    | vacant _ _ _ _ hspot => cases hspot

theorem lookupSteps_ne_removed : fs.lookupSteps purpose k l steps ≠ .ok .removed := by
  intro h
  induction k, l, steps using stepsInduction with
  | nil k l =>
    rw [lookupSteps_nil] at h
    cases h
  | cons k l s rest ihr ihj =>
    cases (begins_of_lookupSteps s h).2 with
    | stay _ h => exact ihr _ h
    | up h => exact ihr _ h
    | enter _ _ _ h => exact ihr _ h
    | follow _ _ h => exact ihj _ _ _ rfl h
    | stop _ hspot => cases hspot
    | vacant _ _ _ _ hspot => cases hspot

/-- A free name at which a look-up may end. -/
structure Free (fs : FileSystem) (v : Location) (n : Name) : Prop where
  isDirAt : fs.isDirAt v
  entry? : fs.entry? (v ++ [n]) = none
  length_le : n.length ≤ maxNameLength

/-- A look-up that ends at a free name leads there once something stands at it. -/
theorem leads_of_vacant (h : fs.lookupSteps purpose k l steps = .ok (.vacant v n)) :
    Free fs v n ∧ ∀ fs', Keeps fs fs' → fs'.entry? (v ++ [n]) ≠ none →
      fs'.linkAt? (v ++ [n]) = none → (purpose = .create ∨ fs'.isDirAt (v ++ [n])) →
      ∃ k', Leads fs' k l steps k' (v ++ [n]) := by
  induction k, l, steps using stepsInduction with
  | nil k l =>
    rw [lookupSteps_nil] at h
    cases h
  | cons k l s rest ihr ihj =>
    obtain ⟨hd, hfirst⟩ := begins_of_lookupSteps s h
    cases hfirst with
    | stay hs h =>
      refine ⟨(ihr l h).1, fun fs' hk he hl hend => ?_⟩
      obtain ⟨k', hx⟩ := (ihr l h).2 fs' hk he hl hend
      exact ⟨k', .stay hs (hk.isDirAt _ hd) hx⟩
    | up h =>
      refine ⟨(ihr _ h).1, fun fs' hk he hl hend => ?_⟩
      obtain ⟨k', hx⟩ := (ihr _ h).2 fs' hk he hl hend
      exact ⟨k', .up (hk.isDirAt _ hd) hx⟩
    | enter hm he hl h =>
      refine ⟨(ihr _ h).1, fun fs' hk he' hl' hend => ?_⟩
      obtain ⟨k', hx⟩ := (ihr _ h).2 fs' hk he' hl' hend
      exact ⟨k', .enter (hk.isDirAt _ hd) hm (hk.ne_none _ he) ((hk.linkAt? _ he).trans hl) hx⟩
    | follow hm hl h =>
      refine ⟨(ihj _ _ _ rfl h).1, fun fs' hk he' hl' hend => ?_⟩
      obtain ⟨k', hx⟩ := (ihj _ _ _ rfl h).2 fs' hk he' hl' hend
      have he := entry?_ne_none_of_linkAt? hl
      exact ⟨k', .follow (hk.isDirAt _ hd) hm ((hk.linkAt? _ he).trans hl) hx⟩
    | stop _ hspot => cases hspot
    | vacant hm he hlast hc hspot =>
      cases hspot
      refine ⟨⟨hd, he, hm⟩, fun fs' hk he hl hend => ?_⟩
      refine ⟨k, .enter (hk.isDirAt _ hd) hm he hl ?_⟩
      -- Only a separator may be left, which a file that is made excludes.
      rcases isLast_iff.mp hlast with rfl | rfl
      · exact .done _ _
      · exact .stay (.inr rfl) (hend.resolve_left fun h => hc ⟨h, rfl⟩) (.done _ _)

theorem eq_of_found {o : Option DirEntry} {u w : Location}
    (h : Spot.found u = if o = none then .vacant v n else .found w) : o ≠ none ∧ u = w := by
  by_cases ho : o = none
  · rw [if_pos ho] at h
    cases h
  · rw [if_neg ho] at h
    exact ⟨ho, Spot.found.inj h⟩

theorem eq_of_vacant {o : Option DirEntry} {m : Name} {u w : Location}
    (h : Spot.vacant u m = if o = none then .vacant v n else .found w) :
    o = none ∧ u = v ∧ m = n := by
  by_cases ho : o = none
  · rw [if_pos ho] at h
    exact ⟨ho, Spot.vacant.inj h⟩
  · rw [if_neg ho] at h
    cases h

theorem lookupSteps_kept (hp : purpose = .inspect ∨ purpose = .directory)
    (hkept : purpose.keepsLink steps) {spot : Spot} :
    fs.lookupSteps purpose k l (.name n :: steps) = .ok spot ↔
      fs.isDirAt l ∧ n.length ≤ maxNameLength ∧
        spot = if fs.entry? (l ++ [n]) = none then .vacant l n else .found (l ++ [n]) := by
  have hcan : purpose ≠ .canonical := by rcases hp with rfl | rfl <;> decide
  have hcre : purpose ≠ .create := by rcases hp with rfl | rfl <;> decide
  have hlast : fs.lookupName purpose k l n steps =
      .ok (if fs.entry? (l ++ [n]) = none then .vacant l n else .found (l ++ [n])) := by
    rw [lookupName]
    cases he : fs.entry? (l ++ [n]) with
    | none => exact if_pos (isLast_of_keepsLink hkept)
    | some e =>
      rw [if_neg (Option.some_ne_none e)]
      rcases hp with rfl | rfl
      · obtain rfl : steps = [] := List.isEmpty_iff.mp hkept
        cases e <;> first | rfl | exact lookupSteps_nil ..
      · cases e with
        | link target => exact if_pos hkept
        | file mode content => exact if_pos ⟨rfl, hkept⟩
        | socket => exact if_pos ⟨rfl, hkept⟩
        | dir => exact if_pos ⟨rfl, hkept⟩
  constructor
  · intro h
    obtain ⟨hd, _, hn, h⟩ := lookupSteps_name_ok _ _ _ _ _ _ _ h
    rw [hlast] at h
    exact ⟨hd, hn, (Except.ok.inj h).symm⟩
  · rintro ⟨hd, hn, rfl⟩
    rw [lookupSteps_name _ _ _ _ _ _ hcan, if_pos hd, if_neg (fun h => hcre h.1),
      if_neg (Nat.not_lt.mpr hn), hlast]

theorem lookupSteps_lastName (hp : purpose = .inspect ∨ purpose = .directory) {spot : Spot} :
    fs.lookupSteps purpose k l [.name n] = .ok spot ↔
      fs.isDirAt l ∧ n.length ≤ maxNameLength ∧
        spot = if fs.entry? (l ++ [n]) = none then .vacant l n else .found (l ++ [n]) :=
  lookupSteps_kept hp (by rcases hp with rfl | rfl <;> rfl)

theorem lookupSteps_lastDir (hcan : purpose ≠ .canonical) (hcre : purpose ≠ .create)
    (hd : fs.isDirAt (l ++ [n])) (hn : n.length ≤ maxNameLength) (hlast : Purpose.isLast steps) :
    fs.lookupSteps purpose k l (.name n :: steps) = .ok (.found (l ++ [n])) := by
  have he := entry?_ne_none_of_isDirAt hd
  rw [lookupSteps_name _ _ _ _ _ _ hcan, if_pos (isDirAt_of_below fs l n [] he),
    if_neg (fun h => hcre h.1), if_neg (Nat.not_lt.mpr hn)]
  by_cases hmake : purpose = .directory
  · rw [lookupName, (isDirAt_iff _ _).mp hd]
    exact if_pos ⟨hmake, hlast⟩
  · rw [lookupName_enter _ _ _ _ _ _ he (linkAt?_of_isDirAt hd) fun h => hmake h.1]
    rcases isLast_iff.mp hlast with rfl | rfl
    · exact lookupSteps_nil ..
    · rw [lookupSteps_stay _ _ _ _ _ _ (.inr rfl), if_pos hd, lookupSteps_nil]

/-- Where no link stands, a last name is found by all look-ups alike. -/
theorem lookupSteps_lastEntry (hcan : purpose ≠ .canonical) (hl : fs.linkAt? (l ++ [n]) = none)
    {spot : Spot} :
    fs.lookupSteps purpose k l [.name n] = .ok spot ↔
      fs.isDirAt l ∧ n.length ≤ maxNameLength ∧
        spot = if fs.entry? (l ++ [n]) = none then .vacant l n else .found (l ++ [n]) := by
  have hlast : fs.lookupName purpose k l n [] =
      .ok (if fs.entry? (l ++ [n]) = none then .vacant l n else .found (l ++ [n])) := by
    by_cases he : fs.entry? (l ++ [n]) = none
    · rw [lookupName, he]
      rfl
    · rw [if_neg he]
      by_cases hd : purpose = .directory
      · obtain ⟨e, hsome⟩ := Option.ne_none_iff_exists'.mp he
        rw [lookupName, hsome]
        rw [linkAt?, hsome] at hl
        cases e with
        | file mode content => exact if_pos ⟨hd, rfl⟩
        | link target => cases hl
        | socket => exact if_pos ⟨hd, rfl⟩
        | dir => exact if_pos ⟨hd, rfl⟩
      · rw [lookupName_enter _ _ _ _ _ _ he hl (fun h => hd h.1), lookupSteps_nil]
  constructor
  · intro h
    obtain ⟨hd, _, hn, h⟩ := lookupSteps_name_ok _ _ _ _ _ _ _ h
    rw [hlast] at h
    exact ⟨hd, hn, (Except.ok.inj h).symm⟩
  · rintro ⟨hd, hn, rfl⟩
    rw [lookupSteps_name _ _ _ _ _ _ hcan, if_pos hd, if_neg (by simp), if_neg (Nat.not_lt.mpr hn),
      hlast]

end Spot

end FileSystem

end LaunchDist
