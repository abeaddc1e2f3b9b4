import LaunchDist.Proofs.FileSystem.Reach
/-!
# Edits

What a run does to the files, as a list of edits. An edit settles what stands at a location, whatever
stood there, or leaves it alone. So edits that are made a second time change nothing more.
-/
namespace LaunchDist

namespace FileSystem

/-- What stands at each location. -/
abbrev View := Location → Option DirEntry

inductive Edit where
  /-- Puts a directory at the location, and on the way to it wherever one is missing. -/
  | dirs (l : Location)
  /-- As `dirs`, and nothing is in the directory any more. -/
  | renew (l : Location)
  | put (l : Location) (e : Option DirEntry)

/-- Whether a regular file is seen. -/
def IsFile (e : Option DirEntry) : Prop :=
  ∃ mode content, e = some (.file mode content)

instance : DecidablePred IsFile
  | some (.file mode content) => isTrue ⟨mode, content, rfl⟩
  | some .dir => isFalse fun ⟨_, _, h⟩ => by cases h
  | some (.link _) => isFalse fun ⟨_, _, h⟩ => by cases h
  | some .socket => isFalse fun ⟨_, _, h⟩ => by cases h
  | none => isFalse fun ⟨_, _, h⟩ => by cases h

namespace Edit

/-- What stands at a location after the edit, if the edit settles it. -/
def settled? : Edit → Location → Option (Option DirEntry)
  | dirs l, u => if u <+: l then some (some .dir) else none
  | renew l, u =>
    if u <+: l then some (some .dir)
    else if l <+: u then some none
    else none
  | put l e, u => if u = l then some e else none

def apply (edit : Edit) (view : View) : View := fun u =>
  (edit.settled? u).getD (view u)

/-- The location at which the edit is made. -/
def site : Edit → Location
  | dirs l | renew l | put l _ => l

/-- Whether the edit takes away what stands at a location. -/
def Removes : Edit → Location → Prop
  | renew l, u => l <+: u
  | dirs _, _ | put _ _, _ => False

/-- Whether something else stands at a location after the edit, unless nothing stood there. -/
def Replaces : Edit → Location → Prop
  | dirs _, _ => False
  | renew l, u => l <+: u
  | put l _, u => u = l

/-- Whether there is room for the edit: only directories are on the way to its location, and what is put
there is a file in place of a file or of nothing. -/
def Fits : Edit → View → Prop
  | dirs l, view => ∀ u, u <+: l → view u = none ∨ view u = some .dir
  | renew l, view => ∀ u, u <+: l → u ≠ l → view u = none ∨ view u = some .dir
  | put l e, view => IsFile e ∧ l ≠ [] ∧ view l.dropLast = some .dir ∧ (view l = none ∨ IsFile (view l))

theorem Removes.replaces {edit : Edit} {u : Location} (h : edit.Removes u) : edit.Replaces u := by
  cases edit with
  | dirs l => exact h.elim
  | renew l => exact h
  | put l e => exact h.elim

theorem Replaces.site_above {edit : Edit} {u : Location} (h : edit.Replaces u) :
    edit.site <+: u := by
  cases edit with
  | dirs l => exact h.elim
  | renew l => exact h
  | put l e => exact h ▸ List.prefix_refl _

section One

variable {edit : Edit} {view : View} {u l : Location} {e : Option DirEntry}

theorem apply_dirs : (dirs l).apply view u = if u <+: l then some .dir else view u := by
  rw [apply, settled?]
  by_cases h : u <+: l
  · rw [if_pos h, if_pos h]
    rfl
  · rw [if_neg h, if_neg h]
    rfl

theorem apply_renew :
    (renew l).apply view u =
      if u <+: l then some .dir else if l <+: u then none else view u := by
  rw [apply, settled?]
  by_cases h : u <+: l
  · rw [if_pos h, if_pos h]
    rfl
  · rw [if_neg h, if_neg h]
    by_cases h' : l <+: u
    · rw [if_pos h', if_pos h']
      rfl
    · rw [if_neg h', if_neg h']
      rfl

theorem apply_put : (put l e).apply view u = if u = l then e else view u := by
  rw [apply, settled?]
  by_cases h : u = l
  · rw [if_pos h, if_pos h]
    rfl
  · rw [if_neg h, if_neg h]
    rfl

theorem settled?_renew_iff : (renew l).settled? u = none ↔ ¬ u <+: l ∧ ¬ l <+: u := by
  rw [settled?]
  by_cases h : u <+: l
  · rw [if_pos h]
    exact ⟨fun hn => absurd hn (Option.some_ne_none _), fun hno => absurd h hno.1⟩
  · rw [if_neg h]
    by_cases h' : l <+: u
    · rw [if_pos h']
      exact ⟨fun hn => absurd hn (Option.some_ne_none _), fun hno => absurd h' hno.2⟩
    · rw [if_neg h']
      exact ⟨fun _ => ⟨h, h'⟩, fun _ => rfl⟩

/-- An edit settles directories on the way to its location, and what is there and below. -/
theorem settled?_cases (h : edit.settled? u = some e) :
    u <+: edit.site ∧ e = some .dir ∨ edit.site <+: u := by
  cases edit with
  | dirs l =>
    rw [settled?] at h
    by_cases hu : u <+: l
    · rw [if_pos hu] at h
      exact .inl ⟨hu, (Option.some.inj h).symm⟩
    · rw [if_neg hu] at h
      cases h
  | renew l =>
    rw [settled?] at h
    by_cases hu : u <+: l
    · rw [if_pos hu] at h
      exact .inl ⟨hu, (Option.some.inj h).symm⟩
    · rw [if_neg hu] at h
      by_cases hl : l <+: u
      · exact .inr hl
      · rw [if_neg hl] at h
        cases h
  | put l f =>
    rw [settled?] at h
    by_cases hu : u = l
    · subst hu
      exact .inr (List.prefix_refl _)
    · rw [if_neg hu] at h
      cases h

theorem apply_open (hu : view u = none ∨ view u = some .dir) (hne : ∀ e, edit ≠ put u e) :
    edit.apply view u = none ∨ edit.apply view u = some .dir := by
  cases edit with
  | dirs l =>
    rw [apply_dirs]
    split
    · exact .inr rfl
    · exact hu
  | renew l =>
    rw [apply_renew]
    split
    · exact .inr rfl
    · split
      · exact .inl rfl
      · exact hu
  | put l e =>
    rw [apply_put, if_neg]
    · exact hu
    · rintro rfl
      exact hne e rfl

theorem Fits.put_ne_dir (h : (put l e).Fits view) : view l ≠ some .dir := by
  intro hd
  obtain ⟨_, _, _, hl⟩ := h
  rcases hl with hn | ⟨mode, content, hf⟩
  · rw [hd] at hn
    cases hn
  · rw [hd] at hf
    cases hf

theorem Fits.apart (h : edit.Fits view) (hu : ¬ edit.Replaces u) :
    edit.apply view u = view u ∨ view u = none ∧ edit.apply view u = some .dir := by
  cases edit with
  | dirs l =>
    rw [apply_dirs]
    by_cases hl : u <+: l
    · rw [if_pos hl]
      rcases h u hl with hn | hd
      · exact .inr ⟨hn, rfl⟩
      · exact .inl hd.symm
    · exact .inl (if_neg hl)
  | renew l =>
    have hbelow : ¬ l <+: u := hu
    rw [apply_renew, if_neg hbelow]
    by_cases hl : u <+: l
    · rw [if_pos hl]
      have hne : u ≠ l := by
        intro heq
        exact hu (heq ▸ List.prefix_refl _)
      rcases h u hl hne with hn | hd
      · exact .inr ⟨hn, rfl⟩
      · exact .inl hd.symm
    · exact .inl (if_neg hl)
  | put l e =>
    have hne : u ≠ l := hu
    rw [apply_put, if_neg hne]
    exact .inl rfl

theorem Fits.apply_dir (h : edit.Fits view) (hu : view u = some .dir) (hr : ¬ edit.Removes u) :
    edit.apply view u = some .dir := by
  cases edit with
  | dirs l =>
    rw [apply_dirs, hu, ite_self]
  | renew l =>
    have hbelow : ¬ l <+: u := hr
    rw [apply_renew, if_neg hbelow, hu, ite_self]
  | put l e =>
    rw [apply_put, if_neg, hu]
    intro heq
    rw [heq] at hu
    exact h.put_ne_dir hu

theorem Fits.apply_ne_link (h : edit.Fits view) (target : Path) (hu : view u ≠ some (.link target)) :
    edit.apply view u ≠ some (.link target) := by
  cases edit with
  | dirs l =>
    rw [apply_dirs]
    split
    · simp
    · exact hu
  | renew l =>
    rw [apply_renew]
    split
    · simp
    · split
      · simp
      · exact hu
  | put l e =>
    obtain ⟨⟨mode, content, rfl⟩, _⟩ := h
    rw [apply_put]
    split
    · simp
    · exact hu

end One

def applyAll (edits : List Edit) (view : View) : View :=
  edits.foldl (fun view edit => edit.apply view) view

def FitsAll : List Edit → View → Prop
  | [], _ => True
  | edit :: rest, view => edit.Fits view ∧ FitsAll rest (edit.apply view)

section All

variable {edit : Edit} {edits more : List Edit} {view : View} {u : Location}

theorem applyAll_append : applyAll (edits ++ more) view = applyAll more (applyAll edits view) :=
  List.foldl_append

theorem fitsAll_append :
    FitsAll (edits ++ more) view ↔ FitsAll edits view ∧ FitsAll more (applyAll edits view) := by
  induction edits generalizing view with
  | nil => exact ⟨fun h => ⟨trivial, h⟩, fun h => h.2⟩
  | cons edit edits ih =>
    rw [List.cons_append, FitsAll, FitsAll, ih, and_assoc]
    rfl

/-- What stands at a location after all edits, if one of them settles it. -/
def settledBy? : List Edit → Location → Option (Option DirEntry)
  | [], _ => none
  | edit :: rest, u => settledBy? rest u <|> edit.settled? u

theorem applyAll_eq : applyAll edits view u = (settledBy? edits u).getD (view u) := by
  induction edits generalizing view with
  | nil => rfl
  | cons edit edits ih =>
    have hcons : applyAll (edit :: edits) view = applyAll edits (edit.apply view) := rfl
    rw [hcons, ih, settledBy?, apply]
    cases settledBy? edits u with
    | none => rfl
    | some e => rfl

theorem applyAll_applyAll : applyAll edits (applyAll edits view) = applyAll edits view := by
  funext u
  rw [applyAll_eq, applyAll_eq]
  cases settledBy? edits u <;> rfl

theorem settledBy?_append :
    settledBy? (edits ++ more) u = (settledBy? more u <|> settledBy? edits u) := by
  induction edits with
  | nil => cases h : settledBy? more u <;> simp [settledBy?, h]
  | cons edit edits ih =>
    rw [List.cons_append, settledBy?, ih, settledBy?]
    cases settledBy? more u <;> rfl

theorem exists_of_settledBy? {e : Option DirEntry} (h : settledBy? edits u = some e) :
    ∃ edit ∈ edits, edit.settled? u = some e := by
  induction edits with
  | nil => cases h
  | cons edit edits ih =>
    rw [settledBy?] at h
    cases hrest : settledBy? edits u with
    | none =>
      rw [hrest] at h
      exact ⟨edit, List.mem_cons_self, h⟩
    | some e' =>
      rw [hrest] at h
      obtain ⟨edit', hmem, hsettled⟩ := ih (hrest.trans h)
      exact ⟨edit', List.mem_cons_of_mem _ hmem, hsettled⟩

/-- Whether two lists of edits leave the same wherever both settle what stands there. -/
def Agree (edits more : List Edit) : Prop :=
  ∀ edit ∈ edits, ∀ edit' ∈ more, ∀ u e e',
    edit.settled? u = some e → edit'.settled? u = some e' → e = e'

theorem agree_of_below {l l' : Location} (h : ¬ l <+: l' ∧ ¬ l' <+: l)
    (hl : ∀ edit ∈ edits, l <+: edit.site) (hl' : ∀ edit ∈ more, l' <+: edit.site) :
    Agree edits more := by
  intro edit hedit edit' hedit' u e e' hsettled hsettled'
  rcases settled?_cases hsettled with ⟨hu, he⟩ | hu
  · rcases settled?_cases hsettled' with ⟨hu', he'⟩ | hu'
    · exact he.trans he'.symm
    · -- What is below both locations would be below one that is below the other.
      have hboth : l' <+: edit.site := (hl' edit' hedit').trans (hu'.trans hu)
      exact ((List.prefix_or_prefix_of_prefix (hl edit hedit) hboth).elim h.1 h.2).elim
  · have hbelow : l <+: u := (hl edit hedit).trans hu
    rcases settled?_cases hsettled' with ⟨hu', _⟩ | hu'
    · have hboth : l <+: edit'.site := hbelow.trans hu'
      exact ((List.prefix_or_prefix_of_prefix hboth (hl' edit' hedit')).elim h.1 h.2).elim
    · have hboth : l' <+: u := (hl' edit' hedit').trans hu'
      exact ((List.prefix_or_prefix_of_prefix hbelow hboth).elim h.1 h.2).elim

theorem unsettled_of_below {l l' : Location} (h : ¬ l <+: l' ∧ ¬ l' <+: l)
    (hl : ∀ edit ∈ edits, l <+: edit.site) (hu : l' <+: u) :
    ∀ edit ∈ edits, edit.settled? u = none := by
  intro edit hedit
  cases hsettled : edit.settled? u with
  | none => rfl
  | some e =>
    exfalso
    rcases settled?_cases hsettled with ⟨hsite, _⟩ | hsite
    · have hboth : l' <+: edit.site := hu.trans hsite
      exact (List.prefix_or_prefix_of_prefix (hl edit hedit) hboth).elim h.1 h.2
    · have hboth : l <+: u := (hl edit hedit).trans hsite
      exact (List.prefix_or_prefix_of_prefix hboth hu).elim h.1 h.2

theorem Agree.applyAll_comm (h : Agree edits more) :
    applyAll edits (applyAll more view) = applyAll more (applyAll edits view) := by
  funext u
  rw [← applyAll_append, ← applyAll_append, applyAll_eq, applyAll_eq, settledBy?_append,
    settledBy?_append]
  cases hedits : settledBy? edits u with
  | none => cases settledBy? more u <;> rfl
  | some e =>
    cases hmore : settledBy? more u with
    | none => rfl
    | some e' =>
      obtain ⟨edit, hmem, hsettled⟩ := exists_of_settledBy? hedits
      obtain ⟨edit', hmem', hsettled'⟩ := exists_of_settledBy? hmore
      exact h edit hmem edit' hmem' u e e' hsettled hsettled'

theorem applyAll_of_unsettled (h : ∀ edit ∈ edits, edit.settled? u = none) :
    applyAll edits view u = view u := by
  induction edits generalizing view with
  | nil => rfl
  | cons edit edits ih =>
    have hcons : applyAll (edit :: edits) view = applyAll edits (edit.apply view) := rfl
    rw [hcons, ih fun edit hedit => h edit (List.mem_cons_of_mem _ hedit), apply,
      h edit List.mem_cons_self]
    rfl

theorem FitsAll.isFile {l : Location} {e : Option DirEntry} (h : FitsAll edits view)
    (hput : put l e ∈ edits) : IsFile e := by
  induction edits generalizing view with
  | nil => cases hput
  | cons edit edits ih =>
    obtain ⟨hfits, hrest⟩ := h
    rcases List.mem_cons.mp hput with rfl | hput
    · exact hfits.1
    · exact ih hrest hput

theorem FitsAll.apart (h : FitsAll edits view) (hu : ∀ edit ∈ edits, ¬ edit.Replaces u) :
    applyAll edits view u = view u ∨ view u = none ∧ applyAll edits view u = some .dir := by
  induction edits generalizing view with
  | nil => exact .inl rfl
  | cons edit edits ih =>
    obtain ⟨hfits, hrest⟩ := h
    have hlater := ih hrest fun edit hedit => hu edit (List.mem_cons_of_mem _ hedit)
    change applyAll edits (edit.apply view) u = _ ∨ _ ∧ applyAll edits (edit.apply view) u = _
    rcases hfits.apart (hu edit List.mem_cons_self) with heq | ⟨hn, hd⟩
    · rwa [heq] at hlater
    · rcases hlater with heq | ⟨hn', _⟩
      · exact .inr ⟨hn, by rw [heq, hd]⟩
      · rw [hd] at hn'
        cases hn'

theorem applyAll_open (hu : view u = none ∨ view u = some .dir) (hne : ∀ e, put u e ∉ edits) :
    applyAll edits view u = none ∨ applyAll edits view u = some .dir := by
  induction edits generalizing view with
  | nil => exact hu
  | cons edit edits ih =>
    refine ih (apply_open hu fun e heq => hne e ?_) fun e hmem => hne e (List.mem_cons_of_mem _ hmem)
    rw [heq]
    exact List.mem_cons_self

theorem FitsAll.applyAll_dir (h : FitsAll edits view) (hu : view u = some .dir)
    (hr : ∀ edit ∈ edits, ¬ edit.Removes u) : applyAll edits view u = some .dir := by
  induction edits generalizing view with
  | nil => exact hu
  | cons edit edits ih =>
    obtain ⟨hfits, hrest⟩ := h
    exact ih hrest (hfits.apply_dir hu (hr edit List.mem_cons_self))
      fun edit hedit => hr edit (List.mem_cons_of_mem _ hedit)

theorem FitsAll.applyAll_ne_link (h : FitsAll edits view) (target : Path)
    (hu : view u ≠ some (.link target)) : applyAll edits view u ≠ some (.link target) := by
  induction edits generalizing view with
  | nil => exact hu
  | cons edit edits ih =>
    obtain ⟨hfits, hrest⟩ := h
    exact ih hrest (hfits.apply_ne_link target hu)

end All

end Edit

open Edit

theorem fits_dirs_of_isDirAt {fs : FileSystem} {l : Location} (h : fs.isDirAt l) :
    (dirs l).Fits fs.entry? := by
  intro u hu
  have hdir := isDirAt_of_prefix fs _ _ h hu
  exact .inr ((isDirAt_iff _ _).mp hdir)

/-- Whether some edits, one after the other, are what has been done to the files. Where relative paths
start is as before, or has been removed. -/
structure EditedBy (edits : List Edit) (fs fs' : FileSystem) : Prop where
  fits : FitsAll edits fs.entry?
  entry? : fs'.entry? = applyAll edits fs.entry?
  start : SameStart fs fs' ∧ (fs.isDirAt fs.workingDir → ∀ edit ∈ edits, ¬ edit.Removes fs.workingDir) ∨
    (∃ edit ∈ edits, edit.Removes fs.workingDir) ∧ 0 < fs'.lostLevels

namespace EditedBy

variable {edit : Edit} {edits more : List Edit} {fs fs' fs'' : FileSystem} {u : Location} {p : Path}

theorem nil (fs : FileSystem) : EditedBy [] fs fs :=
  ⟨trivial, rfl, .inl ⟨⟨rfl, rfl⟩, by simp⟩⟩

theorem single (hfits : edit.Fits fs.entry?) (hentry : ∀ u, fs'.entry? u = edit.apply fs.entry? u)
    (hstart : SameStart fs fs' ∧ (fs.isDirAt fs.workingDir → ¬ edit.Removes fs.workingDir) ∨
      edit.Removes fs.workingDir ∧ 0 < fs'.lostLevels) : EditedBy [edit] fs fs' where
  fits := ⟨hfits, trivial⟩
  entry? := funext hentry
  start := by
    rcases hstart with ⟨hsame, hkept⟩ | ⟨hremoved, hlost⟩
    · refine .inl ⟨hsame, fun hd edit' hedit => ?_⟩
      obtain rfl := List.mem_singleton.mp hedit
      exact hkept hd
    · exact .inr ⟨⟨edit, List.mem_singleton_self _, hremoved⟩, hlost⟩

theorem isDirAt (h : EditedBy edits fs fs') (hd : fs.isDirAt u)
    (hr : ∀ edit ∈ edits, ¬ edit.Removes u) : fs'.isDirAt u := by
  rw [isDirAt_iff] at hd ⊢
  rw [h.entry?]
  exact h.fits.applyAll_dir hd hr

theorem append (h : EditedBy edits fs fs') (h' : EditedBy more fs' fs'') :
    EditedBy (edits ++ more) fs fs'' where
  fits := by
    rw [fitsAll_append, ← h.entry?]
    exact ⟨h.fits, h'.fits⟩
  entry? := by rw [applyAll_append, ← h.entry?, h'.entry?]
  start := by
    rcases h.start with ⟨hsame, hkept⟩ | ⟨⟨edit, hedit, hremoved⟩, hlost⟩
    · rcases h'.start with ⟨hsame', hkept'⟩ | ⟨⟨edit, hedit, hremoved⟩, hlost⟩
      · refine .inl ⟨⟨hsame'.1.trans hsame.1, hsame'.2.trans hsame.2⟩, fun hd edit hedit => ?_⟩
        rw [hsame.1] at hkept'
        rcases List.mem_append.mp hedit with hedit | hedit
        · exact hkept hd edit hedit
        · exact hkept' (h.isDirAt hd (hkept hd)) edit hedit
      · rw [hsame.1] at hremoved
        exact .inr ⟨⟨edit, List.mem_append_right _ hedit, hremoved⟩, hlost⟩
    · refine .inr ⟨⟨edit, List.mem_append_left _ hedit, hremoved⟩, ?_⟩
      rcases h'.start with ⟨hsame', _⟩ | ⟨_, hlost'⟩
      · rw [hsame'.2]
        exact hlost
      · exact hlost'

theorem sameStart (h : EditedBy edits fs fs') (hr : ∀ edit ∈ edits, ¬ edit.Removes fs.workingDir) :
    SameStart fs fs' := by
  rcases h.start with ⟨hsame, _⟩ | ⟨⟨edit, hedit, hremoved⟩, _⟩
  · exact hsame
  · exact absurd hremoved (hr edit hedit)

theorem sameStart_of_not_lost (h : EditedBy edits fs fs') (hlost : fs'.lostLevels = 0) :
    SameStart fs fs' := by
  rcases h.start with ⟨hsame, _⟩ | ⟨_, hpos⟩
  · exact hsame
  · omega

theorem entry?_of_unsettled (h : EditedBy edits fs fs') (hu : ∀ edit ∈ edits, edit.settled? u = none) :
    fs'.entry? u = fs.entry? u := by
  rw [h.entry?, applyAll_of_unsettled hu]

theorem apart (h : EditedBy edits fs fs') (hu : ∀ edit ∈ edits, ¬ edit.Replaces u) :
    fs'.entry? u = fs.entry? u ∨ fs.entry? u = none ∧ fs'.entry? u = some .dir := by
  rw [h.entry?]
  exact h.fits.apart hu

theorem entry?_file_iff (h : EditedBy edits fs fs') (hu : ∀ edit ∈ edits, ¬ edit.Replaces u)
    {mode : Mode} {content : Bytes} :
    fs'.entry? u = some (.file mode content) ↔ fs.entry? u = some (.file mode content) := by
  rcases h.apart hu with heq | ⟨hn, hd⟩
  · rw [heq]
  · rw [hn, hd]
    simp

theorem renewed {l : Location} (h : EditedBy [.renew l] fs fs') :
    fs'.entry? l = some .dir ∧ ∀ u, l <+: u → u ≠ l → fs'.entry? u = none := by
  have hentry : ∀ u, fs'.entry? u = (Edit.renew l).apply fs.entry? u := by
    intro u
    rw [h.entry?]
    rfl
  refine ⟨?_, fun u hu hne => ?_⟩
  · rw [hentry, apply_renew, if_pos (List.prefix_refl _)]
  · rw [hentry, apply_renew, if_pos hu, if_neg]
    intro hul
    exact hne (hul.eq_of_length_le hu.length_le)

end EditedBy

end FileSystem

end LaunchDist
