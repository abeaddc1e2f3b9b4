import LaunchDist.FileSystem.Operations
import LaunchDist.Proofs.FileSystem.Lookup
/-!
# Where a path leads

The operations start a look-up at the root or at the working directory, which may have been removed. A
path reaches a node if the walk from there does.
-/
namespace LaunchDist

namespace FileSystem

open LaunchDist.Path (Step namesOf IsEntryName)

/-- Whether the system looks the path up at all. -/
structure Nameable (p : Path) : Prop where
  isTooLong : isTooLong p = false
  zero_notMem : 0 ∉ p.bytes
  ne_nil : p.bytes ≠ []

/-- The walk of steps, with the links that may still be followed at its end. -/
def ReachesAlong (fs : FileSystem) (absolute : Bool) (steps : List Step) (k : Nat) (v : Location) :
    Prop :=
  ∃ start rest, fs.originOf absolute steps = some (start, rest) ∧ Leads fs maxLinks start rest k v

/-- The walk of a path. -/
def Reaches (fs : FileSystem) (p : Path) (k : Nat) (v : Location) : Prop :=
  fs.ReachesAlong p.isAbsolute p.steps k v

theorem ascend_append (levels : Nat) (xs ys zs : List Step) (h : ascend levels xs = some zs) :
    ascend levels (xs ++ ys) = some (zs ++ ys) := by
  induction xs generalizing levels with
  | nil =>
    cases levels with
    | zero => rw [ascend_zero] at h ⊢; cases h; rfl
    | succ levels => cases h
  | cons s xs ih =>
    cases levels with
    | zero => cases h; rfl
    | succ levels => cases s <;> first | exact ih _ h | cases h

theorem ascend_of_up_notMem (levels : Nat) (ys : List Step) (h : Step.up ∉ ys) :
    ascend (levels + 1) ys = none := by
  induction ys with
  | nil => rfl
  | cons s ys ih =>
    have hys : Step.up ∉ ys := fun hm => h (List.mem_cons_of_mem _ hm)
    cases s with
    | up => exact absurd List.mem_cons_self h
    | here => exact ih hys
    | slash => exact ih hys
    | name n => rfl

/-- Where the last steps cannot leave a removed directory, the steps before them have to. -/
theorem ascend_append_eq (levels : Nat) (xs ys : List Step)
    (h : ∀ levels, ascend (levels + 1) ys = none) :
    ascend levels (xs ++ ys) = (ascend levels xs).map (· ++ ys) := by
  cases hx : ascend levels xs with
  | some zs => rw [ascend_append _ _ _ _ hx]; rfl
  | none =>
    rw [Option.map_none]
    induction xs generalizing levels with
    | nil =>
      cases levels with
      | zero => cases hx
      | succ levels => exact h levels
    | cons s xs ih =>
      cases levels with
      | zero => cases hx
      | succ levels => cases s <;> first | exact ih _ hx | rfl

theorem lookupRelative_eq (fs : FileSystem) (purpose : Purpose) (levels : Nat) (xs ys : List Step)
    (h : ascend levels xs = some ys) :
    fs.lookupRelative purpose levels xs = fs.lookupSteps purpose maxLinks fs.workingDir ys := by
  induction xs generalizing levels with
  | nil =>
    cases levels with
    | zero => cases h; rfl
    | succ levels => cases h
  | cons s xs ih =>
    cases levels with
    | zero => cases h; rfl
    | succ levels => cases s <;> first | exact ih _ h | cases h

theorem lookupRelative_of_ascend_none (fs : FileSystem) (purpose : Purpose) (levels : Nat)
    (xs : List Step) (spot : Spot) (h : ascend levels xs = none)
    (hs : fs.lookupRelative purpose levels xs = .ok spot) : spot = .removed ∧ namesOf xs = [] := by
  induction xs generalizing levels with
  | nil =>
    cases levels with
    | zero => cases h
    | succ levels => cases hs; exact ⟨rfl, rfl⟩
  | cons s xs ih =>
    cases levels with
    | zero => cases h
    | succ levels =>
      cases s with
      | here => exact ih _ h hs
      | slash => exact ih _ h hs
      | up => exact ih _ h hs
      | name n =>
        rw [lookupRelative] at hs
        by_cases hc : purpose = .create ∧ xs = [.slash]
        · rw [if_pos hc] at hs
          cases hs
        · rw [if_neg hc] at hs
          cases hs

theorem lookupRelative_removed (fs : FileSystem) (purpose : Purpose) (levels : Nat) (xs : List Step)
    (h : ascend levels xs = none) (hnames : namesOf xs = []) :
    fs.lookupRelative purpose levels xs = .ok .removed := by
  induction xs generalizing levels with
  | nil =>
    cases levels with
    | zero => cases h
    | succ levels => rfl
  | cons s xs ih =>
    cases levels with
    | zero => cases h
    | succ levels =>
      cases s with
      | here => exact ih _ h hnames
      | slash => exact ih _ h hnames
      | up => exact ih _ h hnames
      | name n => cases hnames

section Locate

variable {fs : FileSystem} {purpose : Purpose} {p : Path} {spot : Spot}

theorem locate_eq (hp : Nameable p) :
    fs.locate purpose p =
      if p.isAbsolute then (fs.lookupSteps purpose maxLinks [] p.steps).mapError .system
      else if purpose = .canonical ∧ 0 < fs.lostLevels then .error (.system .noEntry)
      else (fs.lookupRelative purpose fs.lostLevels p.steps).mapError .system := by
  rw [locate, if_neg (by simp [hp.isTooLong]), resolve, if_neg (by simpa using hp.zero_notMem),
    if_neg hp.ne_nil]

private theorem nameable_or_refused (fs : FileSystem) (purpose : Purpose) (p : Path) :
    Nameable p ∨ ∃ failure, fs.locate purpose p = .error failure ∧
      (p.bytes ≠ [] → failure ≠ .system .noEntry) := by
  rw [locate]
  by_cases hlong : isTooLong p ∧ ¬ p.bytes.contains 0
  · exact .inr ⟨_, if_pos hlong, fun _ => by decide⟩
  rw [if_neg hlong, resolve]
  by_cases hzero : p.bytes.contains 0
  · exact .inr ⟨_, if_pos hzero, fun _ => by decide⟩
  rw [if_neg hzero]
  by_cases hnil : p.bytes = []
  · exact .inr ⟨_, if_pos hnil, fun hb => absurd hnil hb⟩
  · refine .inl ⟨?_, by simpa using hzero, hnil⟩
    rw [← Bool.not_eq_true]
    exact fun h => hlong ⟨h, hzero⟩

theorem nameable_of_locate (h : fs.locate purpose p = .ok spot) : Nameable p := by
  refine (nameable_or_refused fs purpose p).resolve_right ?_
  rintro ⟨_, hfails, _⟩
  cases h.symm.trans hfails

theorem nameable_of_noEntry (hb : p.bytes ≠ [])
    (h : fs.locate purpose p = .error (.system .noEntry)) : Nameable p := by
  refine (nameable_or_refused fs purpose p).resolve_right ?_
  rintro ⟨_, hfails, hne⟩
  cases h.symm.trans hfails
  exact hne hb rfl

private theorem mapError_eq_ok {ε ε' α : Type} {f : ε → ε'} {x : Except ε α} {a : α} :
    x.mapError f = .ok a ↔ x = .ok a := by
  cases x with
  | error e => simp [Except.mapError]
  | ok b => simp [Except.mapError]

theorem locate_of_origin? (hcan : purpose ≠ .canonical) (hp : Nameable p) {start : Location}
    {steps : List Step} (ho : fs.origin? p = some (start, steps))
    (h : fs.lookupSteps purpose maxLinks start steps = .ok spot) :
    fs.locate purpose p = .ok spot := by
  rw [locate_eq hp]
  rw [origin?, originOf] at ho
  by_cases ha : p.isAbsolute
  · rw [if_pos ha] at ho ⊢
    cases ho
    exact mapError_eq_ok.mpr h
  · rw [if_neg ha, Option.map_eq_some_iff] at ho
    obtain ⟨_, hasc, heq⟩ := ho
    cases heq
    rw [if_neg ha, if_neg (fun hc => hcan hc.1), lookupRelative_eq _ _ _ _ _ hasc]
    exact mapError_eq_ok.mpr h

/-- A look-up that succeeds starts somewhere, unless it stays in a removed directory. -/
theorem origin?_of_locate (hcan : purpose ≠ .canonical) (h : fs.locate purpose p = .ok spot) :
    (∃ start steps, fs.origin? p = some (start, steps) ∧
      fs.lookupSteps purpose maxLinks start steps = .ok spot) ∨
    (spot = .removed ∧ fs.origin? p = none ∧ namesOf p.steps = []) := by
  rw [locate_eq (nameable_of_locate h)] at h
  rw [origin?, originOf]
  by_cases ha : p.isAbsolute
  · rw [if_pos ha] at h ⊢
    exact .inl ⟨[], p.steps, rfl, mapError_eq_ok.mp h⟩
  · rw [if_neg ha, if_neg (fun hc => hcan hc.1), mapError_eq_ok] at h
    rw [if_neg ha]
    cases hasc : ascend fs.lostLevels p.steps with
    | some steps =>
      rw [lookupRelative_eq _ _ _ _ _ hasc] at h
      exact .inl ⟨fs.workingDir, steps, rfl, h⟩
    | none =>
      obtain ⟨hspot, hnames⟩ := lookupRelative_of_ascend_none _ _ _ _ _ hasc h
      exact .inr ⟨hspot, rfl, hnames⟩

theorem origin?_of_removed (hcan : purpose ≠ .canonical) (h : fs.locate purpose p = .ok .removed) :
    fs.origin? p = none ∧ namesOf p.steps = [] := by
  rcases origin?_of_locate hcan h with ⟨start, steps, _, hs⟩ | ⟨_, ho, hnames⟩
  · exact absurd hs lookupSteps_ne_removed
  · exact ⟨ho, hnames⟩

theorem locate_removed (hcan : purpose ≠ .canonical) (hp : Nameable p) (ho : fs.origin? p = none)
    (hnames : namesOf p.steps = []) : fs.locate purpose p = .ok .removed := by
  rw [locate_eq hp]
  rw [origin?, originOf] at ho
  by_cases ha : p.isAbsolute
  · rw [if_pos ha] at ho
    cases ho
  · rw [if_neg ha, Option.map_eq_none_iff] at ho
    rw [if_neg ha, if_neg (fun hc => hcan hc.1), lookupRelative_removed _ _ _ _ ho hnames]
    rfl

theorem locate_of_find {l? : Option Location} {e : DirEntry} (h : fs.find purpose p = .ok (l?, e)) :
    (∃ l, l? = some l ∧ fs.locate purpose p = .ok (.found l) ∧ fs.entry? l = some e) ∨
      l? = none ∧ fs.locate purpose p = .ok .removed := by
  rw [find] at h
  cases hloc : fs.locate purpose p with
  | error failure => rw [hloc] at h; cases h
  | ok spot =>
    rw [hloc] at h
    cases spot with
    | removed => cases h; exact .inr ⟨rfl, rfl⟩
    | vacant v n => cases h
    | found l =>
      cases he : fs.entry? l with
      | none => simp [he] at h
      | some e' =>
        simp only [he, Except.ok.injEq, Prod.mk.injEq] at h
        obtain ⟨rfl, rfl⟩ := h
        exact .inl ⟨l, rfl, rfl, he⟩

theorem locate_of_find_some {l : Location} {e : DirEntry} (h : fs.find purpose p = .ok (some l, e)) :
    fs.locate purpose p = .ok (.found l) ∧ fs.entry? l = some e := by
  rcases locate_of_find h with ⟨_, heq, hl⟩ | ⟨hnone, _⟩
  · obtain rfl := Option.some.inj heq
    exact hl
  · cases hnone

/-- A removed directory is found by a path without names only. -/
theorem location_of_find (hcan : purpose ≠ .canonical) (hnames : namesOf p.steps ≠ [])
    {l? : Option Location} {e : DirEntry} (h : fs.find purpose p = .ok (l?, e)) :
    ∃ l, l? = some l ∧ fs.locate purpose p = .ok (.found l) ∧ fs.entry? l = some e := by
  rcases locate_of_find h with hl | ⟨_, hloc⟩
  · exact hl
  · exact absurd (origin?_of_removed hcan hloc).2 hnames

theorem nameable_of_find {found : Option Location × DirEntry} (h : fs.find purpose p = .ok found) :
    Nameable p := by
  rw [find] at h
  cases hloc : fs.locate purpose p with
  | error e => rw [hloc] at h; cases h
  | ok spot => exact nameable_of_locate hloc

theorem stat_of_find {l? : Option Location} {e : DirEntry} (h : fs.find .follow p = .ok (l?, e)) :
    fs.stat p = .ok e := by
  rw [stat, h]
  rfl

theorem find_of_stat {e : DirEntry} (h : fs.stat p = .ok e) : ∃ l?, fs.find .follow p = .ok (l?, e) := by
  rw [stat] at h
  cases hf : fs.find .follow p with
  | error e => rw [hf] at h; cases h
  | ok found =>
    rw [hf] at h
    obtain rfl := Except.ok.inj h
    exact ⟨found.1, rfl⟩

theorem find_of_isDir (h : fs.isDir p) : ∃ l, fs.find .follow p = .ok (l, .dir) := by
  rw [isDir] at h
  split at h
  · rename_i hstat
    exact find_of_stat hstat
  · cases h

theorem find_of_stat_file {mode : Mode} {content : Bytes}
    (h : fs.stat p = .ok (.file mode content)) :
    ∃ l, fs.find .follow p = .ok (some l, .file mode content) := by
  obtain ⟨l?, hf⟩ := find_of_stat h
  rcases locate_of_find hf with ⟨l, rfl, _⟩ | ⟨_, hloc⟩
  · exact ⟨l, hf⟩
  · -- Only a directory is found that has been removed.
    rw [find, hloc] at hf
    cases hf

theorem readText_ok_iff {text : String} :
    fs.readText p = .ok text ↔ ∃ l mode content,
      fs.find .follow p = .ok (some l, .file mode content) ∧ Utf8.decode? content = some text := by
  rw [readText, FileSystem.read]
  constructor
  · intro h
    split at h
    · rename_i content hread
      split at hread
      · rename_i mode content' hstat
        obtain rfl := Except.ok.inj hread
        obtain ⟨l, hf⟩ := find_of_stat_file hstat
        split at h
        · rename_i hd
          exact ⟨l, mode, content', hf, hd.trans (congrArg some (Except.ok.inj h))⟩
        · cases h
      all_goals cases hread
    · cases h
  · rintro ⟨l, mode, content, hf, hd⟩
    rw [stat_of_find hf]
    simp only [hd]

theorem isFile_iff :
    fs.isFile p = true ↔ ∃ l mode content, fs.find .follow p = .ok (some l, .file mode content) := by
  constructor
  · intro h
    rw [isFile] at h
    split at h
    · rename_i mode content hstat
      obtain ⟨l, hf⟩ := find_of_stat_file hstat
      exact ⟨l, mode, content, hf⟩
    · cases h
  · rintro ⟨l, mode, content, hf⟩
    rw [isFile, stat_of_find hf]

theorem find_follow_iff {l : Location} {e : DirEntry} :
    fs.find .follow p = .ok (some l, e) ↔
      Nameable p ∧ (∃ k, Reaches fs p k l) ∧ fs.entry? l = some e := by
  constructor
  · intro h
    obtain ⟨hloc, he⟩ := locate_of_find_some h
    rcases origin?_of_locate (by decide) hloc with ⟨start, steps, ho, hs⟩ | ⟨hspot, _⟩
    · obtain ⟨k, hk⟩ := leads_of_found (.inl rfl) hs
      exact ⟨nameable_of_locate hloc, ⟨k, start, steps, ho, hk⟩, he⟩
    · cases hspot
  · rintro ⟨hp, ⟨k, start, steps, ho, hk⟩, he⟩
    rw [find, locate_of_origin? (by decide) hp ho hk.lookupSteps]
    simp only [he]

theorem reaches_of_find_dir (hcan : purpose ≠ .canonical) {l : Location}
    (h : fs.find purpose p = .ok (some l, .dir)) : ∃ k, Reaches fs p k l := by
  obtain ⟨hloc, he⟩ := locate_of_find_some h
  rcases origin?_of_locate hcan hloc with ⟨start, steps, ho, hs⟩ | ⟨hspot, _⟩
  · obtain ⟨k, hk⟩ := leads_of_found (.inr (.inr (.inr ((isDirAt_iff _ _).mpr he)))) hs
    exact ⟨k, start, steps, ho, hk⟩
  · cases hspot

theorem exists_find_of_isDir (hp : purpose = .inspect ∨ purpose = .directory) (h : fs.isDir p) :
    ∃ l? e, fs.find purpose p = .ok (l?, e) := by
  have hcan : purpose ≠ .canonical := by rcases hp with rfl | rfl <;> decide
  obtain ⟨l?, hf⟩ := find_of_isDir h
  have hname := nameable_of_find hf
  rcases locate_of_find hf with ⟨l, rfl, _⟩ | ⟨_, hloc⟩
  · obtain ⟨_, ⟨k, start, steps, ho, hk⟩, he⟩ := find_follow_iff.mp hf
    obtain ⟨w, hw, hne⟩ := hk.exists_found hp (by rw [he]; exact Option.some_ne_none _)
    obtain ⟨e, he⟩ := Option.ne_none_iff_exists'.mp hne
    refine ⟨some w, e, ?_⟩
    rw [find, locate_of_origin? hcan hname ho hw]
    simp only [he]
  · obtain ⟨ho, hnames⟩ := origin?_of_removed (by decide) hloc
    exact ⟨none, .dir, by rw [find, locate_removed hcan hname ho hnames]⟩

theorem not_isDir_of_find_error {e : FileFailure} (hp : purpose = .inspect ∨ purpose = .directory)
    (h : fs.find purpose p = .error e) : ¬ fs.isDir p := by
  intro hdir
  obtain ⟨_, _, hf⟩ := exists_find_of_isDir hp hdir
  rw [hf] at h
  cases h

end Locate

section Reach

variable {fs fs' : FileSystem} {p : Path} {k k' : Nat} {v w : Location}

theorem Reaches.unique (h : Reaches fs p k v) (h' : Reaches fs p k' w) : k = k' ∧ v = w := by
  obtain ⟨start, steps, ho, hl⟩ := h
  obtain ⟨start', steps', ho', hl'⟩ := h'
  rw [ho] at ho'
  cases ho'
  exact hl.unique hl'

/-- Whether relative paths start in the same place of two states. -/
def SameStart (fs fs' : FileSystem) : Prop :=
  fs'.workingDir = fs.workingDir ∧ fs'.lostLevels = fs.lostLevels

theorem sameStart_put (fs : FileSystem) (l : Location) (node : Node) : SameStart fs (fs.put l node) :=
  ⟨workingDir_put .., lostLevels_put ..⟩

theorem originOf_congr {absolute : Bool} (steps : List Step) (h : absolute ∨ SameStart fs fs') :
    fs'.originOf absolute steps = fs.originOf absolute steps := by
  rw [originOf, originOf]
  by_cases ha : absolute
  · rw [if_pos ha, if_pos ha]
  · obtain ⟨hw, hl⟩ := h.resolve_left ha
    rw [if_neg ha, if_neg ha, hw, hl]

theorem origin?_congr (h : p.isAbsolute ∨ SameStart fs fs') : fs'.origin? p = fs.origin? p :=
  originOf_congr p.steps h

theorem ReachesAlong.mono {absolute : Bool} {steps : List Step} (hk : Keeps fs fs')
    (hs : absolute ∨ SameStart fs fs') (h : fs.ReachesAlong absolute steps k v) :
    fs'.ReachesAlong absolute steps k v := by
  obtain ⟨start, rest, ho, hl⟩ := h
  exact ⟨start, rest, (originOf_congr steps hs).trans ho, hl.mono hk⟩

theorem Reaches.mono (hk : Keeps fs fs') (hs : p.isAbsolute ∨ SameStart fs fs')
    (h : Reaches fs p k v) : Reaches fs' p k v :=
  ReachesAlong.mono hk hs h

theorem trail_congr (hs : p.isAbsolute ∨ SameStart fs fs')
    (h : ∀ u ∈ fs.trail p, fs'.linkAt? u = fs.linkAt? u) : fs'.trail p = fs.trail p := by
  rw [trail] at h ⊢
  rw [trail, origin?_congr hs]
  cases ho : fs.origin? p with
  | none =>
    have ha : ¬ p.isAbsolute := by
      intro ha
      rw [origin?, originOf, if_pos ha] at ho
      cases ho
    simp only [(hs.resolve_left ha).1]
  | some o =>
    rw [ho] at h
    exact trailSteps_congr fs fs' _ _ _ h

theorem destination_congr (h : fs'.trail p = fs.trail p) : fs'.destination p = fs.destination p := by
  rw [destination, h, destination]

theorem workingDir_mem_trail (h : p.isAbsolute = false) : fs.workingDir ∈ fs.trail p := by
  rw [trail, origin?, originOf, h, if_neg (by decide)]
  cases ascend fs.lostLevels p.steps with
  | none => exact List.mem_singleton_self _
  | some steps => exact start_mem_trailSteps ..

theorem destination_mem_trail (fs : FileSystem) (p : Path) : fs.destination p ∈ fs.trail p := by
  have hne : fs.trail p ≠ [] := by
    rw [trail]
    split
    · exact List.ne_nil_of_mem (start_mem_trailSteps ..)
    · exact List.cons_ne_nil _ _
  rw [destination, List.getLastD_eq_getLast?, List.getLast?_eq_some_getLast hne]
  exact List.getLast_mem hne

theorem Reaches.getLast?_trail (h : Reaches fs p k v) : (fs.trail p).getLast? = some v := by
  obtain ⟨start, steps, ho, hl⟩ := h
  rw [trail, show fs.origin? p = _ from ho]
  exact hl.getLast?_trailSteps

theorem Reaches.destination_eq (h : Reaches fs p k v) : fs.destination p = v := by
  rw [destination, List.getLastD_eq_getLast?, h.getLast?_trail]
  rfl

theorem Reaches.mem_trail (h : Reaches fs p k v) : v ∈ fs.trail p :=
  List.mem_of_getLast? h.getLast?_trail

theorem Reaches.entry?_ne_none (h : Reaches fs p k v) (hv : fs.isDirAt v) (u : Location)
    (hu : u ∈ fs.trail p) : fs.entry? u ≠ none := by
  obtain ⟨start, steps, ho, hl⟩ := h
  rw [trail, show fs.origin? p = _ from ho] at hu
  exact hl.entry?_ne_none_of_mem (entry?_ne_none_of_isDirAt (hl.isDirAt_start hv)) u hu

/-- What a path leads to depends on what stands along its trail alone. -/
theorem find_of_same {e : DirEntry} (hf : fs.find .follow p = .ok (some v, e))
    (hs : p.isAbsolute ∨ SameStart fs fs') (h : ∀ u ∈ fs.trail p, fs'.entry? u = fs.entry? u) :
    fs'.find .follow p = .ok (some v, e) := by
  obtain ⟨hn, ⟨k, hr⟩, he⟩ := find_follow_iff.mp hf
  have hv := h v hr.mem_trail
  obtain ⟨start, steps, ho, hl⟩ := hr
  rw [trail, show fs.origin? p = _ from ho] at h
  exact find_follow_iff.mpr
    ⟨hn, ⟨k, start, steps, (origin?_congr hs).trans ho, hl.of_same h⟩, hv.trans he⟩

theorem entry?_ne_none_of_find {e : DirEntry} (hf : fs.find .follow p = .ok (some v, e)) (u : Location)
    (hu : u ∈ fs.trail p) : fs.entry? u ≠ none := by
  obtain ⟨_, ⟨k, start, steps, ho, hl⟩, he⟩ := find_follow_iff.mp hf
  rw [trail, show fs.origin? p = _ from ho] at hu
  exact hl.entry?_ne_none_of_mem
    (hl.entry?_start_ne_none (by rw [he]; exact Option.some_ne_none _)) u hu

end Reach

section Along

variable {fs : FileSystem} {absolute : Bool} {xs ys : List Step} {k k' : Nat} {v w : Location}

theorem originOf_append_eq {start : Location} {rest : List Step}
    (h : fs.originOf absolute xs = some (start, rest)) (ys : List Step) :
    fs.originOf absolute (xs ++ ys) = some (start, rest ++ ys) := by
  rw [originOf] at h ⊢
  cases absolute with
  | true => cases h; rfl
  | false =>
    rw [if_neg (by decide), Option.map_eq_some_iff] at h
    obtain ⟨zs, hasc, heq⟩ := h
    cases heq
    rw [if_neg (by decide), ascend_append _ _ _ _ hasc]
    rfl

theorem ReachesAlong.append (h : fs.ReachesAlong absolute xs k v) (hl : Leads fs k v ys k' w) :
    fs.ReachesAlong absolute (xs ++ ys) k' w := by
  obtain ⟨start, rest, ho, hx⟩ := h
  exact ⟨start, rest ++ ys, originOf_append_eq ho ys, hx.append hl⟩

theorem originOf_append (hys : ∀ levels, ascend (levels + 1) ys = none) {start : Location}
    {zs : List Step} (h : fs.originOf absolute (xs ++ ys) = some (start, zs)) :
    ∃ rest, fs.originOf absolute xs = some (start, rest) ∧ zs = rest ++ ys := by
  rw [originOf] at h ⊢
  cases absolute with
  | true => cases h; exact ⟨xs, rfl, rfl⟩
  | false =>
    rw [if_neg (by decide), ascend_append_eq _ _ _ hys, Option.map_map, Option.map_eq_some_iff] at h
    obtain ⟨rest, hasc, heq⟩ := h
    cases heq
    exact ⟨rest, by rw [if_neg (by decide), hasc]; rfl, rfl⟩

theorem ReachesAlong.split (hys : ∀ levels, ascend (levels + 1) ys = none)
    (h : fs.ReachesAlong absolute (xs ++ ys) k' w) :
    ∃ k v, fs.ReachesAlong absolute xs k v ∧ Leads fs k v ys k' w := by
  obtain ⟨start, zs, ho, hl⟩ := h
  obtain ⟨rest, hx, rfl⟩ := originOf_append hys ho
  obtain ⟨k, v, hl, hy⟩ := Leads.split rest ys hl
  exact ⟨k, v, ⟨start, rest, hx, hl⟩, hy⟩

/-- For a directory, the separator that ends a path does not matter. -/
theorem reaches_iff_moves {p : Path} (hv : fs.isDirAt v) :
    Reaches fs p k v ↔ fs.ReachesAlong p.isAbsolute p.moves k v := by
  rw [Reaches]
  rcases p.steps_cases with hs | hs
  · rw [hs]
  · rw [hs]
    constructor
    · intro h
      obtain ⟨k1, u, hx, hl⟩ := h.split (fun levels => ascend_of_up_notMem levels _ (by simp))
      cases hl with
      | stay _ _ hl =>
        cases hl
        exact hx
    · intro h
      exact h.append (.stay (.inr rfl) hv (.done k v))

end Along

section Entry

variable {fs : FileSystem} {purpose : Purpose} {p q : Path} {spot : Spot} {n : Name} {s : String}
  {xs ys : List Step} {k k' : Nat} {v w : Location}

private theorem ascend_name (n : Name) (ys : List Step) (levels : Nat) :
    ascend (levels + 1) (.name n :: ys) = none :=
  rfl

theorem reaches_before (hcan : purpose ≠ .canonical) (hq : q.steps = xs ++ .name n :: ys)
    (h : fs.locate purpose q = .ok spot) :
    ∃ k v, fs.ReachesAlong q.isAbsolute xs k v ∧ fs.isDirAt v ∧
      fs.lookupSteps purpose k v (.name n :: ys) = .ok spot := by
  rcases origin?_of_locate hcan h with ⟨start, zs, ho, hs⟩ | ⟨_, _, hnames⟩
  · rw [origin?, hq] at ho
    obtain ⟨rest, hx, rfl⟩ := originOf_append (ascend_name n ys) ho
    obtain ⟨k, v, hl, hs⟩ := leads_before rest ys n hs
    exact ⟨k, v, ⟨start, rest, hx, hl⟩, (lookupSteps_name_ok _ _ _ _ _ _ _ hs).1, hs⟩
  · rw [hq, Path.namesOf_append] at hnames
    exact absurd (List.append_eq_nil_iff.mp hnames).2 (List.cons_ne_nil _ _)

theorem locate_of_reachesAlong (hcan : purpose ≠ .canonical) (hn : Nameable q)
    (hq : q.steps = xs ++ .name n :: ys) (h : fs.ReachesAlong q.isAbsolute xs k v)
    (hs : fs.lookupSteps purpose k v (.name n :: ys) = .ok spot) :
    fs.locate purpose q = .ok spot := by
  obtain ⟨start, rest, ho, hl⟩ := h
  have hstart : fs.origin? q = some (start, rest ++ .name n :: ys) := by
    rw [origin?, hq]
    exact originOf_append_eq ho _
  apply locate_of_origin? hcan hn hstart
  rw [hl.lookupSteps_append hcan, hs]

theorem Reaches.join (h : Reaches fs p k v) (hv : fs.isDirAt v) (hq : q.isAbsolute = false)
    (hne : q.moves ≠ []) (hl : Leads fs k v q.steps k' w) : Reaches fs (p.join q) k' w := by
  rw [Reaches, Path.isAbsolute_join p q hq, Path.steps_join p q hq hne]
  exact ((reaches_iff_moves hv).mp h).append hl

theorem find_append_separators {l : Location} {n : Nat}
    (hf : fs.find .follow p = .ok (some l, .dir))
    (hlong : isTooLong ⟨p.bytes ++ List.replicate n Path.separator⟩ = false) :
    fs.find .follow ⟨p.bytes ++ List.replicate n Path.separator⟩ = .ok (some l, .dir) := by
  obtain ⟨hn, ⟨k, hr⟩, he⟩ := find_follow_iff.mp hf
  have hd := (isDirAt_iff _ _).mpr he
  have habs : (Path.mk (p.bytes ++ List.replicate n Path.separator)).isAbsolute = p.isAbsolute := by
    obtain ⟨b, bs, hb⟩ := List.exists_cons_of_ne_nil hn.ne_nil
    rw [Path.isAbsolute, Path.isAbsolute, hb]
    rfl
  refine find_follow_iff.mpr ⟨⟨hlong, ?_, by simp [hn.ne_nil]⟩, ⟨k, (reaches_iff_moves hd).mpr ?_⟩, he⟩
  · rw [List.mem_append]
    rintro (hzero | hzero)
    · exact hn.zero_notMem hzero
    · exact absurd (List.eq_of_mem_replicate hzero) (by decide)
  · rw [habs, Path.moves_append_separators]
    exact (reaches_iff_moves hd).mp hr

theorem Reaches.leads_of_join (h : Reaches fs p k v) (hq : q.isAbsolute = false) (hne : q.moves ≠ [])
    (hsteps : ∃ n rest, q.steps = .name n :: rest) (hj : Reaches fs (p.join q) k' w) :
    Leads fs k v q.steps k' w := by
  obtain ⟨n, rest, hsteps⟩ := hsteps
  rw [Reaches, Path.isAbsolute_join p q hq, Path.steps_join p q hq hne, hsteps] at hj
  obtain ⟨k1, u, hx, hl⟩ := hj.split (ascend_name n rest)
  obtain ⟨rfl, rfl⟩ := h.unique ((reaches_iff_moves hl.isDirAt_of_name).mpr hx)
  rwa [hsteps]

theorem reaches_entry_iff (hs : IsEntryName (Utf8.encode s)) :
    Reaches fs (p / s) k' w ↔
      ∃ k v, Reaches fs p k v ∧ fs.isDirAt v ∧ Leads fs k v [.name (Utf8.encode s)] k' w := by
  rw [Reaches, Path.isAbsolute_entry p s hs, Path.steps_entry p s hs]
  constructor
  · intro h
    obtain ⟨k, v, hx, hl⟩ := h.split (ascend_name _ _)
    have hv : fs.isDirAt v := hl.isDirAt_of_name
    exact ⟨k, v, (reaches_iff_moves hv).mpr hx, hv, hl⟩
  · rintro ⟨k, v, h, hv, hl⟩
    exact ((reaches_iff_moves hv).mp h).append hl

theorem locate_entry_iff (hp : purpose = .inspect ∨ purpose = .directory)
    (hs : IsEntryName (Utf8.encode s)) :
    fs.locate purpose (p / s) = .ok spot ↔
      Nameable (p / s) ∧ (Utf8.encode s).length ≤ maxNameLength ∧
        ∃ k v, Reaches fs p k v ∧ fs.isDirAt v ∧
          spot = if fs.entry? (v ++ [Utf8.encode s]) = none then .vacant v (Utf8.encode s)
            else .found (v ++ [Utf8.encode s]) := by
  have hcan : purpose ≠ .canonical := by rcases hp with rfl | rfl <;> decide
  have hsteps := Path.steps_entry p s hs
  constructor
  · intro h
    obtain ⟨k, v, hx, hv, hl⟩ := reaches_before hcan hsteps h
    obtain ⟨_, hn, rfl⟩ := (lookupSteps_lastName hp).mp hl
    rw [Path.isAbsolute_entry p s hs] at hx
    exact ⟨nameable_of_locate h, hn, k, v, (reaches_iff_moves hv).mpr hx, hv, rfl⟩
  · rintro ⟨hn, hlen, k, v, hx, hv, rfl⟩
    apply locate_of_reachesAlong hcan hn hsteps
    · rw [Path.isAbsolute_entry p s hs]
      exact (reaches_iff_moves hv).mp hx
    · exact (lookupSteps_lastName hp).mpr ⟨hv, hlen, rfl⟩

theorem mem_trail_iff_moves {start : Location} {rest : List Step}
    (ho : fs.originOf p.isAbsolute p.moves = some (start, rest))
    (hl : Leads fs maxLinks start rest k v) (u : Location) :
    u ∈ fs.trail p ↔ u ∈ fs.trailSteps maxLinks start rest := by
  rw [trail, origin?]
  rcases p.steps_cases with hs | hs
  · rw [hs, ho]
  · rw [hs, originOf_append_eq ho]
    simp only
    rw [hl.mem_trailSteps_append, trailSteps_stay _ _ _ _ _ (.inr rfl), trailSteps_nil,
      List.mem_singleton, or_iff_left_iff_imp]
    rintro rfl
    exact List.mem_of_getLast? hl.getLast?_trailSteps

theorem mem_trail_join (hq : q.isAbsolute = false) (hne : q.moves ≠ []) (h : Reaches fs p k v)
    (hv : fs.isDirAt v) (u : Location) :
    u ∈ fs.trail (p.join q) ↔ u ∈ fs.trail p ∨ u ∈ fs.trailSteps k v q.steps := by
  obtain ⟨start, rest, ho, hl⟩ := (reaches_iff_moves hv).mp h
  rw [mem_trail_iff_moves ho hl, trail, origin?, Path.isAbsolute_join p q hq,
    Path.steps_join p q hq hne, originOf_append_eq ho]
  exact hl.mem_trailSteps_append _ u

theorem mem_trail_entry (hs : IsEntryName (Utf8.encode s)) (h : Reaches fs p k v) (hv : fs.isDirAt v)
    (u : Location) :
    u ∈ fs.trail (p / s) ↔ u ∈ fs.trail p ∨ u ∈ fs.trailSteps k v [.name (Utf8.encode s)] := by
  rw [← hs.steps]
  exact mem_trail_join hs.isAbsolute (by rw [hs.moves]; exact List.cons_ne_nil _ _) h hv u

end Entry

end FileSystem

end LaunchDist
