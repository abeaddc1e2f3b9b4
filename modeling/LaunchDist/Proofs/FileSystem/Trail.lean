import LaunchDist.FileSystem.Lookup
import LaunchDist.Proofs.FileSystem.Tree
import LaunchDist.Proofs.Path.Components
/-!
# The way that a path takes

A look-up that succeeds is a walk from one existing node to the next. The trail of a path is the list
of locations that it names on its way, whether or not anything stands there: a missing node is taken
for a directory. It depends on the links of a state alone, so it stays as it is while files and
directories come and go.
-/
namespace LaunchDist

namespace FileSystem

open LaunchDist.Path (Step namesOf)

def linkAt? (fs : FileSystem) (l : Location) : Option Path :=
  match fs.entry? l with
  | some (.link target) => some target
  | _ => none

theorem linkAt?_eq_some_iff (fs : FileSystem) (l : Location) (target : Path) :
    fs.linkAt? l = some target ↔ fs.entry? l = some (.link target) := by
  rw [linkAt?]
  cases h : fs.entry? l with
  | none => simp
  | some entry => cases entry <;> simp

theorem entry?_ne_none_of_linkAt? {fs : FileSystem} {l : Location} {target : Path}
    (h : fs.linkAt? l = some target) : fs.entry? l ≠ none := by
  rw [(linkAt?_eq_some_iff _ _ _).mp h]
  exact Option.some_ne_none _

theorem linkAt?_congr {fs fs' : FileSystem} {l : Location} (h : fs'.entry? l = fs.entry? l) :
    fs'.linkAt? l = fs.linkAt? l := by
  rw [linkAt?, linkAt?, h]

theorem linkAt?_of_isDirAt {fs : FileSystem} {l : Location} (h : fs.isDirAt l) :
    fs.linkAt? l = none := by
  rw [linkAt?, (isDirAt_iff fs l).mp h]

/-- Where the steps of a link's target start. -/
def linkStart (current : Location) (target : Path) : Location :=
  if target.isAbsolute then [] else current

/-- The steps of a relative path that are left once it has climbed out of removed directories. -/
def ascend : Nat → List Step → Option (List Step)
  | 0, steps => some steps
  | levels + 1, .here :: rest | levels + 1, .slash :: rest => ascend (levels + 1) rest
  | levels + 1, .up :: rest => ascend levels rest
  | _ + 1, _ => none

@[simp] theorem ascend_zero (steps : List Step) : ascend 0 steps = some steps := by
  rw [ascend]

/-- The location where steps start, with those that are taken from there. -/
def originOf (fs : FileSystem) (absolute : Bool) (steps : List Step) :
    Option (Location × List Step) :=
  if absolute then some ([], steps) else (ascend fs.lostLevels steps).map (fs.workingDir, ·)

/-- The location where the look-up of a path starts, with the steps that it takes from there. -/
def origin? (fs : FileSystem) (p : Path) : Option (Location × List Step) :=
  fs.originOf p.isAbsolute p.steps

/-- The locations named up to the first link, from where `jump` goes on. -/
def trailWith (fs : FileSystem) (jump : Location → List Step → List Location) :
    Location → List Step → List Location
  | current, [] => [current]
  | current, .here :: rest | current, .slash :: rest => fs.trailWith jump current rest
  | current, .up :: rest => current :: fs.trailWith jump current.dropLast rest
  | current, .name n :: rest =>
    current :: match fs.linkAt? (current ++ [n]) with
      | some target => (current ++ [n]) :: jump (linkStart current target) (target.steps ++ rest)
      | none => fs.trailWith jump (current ++ [n]) rest

def trailSteps (fs : FileSystem) : Nat → Location → List Step → List Location
  | 0 => fs.trailWith fun _ _ => []
  | links + 1 => fs.trailWith (fs.trailSteps links)

/-- The locations that a path names on its way, links being followed. -/
def trail (fs : FileSystem) (p : Path) : List Location :=
  match fs.origin? p with
  | some (start, steps) => fs.trailSteps maxLinks start steps
  | none => [fs.workingDir]

/-- Where a path leads once the directories that it lacks are made. -/
def destination (fs : FileSystem) (p : Path) : Location :=
  (fs.trail p).getLastD []

/-- The place of an entry in the directory that a path leads to. -/
def place (fs : FileSystem) (p : Path) (n : Name) : Location :=
  fs.destination p ++ [n]

/-- The walk of a look-up through existing nodes, with the links that it may still follow. -/
inductive Leads (fs : FileSystem) : Nat → Location → List Step → Nat → Location → Prop
  | done (k : Nat) (l : Location) : Leads fs k l [] k l
  | stay {k l s rest k' v} (hs : s = .here ∨ s = .slash) (hd : fs.isDirAt l)
      (h : Leads fs k l rest k' v) : Leads fs k l (s :: rest) k' v
  | up {k l rest k' v} (hd : fs.isDirAt l) (h : Leads fs k l.dropLast rest k' v) :
      Leads fs k l (.up :: rest) k' v
  | enter {k l n rest k' v} (hd : fs.isDirAt l) (hn : n.length ≤ maxNameLength)
      (he : fs.entry? (l ++ [n]) ≠ none) (hl : fs.linkAt? (l ++ [n]) = none)
      (h : Leads fs k (l ++ [n]) rest k' v) : Leads fs k l (.name n :: rest) k' v
  | follow {k l n target rest k' v} (hd : fs.isDirAt l) (hn : n.length ≤ maxNameLength)
      (hl : fs.linkAt? (l ++ [n]) = some target)
      (h : Leads fs k (linkStart l target) (target.steps ++ rest) k' v) :
      Leads fs (k + 1) l (.name n :: rest) k' v

/-- An induction over the steps of a walk that restarts, with one link fewer, at each link. -/
theorem stepsInduction {motive : Nat → Location → List Step → Prop}
    (nil : ∀ k l, motive k l [])
    (cons : ∀ k l s rest, (∀ l', motive k l' rest) →
      (∀ k' l' steps, k = k' + 1 → motive k' l' steps) → motive k l (s :: rest))
    (k : Nat) (l : Location) (steps : List Step) : motive k l steps := by
  induction k generalizing l steps with
  | zero =>
    induction steps generalizing l with
    | nil => exact nil 0 l
    | cons s rest ih => exact cons 0 l s rest ih (fun _ _ _ h => absurd h (by simp))
  | succ k ihk =>
    induction steps generalizing l with
    | nil => exact nil (k + 1) l
    | cons s rest ih =>
      refine cons (k + 1) l s rest ih ?_
      intro k' l' steps hk
      obtain rfl := Nat.succ.inj hk
      exact ihk l' steps

/-- An entry without what a file holds. -/
def outline : DirEntry → DirEntry
  | .file _ _ => .file 0 []
  | entry => entry

/-- Whether all that stands in one state stands in another one, where files may hold anything. -/
def Keeps (fs fs' : FileSystem) : Prop :=
  ∀ v, fs.entry? v ≠ none → (fs'.entry? v).map outline = (fs.entry? v).map outline

namespace Keeps

variable {fs fs' : FileSystem} (h : Keeps fs fs') (v : Location)

include h

theorem ne_none (hv : fs.entry? v ≠ none) : fs'.entry? v ≠ none := by
  have hk := h v hv
  intro hn
  rw [hn, Option.map_none, eq_comm, Option.map_eq_none_iff] at hk
  exact hv hk

theorem linkAt? (hv : fs.entry? v ≠ none) : fs'.linkAt? v = fs.linkAt? v := by
  have hk := h v hv
  rw [FileSystem.linkAt?, FileSystem.linkAt?]
  cases he : fs.entry? v with
  | none => exact absurd he hv
  | some e =>
    cases he' : fs'.entry? v with
    | none => exact absurd he' (h.ne_none v hv)
    | some e' =>
      rw [he, he'] at hk
      cases e <;> cases e' <;> simp_all [outline]

theorem isDirAt (hv : fs.isDirAt v) : fs'.isDirAt v := by
  have hk := h v (entry?_ne_none_of_isDirAt hv)
  rw [isDirAt_iff] at hv ⊢
  rw [hv] at hk
  cases he' : fs'.entry? v with
  | none => rw [he'] at hk; cases hk
  | some e' =>
    rw [he'] at hk
    cases e' <;> simp_all [outline]

end Keeps

namespace Leads

variable {fs fs' : FileSystem} {k k' k1 k2 : Nat} {l v w : Location} {xs ys : List Step}

theorem append (hx : Leads fs k l xs k1 v) (hy : Leads fs k1 v ys k' w) :
    Leads fs k l (xs ++ ys) k' w := by
  induction hx with
  | done k l => exact hy
  | stay hs hd _ ih => exact .stay hs hd (ih hy)
  | up hd _ ih => exact .up hd (ih hy)
  | enter hd hn he hl _ ih => exact .enter hd hn he hl (ih hy)
  | follow hd hn hl _ ih =>
    have h := ih hy
    rw [List.append_assoc] at h
    exact .follow hd hn hl h

theorem split (xs ys : List Step) (h : Leads fs k l (xs ++ ys) k' w) :
    ∃ k1 v, Leads fs k l xs k1 v ∧ Leads fs k1 v ys k' w := by
  induction k, l, xs using stepsInduction with
  | nil k l => exact ⟨k, l, .done k l, h⟩
  | cons k l s xs ihr ihj =>
    cases h with
    | stay hs hd h =>
      obtain ⟨k1, v, hx, hy⟩ := ihr _ h
      exact ⟨k1, v, .stay hs hd hx, hy⟩
    | up hd h =>
      obtain ⟨k1, v, hx, hy⟩ := ihr _ h
      exact ⟨k1, v, .up hd hx, hy⟩
    | enter hd hn he hl h =>
      obtain ⟨k1, v, hx, hy⟩ := ihr _ h
      exact ⟨k1, v, .enter hd hn he hl hx, hy⟩
    | follow hd hn hl h =>
      obtain ⟨k1, v, hx, hy⟩ := ihj _ _ _ rfl (by rw [List.append_assoc]; exact h)
      exact ⟨k1, v, .follow hd hn hl hx, hy⟩

theorem unique (h : Leads fs k l xs k1 v) (h' : Leads fs k l xs k2 w) : k1 = k2 ∧ v = w := by
  induction h with
  | done k l =>
    cases h'
    exact ⟨rfl, rfl⟩
  | stay hs hd h ih =>
    cases h' with
    | stay _ _ h' => exact ih h'
    | up => simp at hs
    | enter => simp at hs
    | follow => simp at hs
  | up hd h ih =>
    cases h' with
    | stay hs => simp at hs
    | up _ h' => exact ih h'
  | enter hd hn he hl h ih =>
    cases h' with
    | stay hs => simp at hs
    | enter _ _ _ _ h' => exact ih h'
    | follow _ _ hl' => rw [hl] at hl'; cases hl'
  | follow hd hn hl h ih =>
    cases h' with
    | stay hs => simp at hs
    | enter _ _ _ hl' => rw [hl] at hl'; cases hl'
    | follow _ _ hl' h' =>
      rw [hl] at hl'
      obtain rfl := Option.some.inj hl'
      exact ih h'

theorem links_le (h : Leads fs k l xs k' v) : k' ≤ k := by
  induction h with
  | done => exact Nat.le_refl _
  | stay _ _ _ ih | up _ _ ih | enter _ _ _ _ _ ih => exact ih
  | follow _ _ _ _ ih => exact Nat.le_succ_of_le ih

theorem more (h : Leads fs k l xs k' v) (d : Nat) : Leads fs (k + d) l xs (k' + d) v := by
  induction h with
  | done k l => exact .done _ l
  | stay hs hd _ ih => exact .stay hs hd ih
  | up hd _ ih => exact .up hd ih
  | enter hd hn he hl _ ih => exact .enter hd hn he hl ih
  | follow hd hn hl _ ih =>
    rw [Nat.add_right_comm]
    exact .follow hd hn hl ih

theorem isDirAt_end {s : Step} (hs : ∀ n, s ≠ .name n) (h : Leads fs k l [s] k' v) :
    fs.isDirAt v := by
  cases h with
  | stay _ hd h =>
    cases h
    exact hd
  | up hd h =>
    cases h
    exact isDirAt_dropLast _ _ (entry?_ne_none_of_isDirAt hd)
  | enter => exact absurd rfl (hs _)
  | follow => exact absurd rfl (hs _)

theorem isDirAt_of_name {n : Name} (h : Leads fs k l (.name n :: xs) k' v) : fs.isDirAt l := by
  cases h with
  | stay _ hd => exact hd
  | enter hd => exact hd
  | follow hd => exact hd

theorem isDirAt_start (h : Leads fs k l xs k' v) (hv : fs.isDirAt v) : fs.isDirAt l := by
  cases h with
  | done => exact hv
  | stay _ hd => exact hd
  | up hd => exact hd
  | enter hd => exact hd
  | follow hd => exact hd

theorem mono (hk : Keeps fs fs') (h : Leads fs k l xs k' v) : Leads fs' k l xs k' v := by
  induction h with
  | done k l => exact .done k l
  | stay hs hd _ ih => exact .stay hs (hk.isDirAt _ hd) ih
  | up hd _ ih => exact .up (hk.isDirAt _ hd) ih
  | enter hd hn he hl _ ih =>
    exact .enter (hk.isDirAt _ hd) hn (hk.ne_none _ he) ((hk.linkAt? _ he).trans hl) ih
  | follow hd hn hl _ ih =>
    have he := entry?_ne_none_of_linkAt? hl
    exact .follow (hk.isDirAt _ hd) hn ((hk.linkAt? _ he).trans hl) ih

end Leads

section Trail

variable (fs fs' : FileSystem) (k : Nat) (l : Location) (n : Name) (rest : List Step)

@[simp] theorem trailSteps_nil : fs.trailSteps k l [] = [l] := by
  cases k <;> rfl

theorem trailSteps_stay (s : Step) (hs : s = .here ∨ s = .slash) :
    fs.trailSteps k l (s :: rest) = fs.trailSteps k l rest := by
  rcases hs with rfl | rfl <;> cases k <;> rfl

theorem trailSteps_up : fs.trailSteps k l (.up :: rest) = l :: fs.trailSteps k l.dropLast rest := by
  cases k <;> rfl

theorem trailSteps_enter (hl : fs.linkAt? (l ++ [n]) = none) :
    fs.trailSteps k l (.name n :: rest) = l :: fs.trailSteps k (l ++ [n]) rest := by
  cases k <;> rw [trailSteps, trailWith, hl]

theorem trailSteps_follow (target : Path) (hl : fs.linkAt? (l ++ [n]) = some target) :
    fs.trailSteps (k + 1) l (.name n :: rest) =
      l :: (l ++ [n]) :: fs.trailSteps k (linkStart l target) (target.steps ++ rest) := by
  rw [trailSteps, trailWith, hl]

theorem trailSteps_stuck (target : Path) (hl : fs.linkAt? (l ++ [n]) = some target) :
    fs.trailSteps 0 l (.name n :: rest) = [l, l ++ [n]] := by
  rw [trailSteps, trailWith, hl]

theorem start_mem_trailSteps (steps : List Step) : l ∈ fs.trailSteps k l steps := by
  induction steps with
  | nil => rw [trailSteps_nil]; exact List.mem_singleton_self l
  | cons s rest ih =>
    cases s with
    | here => rw [trailSteps_stay _ _ _ _ _ (.inl rfl)]; exact ih
    | slash => rw [trailSteps_stay _ _ _ _ _ (.inr rfl)]; exact ih
    | up => rw [trailSteps_up]; exact List.mem_cons_self
    | name n =>
      cases k with
      | zero => rw [trailSteps, trailWith]; exact List.mem_cons_self
      | succ k => rw [trailSteps, trailWith]; exact List.mem_cons_self

theorem trailSteps_congr (steps : List Step)
    (h : ∀ u ∈ fs.trailSteps k l steps, fs'.linkAt? u = fs.linkAt? u) :
    fs'.trailSteps k l steps = fs.trailSteps k l steps := by
  induction k, l, steps using stepsInduction with
  | nil k l => rw [trailSteps_nil, trailSteps_nil]
  | cons k l s rest ihr ihj =>
    cases s with
    | here =>
      rw [trailSteps_stay _ _ _ _ _ (.inl rfl)] at h ⊢
      rw [trailSteps_stay _ _ _ _ _ (.inl rfl)]
      exact ihr l h
    | slash =>
      rw [trailSteps_stay _ _ _ _ _ (.inr rfl)] at h ⊢
      rw [trailSteps_stay _ _ _ _ _ (.inr rfl)]
      exact ihr l h
    | up =>
      rw [trailSteps_up] at h ⊢
      rw [trailSteps_up, ihr l.dropLast (fun u hu => h u (List.mem_cons_of_mem _ hu))]
    | name n =>
      cases hl : fs.linkAt? (l ++ [n]) with
      | none =>
        rw [trailSteps_enter _ _ _ _ _ hl] at h ⊢
        have hl' : fs'.linkAt? (l ++ [n]) = none :=
          (h _ (List.mem_cons_of_mem _ (start_mem_trailSteps ..))).trans hl
        rw [trailSteps_enter _ _ _ _ _ hl',
          ihr _ (fun u hu => h u (List.mem_cons_of_mem _ hu))]
      | some target =>
        cases k with
        | zero =>
          rw [trailSteps_stuck _ _ _ _ _ hl] at h ⊢
          rw [trailSteps_stuck _ _ _ _ _ ((h _ (by simp)).trans hl)]
        | succ k =>
          rw [trailSteps_follow _ _ _ _ _ _ hl] at h ⊢
          rw [trailSteps_follow _ _ _ _ _ _ ((h _ (by simp)).trans hl),
            ihj k _ _ rfl (fun u hu => h u (by simp [hu]))]

end Trail

namespace Leads

variable {fs : FileSystem} {k k' : Nat} {l v : Location} {xs : List Step}

theorem mem_trailSteps_append (h : Leads fs k l xs k' v) (ys : List Step) (u : Location) :
    u ∈ fs.trailSteps k l (xs ++ ys) ↔ u ∈ fs.trailSteps k l xs ∨ u ∈ fs.trailSteps k' v ys := by
  induction h with
  | done k l =>
    rw [List.nil_append, trailSteps_nil, List.mem_singleton]
    constructor
    · exact .inr
    · rintro (rfl | hu)
      · exact start_mem_trailSteps ..
      · exact hu
  | stay hs hd _ ih =>
    rw [List.cons_append, trailSteps_stay _ _ _ _ _ hs, trailSteps_stay _ _ _ _ _ hs, ih]
  | up hd _ ih =>
    rw [List.cons_append, trailSteps_up, trailSteps_up, List.mem_cons, List.mem_cons, ih, or_assoc]
  | enter hd hn he hl _ ih =>
    rw [List.cons_append, trailSteps_enter _ _ _ _ _ hl, trailSteps_enter _ _ _ _ _ hl,
      List.mem_cons, List.mem_cons, ih, or_assoc]
  | follow hd hn hl _ ih =>
    rw [List.append_assoc] at ih
    rw [List.cons_append, trailSteps_follow _ _ _ _ _ _ hl, trailSteps_follow _ _ _ _ _ _ hl,
      List.mem_cons, List.mem_cons, List.mem_cons, List.mem_cons, ih, or_assoc, or_assoc]

theorem getLast?_trailSteps (h : Leads fs k l xs k' v) :
    (fs.trailSteps k l xs).getLast? = some v := by
  have hcons : ∀ (u : Location) (us : List Location), us.getLast? = some v →
      (u :: us).getLast? = some v := by
    intro u us hu
    cases us with
    | nil => cases hu
    | cons u' us => rw [List.getLast?_cons_cons, hu]
  induction h with
  | done k l => rw [trailSteps_nil]; rfl
  | stay hs hd _ ih => rw [trailSteps_stay _ _ _ _ _ hs]; exact ih hcons
  | up hd _ ih => rw [trailSteps_up]; exact hcons _ _ (ih hcons)
  | enter hd hn he hl _ ih => rw [trailSteps_enter _ _ _ _ _ hl]; exact hcons _ _ (ih hcons)
  | follow hd hn hl _ ih =>
    rw [trailSteps_follow _ _ _ _ _ _ hl]
    exact hcons _ _ (hcons _ _ (ih hcons))

theorem entry?_start_ne_none (h : Leads fs k l xs k' v) (hv : fs.entry? v ≠ none) :
    fs.entry? l ≠ none := by
  cases h with
  | done => exact hv
  | stay _ hd | up hd | enter hd | follow hd => exact entry?_ne_none_of_isDirAt hd

theorem entry?_ne_none_of_mem (h : Leads fs k l xs k' v) (hl : fs.entry? l ≠ none) (u : Location)
    (hu : u ∈ fs.trailSteps k l xs) : fs.entry? u ≠ none := by
  induction h with
  | done k l =>
    rw [trailSteps_nil, List.mem_singleton] at hu
    rwa [hu]
  | stay hs hd _ ih =>
    rw [trailSteps_stay _ _ _ _ _ hs] at hu
    exact ih hl hu
  | up hd _ ih =>
    rw [trailSteps_up, List.mem_cons] at hu
    rcases hu with rfl | hu
    · exact hl
    · exact ih (entry?_ne_none_of_isDirAt (isDirAt_dropLast _ _ hl)) hu
  | enter hd hn he hl' _ ih =>
    rw [trailSteps_enter _ _ _ _ _ hl', List.mem_cons] at hu
    rcases hu with rfl | hu
    · exact hl
    · exact ih he hu
  | @follow k l n target rest k' v hd hn hl' _ ih =>
    rw [trailSteps_follow _ _ _ _ _ _ hl', List.mem_cons, List.mem_cons] at hu
    rcases hu with rfl | rfl | hu
    · exact hl
    · exact entry?_ne_none_of_linkAt? hl'
    · refine ih ?_ hu
      rw [linkStart]
      split
      · exact Option.some_ne_none _
      · exact hl

end Leads

theorem Leads.of_same {fs fs' : FileSystem} {k k' : Nat} {l v : Location} {xs : List Step}
    (h : Leads fs k l xs k' v) (hsame : ∀ u ∈ fs.trailSteps k l xs, fs'.entry? u = fs.entry? u) :
    Leads fs' k l xs k' v := by
  have hdir : ∀ {u}, fs'.entry? u = fs.entry? u → fs.isDirAt u → fs'.isDirAt u := by
    intro u heq hd
    rw [isDirAt_iff] at hd ⊢
    rw [heq, hd]
  induction h with
  | done k l => exact .done k l
  | @stay k l s rest _ _ hs hd _ ih =>
    rw [trailSteps_stay _ _ _ _ _ hs] at hsame
    exact .stay hs (hdir (hsame l (start_mem_trailSteps ..)) hd) (ih hsame)
  | @up k l rest _ _ hd _ ih =>
    rw [trailSteps_up] at hsame
    exact .up (hdir (hsame l List.mem_cons_self) hd)
      (ih fun u hu => hsame u (List.mem_cons_of_mem _ hu))
  | @enter k l n rest _ _ hd hn he hl _ ih =>
    rw [trailSteps_enter _ _ _ _ _ hl] at hsame
    have hentry : fs'.entry? (l ++ [n]) = fs.entry? (l ++ [n]) :=
      hsame _ (List.mem_cons_of_mem _ (start_mem_trailSteps ..))
    exact .enter (hdir (hsame l List.mem_cons_self) hd) hn (by rwa [hentry])
      ((linkAt?_congr hentry).trans hl) (ih fun u hu => hsame u (List.mem_cons_of_mem _ hu))
  | @follow k l n target rest _ _ hd hn hl _ ih =>
    rw [trailSteps_follow _ _ _ _ _ _ hl] at hsame
    have hentry : fs'.entry? (l ++ [n]) = fs.entry? (l ++ [n]) :=
      hsame _ (List.mem_cons_of_mem _ List.mem_cons_self)
    exact .follow (hdir (hsame l List.mem_cons_self) hd) hn ((linkAt?_congr hentry).trans hl)
      (ih fun u hu => hsame u (List.mem_cons_of_mem _ (List.mem_cons_of_mem _ hu)))

section Names

variable {fs : FileSystem} {k k' : Nat} {l v : Location}

theorem leads_namesOf (steps : List Step) (hup : Step.up ∉ steps) (h : Leads fs k l steps k' v) :
    Leads fs k l ((namesOf steps).map .name) k' v := by
  induction steps generalizing k l with
  | nil => exact h
  | cons s rest ih =>
    have hrest : Step.up ∉ rest := fun hm => hup (List.mem_cons_of_mem _ hm)
    cases s with
    | up => exact absurd List.mem_cons_self hup
    | here => cases h with | stay _ _ h => exact ih hrest h
    | slash => cases h with | stay _ _ h => exact ih hrest h
    | name n =>
      obtain ⟨k1, w, hn, h⟩ := Leads.split [.name n] rest h
      exact hn.append (ih hrest h)

theorem leads_of_namesOf (steps : List Step) (hup : Step.up ∉ steps) (hv : fs.isDirAt v)
    (h : Leads fs k l ((namesOf steps).map .name) k' v) : Leads fs k l steps k' v := by
  induction steps generalizing k l with
  | nil => exact h
  | cons s rest ih =>
    have hrest : Step.up ∉ rest := fun hm => hup (List.mem_cons_of_mem _ hm)
    cases s with
    | up => exact absurd List.mem_cons_self hup
    | here => exact .stay (.inl rfl) (h.isDirAt_start hv) (ih hrest h)
    | slash => exact .stay (.inr rfl) (h.isDirAt_start hv) (ih hrest h)
    | name n =>
      obtain ⟨k1, w, hn, h⟩ := Leads.split [.name n] _ h
      exact hn.append (ih hrest h)

theorem mem_trailSteps_namesOf (steps : List Step) (hup : Step.up ∉ steps)
    (h : Leads fs k l steps k' v) (u : Location) :
    u ∈ fs.trailSteps k l steps ↔ u ∈ fs.trailSteps k l ((namesOf steps).map .name) := by
  induction steps generalizing k l with
  | nil => rfl
  | cons s rest ih =>
    have hrest : Step.up ∉ rest := fun hm => hup (List.mem_cons_of_mem _ hm)
    cases s with
    | up => exact absurd List.mem_cons_self hup
    | here =>
      cases h with
      | stay hs _ h => rw [trailSteps_stay _ _ _ _ _ hs]; exact ih hrest h
    | slash =>
      cases h with
      | stay hs _ h => rw [trailSteps_stay _ _ _ _ _ hs]; exact ih hrest h
    | name n =>
      obtain ⟨k1, w, hn, h⟩ := Leads.split [.name n] rest h
      have hsteps := hn.mem_trailSteps_append rest u
      have hnames := hn.mem_trailSteps_append ((namesOf rest).map .name) u
      rw [← ih hrest h, ← hsteps] at hnames
      exact hnames.symm

theorem Leads.eq_of_name {n : Name} (hl : fs.linkAt? (l ++ [n]) = none)
    (h : Leads fs k l [.name n] k' v) : k' = k ∧ v = l ++ [n] := by
  cases h with
  | stay hs => simp at hs
  | follow _ _ hl' => rw [hl'] at hl; cases hl
  | enter _ _ _ _ h =>
    cases h
    exact ⟨rfl, rfl⟩

theorem leads_names (ns : List Name) (hlen : ∀ n ∈ ns, n.length ≤ maxNameLength)
    (he : fs.entry? (l ++ ns) ≠ none) (hl : fs.linkAt? (l ++ ns) = none) :
    Leads fs k l (ns.map .name) k (l ++ ns) := by
  induction ns generalizing l with
  | nil => rw [List.append_nil]; exact .done k l
  | cons n ns ih =>
    rw [← List.singleton_append, ← List.append_assoc] at he hl ⊢
    have hd : fs.isDirAt l := isDirAt_of_below fs l n ns (by simpa using he)
    have hnext := ih (l := l ++ [n]) (fun m hm => hlen m (List.mem_cons_of_mem _ hm)) he hl
    refine .enter hd (hlen n List.mem_cons_self) ?_ ?_ hnext
    · intro hn
      exact he (entry?_below_none fs _ _ hn (List.prefix_append _ _))
    · cases ns with
      | nil => rwa [List.append_nil] at hl
      | cons m ns => exact linkAt?_of_isDirAt (isDirAt_of_below fs _ m ns he)

theorem mem_trailSteps_names (ns : List Name)
    (hlinks : ∀ u, l <+: u → u ≠ l → u <+: l ++ ns → fs.linkAt? u = none) (u : Location) :
    u ∈ fs.trailSteps k l (ns.map .name) ↔ l <+: u ∧ u <+: l ++ ns := by
  induction ns generalizing l with
  | nil =>
    rw [List.map_nil, trailSteps_nil, List.mem_singleton, List.append_nil]
    constructor
    · rintro rfl
      exact ⟨List.prefix_refl _, List.prefix_refl _⟩
    · rintro ⟨h, h'⟩
      exact h'.eq_of_length_le h.length_le
  | cons n ns ih =>
    have hn := hlinks (l ++ [n]) (List.prefix_append _ _) (by simp) (by simp)
    have hnext := ih (l := l ++ [n]) (fun u hu hne hu' => hlinks u
      ((List.prefix_append _ _).trans hu)
      (by rintro rfl; exact absurd hu.length_le (by simp))
      (by simpa using hu'))
    rw [List.map_cons, trailSteps_enter _ _ _ _ _ hn, List.mem_cons, hnext]
    constructor
    · rintro (rfl | ⟨h, h'⟩)
      · exact ⟨List.prefix_refl _, List.prefix_append _ _⟩
      · exact ⟨(List.prefix_append _ _).trans h, by simpa using h'⟩
    · rintro ⟨⟨r, rfl⟩, h'⟩
      cases r with
      | nil => exact .inl (List.append_nil l)
      | cons m r =>
        obtain ⟨rfl, hr⟩ := List.cons_prefix_cons.mp ((List.prefix_append_right_inj l).mp h')
        exact .inr ⟨by simp, by simpa using hr⟩

end Names

end FileSystem

end LaunchDist
