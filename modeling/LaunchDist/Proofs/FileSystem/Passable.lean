import LaunchDist.Proofs.FileSystem.Reset
/-!
# Ways that are there up to a point

A path that does not go up can have its whole way in a state, or the way up to a name that is missing
there. It leads straight down from that name on, so it is known where the directories stand that it
still needs.
-/
namespace LaunchDist

namespace FileSystem

open LaunchDist.Path (Step namesOf IsEntryName goings)

section Trail

variable {fs : FileSystem} {k k' : Nat} {l v : Location} {xs : List Step}

theorem trailSteps_ne_nil (fs : FileSystem) (k : Nat) (l : Location) (steps : List Step) :
    fs.trailSteps k l steps ≠ [] :=
  List.ne_nil_of_mem (start_mem_trailSteps ..)

theorem getLast?_cons_trailSteps (u : Location) (steps : List Step) :
    (u :: fs.trailSteps k l steps).getLast? = (fs.trailSteps k l steps).getLast? := by
  obtain ⟨a, as, h⟩ := List.exists_cons_of_ne_nil (trailSteps_ne_nil fs k l steps)
  rw [h, List.getLast?_cons_cons]

theorem trailSteps_goings (fs : FileSystem) (k : Nat) (l : Location) (steps : List Step) :
    fs.trailSteps k l (goings steps) = fs.trailSteps k l steps := by
  induction k, l, steps using stepsInduction with
  | nil k l => rfl
  | cons k l s rest ihr ihj =>
    cases s with
    | here =>
      rw [trailSteps_stay _ _ _ _ _ (.inl rfl), ← ihr l]
      rfl
    | slash =>
      rw [trailSteps_stay _ _ _ _ _ (.inr rfl), ← ihr l]
      rfl
    | up =>
      rw [trailSteps_up, ← ihr l.dropLast, ← trailSteps_up]
      rfl
    | name n =>
      have hcons : goings (.name n :: rest) = .name n :: goings rest := rfl
      rw [hcons]
      cases hl : fs.linkAt? (l ++ [n]) with
      | none => rw [trailSteps_enter _ _ _ _ _ hl, trailSteps_enter _ _ _ _ _ hl, ihr]
      | some target =>
        cases k with
        | zero => rw [trailSteps_stuck _ _ _ _ _ hl, trailSteps_stuck _ _ _ _ _ hl]
        | succ k =>
          rw [trailSteps_follow _ _ _ _ _ _ hl, trailSteps_follow _ _ _ _ _ _ hl,
            ← ihj k _ (target.steps ++ goings rest) rfl, ← ihj k _ (target.steps ++ rest) rfl,
            Path.goings_append, Path.goings_append, Path.goings_goings]

theorem trailSteps_namesOf (steps : List Step) (hup : Step.up ∉ steps) :
    fs.trailSteps k l ((namesOf steps).map .name) = fs.trailSteps k l steps := by
  rw [← trailSteps_goings fs k l steps]
  congr 1
  induction steps with
  | nil => rfl
  | cons s rest ih =>
    have hrest := ih fun hm => hup (List.mem_cons_of_mem _ hm)
    cases s with
    | up => exact absurd List.mem_cons_self hup
    | here => exact hrest
    | slash => exact hrest
    | name n => exact congrArg (Step.name n :: ·) hrest

theorem Leads.getLast?_trailSteps_append (h : Leads fs k l xs k' v) (ys : List Step) :
    (fs.trailSteps k l (xs ++ ys)).getLast? = (fs.trailSteps k' v ys).getLast? := by
  induction h with
  | done k l => rfl
  | stay hs _ _ ih => rw [List.cons_append, trailSteps_stay _ _ _ _ _ hs, ih]
  | up _ _ ih => rw [List.cons_append, trailSteps_up, getLast?_cons_trailSteps, ih]
  | enter _ _ _ hl _ ih =>
    rw [List.cons_append, trailSteps_enter _ _ _ _ _ hl, getLast?_cons_trailSteps, ih]
  | follow _ _ hl _ ih =>
    rw [List.cons_append, trailSteps_follow _ _ _ _ _ _ hl, List.getLast?_cons_cons,
      getLast?_cons_trailSteps, ← List.append_assoc, ih]

theorem getLast?_trailSteps_missing (ns : List Name)
    (hmissing : ∀ n ∈ ns.head?, fs.entry? (l ++ [n]) = none) :
    (fs.trailSteps k l (ns.map .name)).getLast? = some (l ++ ns) := by
  induction ns generalizing l with
  | nil => rw [List.map_nil, trailSteps_nil, List.append_nil]; rfl
  | cons n ns ih =>
    have hn := hmissing n rfl
    have hl : fs.linkAt? (l ++ [n]) = none := by rw [linkAt?, hn]
    rw [List.map_cons, trailSteps_enter _ _ _ _ _ hl, getLast?_cons_trailSteps, ih fun m _ =>
      entry?_below_none fs _ _ hn (List.prefix_append _ _), List.append_assoc, List.singleton_append]

theorem getLast?_trailSteps_concat {n : Name} (ns : List Name)
    (hmissing : ∀ n ∈ ns.head?, fs.entry? (l ++ [n]) = none)
    (hl : fs.linkAt? (l ++ ns ++ [n]) = none) :
    (fs.trailSteps k l ((ns ++ [n]).map .name)).getLast? = some (l ++ ns ++ [n]) := by
  cases ns with
  | nil =>
    rw [List.append_nil] at hl ⊢
    rw [List.nil_append, List.map_singleton, trailSteps_enter _ _ _ _ _ hl, trailSteps_nil]
    rfl
  | cons m ns =>
    rw [getLast?_trailSteps_missing (m :: ns ++ [n]) fun n hn => hmissing n hn, List.append_assoc]

end Trail

section Destination

variable {fs : FileSystem} {p : Path}

theorem destination_eq_getLast? (hup : Step.up ∉ p.moves)
    (hlost : p.isAbsolute = true ∨ fs.lostLevels = 0) :
    fs.destination p = (fs.trailSteps maxLinks (fs.startOf p.isAbsolute)
      ((namesOf p.moves).map .name)).getLast?.getD [] := by
  rw [destination, List.getLastD_eq_getLast?, trail, origin?, originOf_eq_start fs _ _ hlost]
  simp only
  rw [← trailSteps_namesOf p.steps (p.up_notMem_steps_iff.mpr hup), Path.namesOf_steps]

theorem destination_of_lost (hup : Step.up ∉ p.moves)
    (hlost : ¬ (p.isAbsolute = true ∨ fs.lostLevels = 0)) : fs.destination p = fs.workingDir := by
  have ho : fs.origin? p = none := by
    by_contra hne
    exact hlost (not_lost_of_originOf (p.up_notMem_steps_iff.mpr hup) hne)
  rw [destination, trail, ho]
  rfl

end Destination

/-- How names lead to a place in a state, behind which the first of the names that are left is missing. -/
structure WayTo (fs : FileSystem) (start : Location) (pre post : List Name) (v : Location) : Prop where
  leads : ∃ k, Leads fs maxLinks start (pre.map .name) k v
  missing : ∀ n ∈ post.head?, fs.entry? (v ++ [n]) = none

/-- Whether a path that does not go up has its way in a state, or the way up to a missing name. -/
structure Passable (fs : FileSystem) (p : Path) : Prop where
  up_notMem : Step.up ∉ p.moves
  not_lost : p.isAbsolute = true ∨ fs.lostLevels = 0
  way : ∃ pre post v, namesOf p.moves = pre ++ post ∧ WayTo fs (fs.startOf p.isAbsolute) pre post v

section Passable

variable {fs : FileSystem} {p : Path} {s : String} {pre post : List Name} {k : Nat} {l v : Location}

theorem WayTo.destination_eq (h : WayTo fs (fs.startOf p.isAbsolute) pre post v)
    (hup : Step.up ∉ p.moves) (hlost : p.isAbsolute = true ∨ fs.lostLevels = 0)
    (hnames : namesOf p.moves = pre ++ post) : fs.destination p = v ++ post := by
  obtain ⟨k, hleads⟩ := h.leads
  rw [destination_eq_getLast? hup hlost, hnames, List.map_append, hleads.getLast?_trailSteps_append,
    getLast?_trailSteps_missing _ h.missing]
  rfl

theorem Reaches.passable (h : Reaches fs p k v) (hup : Step.up ∉ p.moves) : Passable fs p := by
  have hlost := h.not_lost hup
  obtain ⟨start, rest, ho, hl⟩ := h
  rw [originOf_eq_start fs _ _ hlost] at ho
  cases ho
  have hnames := leads_namesOf _ (p.up_notMem_steps_iff.mpr hup) hl
  rw [Path.namesOf_steps] at hnames
  exact ⟨hup, hlost, _, [], v, (List.append_nil _).symm, ⟨k, hnames⟩, by simp⟩

/-- Where a name is missing, or the last one of some, the entry that they end with has its place. -/
theorem WayTo.passable {n : Name} (h : WayTo fs (fs.startOf p.isAbsolute) pre post v)
    (hup : Step.up ∉ p.moves) (hlost : p.isAbsolute = true ∨ fs.lostLevels = 0)
    (hnames : namesOf p.moves ++ [n] = pre ++ post) (hne : post ≠ []) :
    Passable fs p ∧ fs.place p n = v ++ post := by
  obtain ⟨qs, m, rfl⟩ : ∃ qs m, post = qs ++ [m] :=
    ⟨_, _, (List.dropLast_append_getLast hne).symm⟩
  rw [← List.append_assoc] at hnames
  obtain ⟨hbefore, hlast⟩ := List.append_inj' hnames rfl
  obtain rfl := (List.cons.inj hlast).1
  have hway : WayTo fs (fs.startOf p.isAbsolute) pre qs v := by
    refine ⟨h.leads, fun m hm => h.missing m ?_⟩
    cases qs with
    | nil => cases hm
    | cons => exact hm
  exact ⟨⟨hup, hlost, pre, qs, v, hbefore, hway⟩,
    by rw [place, hway.destination_eq hup hlost hbefore, List.append_assoc]⟩

theorem Passable.of_join {q : Path} {n : Name} (hq : q.isAbsolute = false) (hn : namesOf q.moves = [n])
    (h : Passable fs (p.join q)) (hl : fs.linkAt? (fs.place p n) = none) :
    Passable fs p ∧ fs.destination (p.join q) = fs.place p n := by
  obtain ⟨hup, hlost, pre, post, v, hnames, hway⟩ := h
  have hdest := hway.destination_eq hup hlost hnames
  rw [Path.moves_join p q hq, List.mem_append, not_or] at hup
  rw [Path.isAbsolute_join p q hq] at hlost hway
  rw [Path.moves_join p q hq, Path.namesOf_append, hn] at hnames
  by_cases hne : post = []
  · subst hne
    rw [List.append_nil] at hnames hdest
    obtain ⟨k, hleads⟩ := hway.leads
    rw [← hnames, List.map_append] at hleads
    obtain ⟨k1, v1, hbefore, hlast⟩ := hleads.split
    have hway' : WayTo fs (fs.startOf p.isAbsolute) (namesOf p.moves) [] v1 :=
      ⟨⟨k1, hbefore⟩, by simp⟩
    have hp := hway'.destination_eq hup.1 hlost (List.append_nil _).symm
    rw [List.append_nil] at hp
    rw [place, hp] at hl ⊢
    exact ⟨⟨hup.1, hlost, _, [], v1, (List.append_nil _).symm, hway'⟩,
      hdest.trans (hlast.eq_of_name hl).2⟩
  · obtain ⟨hp, hplace⟩ := hway.passable hup.1 hlost hnames hne
    exact ⟨hp, by rw [hdest, hplace]⟩

theorem Passable.entry (hs : IsEntryName (Utf8.encode s)) (h : Passable fs (p / s))
    (hl : fs.linkAt? (fs.place p (Utf8.encode s)) = none) :
    Passable fs p ∧ fs.destination (p / s) = fs.place p (Utf8.encode s) := by
  have hmoves : (Path.ofString s).moves = [.name (Utf8.encode s)] := hs.moves
  exact Passable.of_join hs.isAbsolute (by rw [hmoves]; rfl) h hl

theorem Passable.destination_entry (hs : IsEntryName (Utf8.encode s)) (h : Passable fs p)
    (hl : fs.linkAt? (fs.place p (Utf8.encode s)) = none) :
    fs.destination (p / s) = fs.place p (Utf8.encode s) := by
  obtain ⟨hup, hlost, pre, post, v, hnames, hway⟩ := h
  rw [place, hway.destination_eq hup hlost hnames] at hl ⊢
  have hnames' : namesOf (p / s).moves = pre ++ (post ++ [Utf8.encode s]) := by
    rw [Path.moves_entry p s hs, Path.namesOf_append, hnames, List.append_assoc]
    rfl
  have hup' : Step.up ∉ (p / s).moves := (Path.up_notMem_moves_entry p s hs).mpr hup
  obtain ⟨k, hleads⟩ := hway.leads
  rw [← Path.isAbsolute_entry p s hs] at hlost hleads
  rw [destination_eq_getLast? hup' hlost, hnames', List.map_append,
    hleads.getLast?_trailSteps_append, getLast?_trailSteps_concat post hway.missing hl]
  rfl

end Passable

end FileSystem

end LaunchDist
