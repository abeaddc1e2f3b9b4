import LaunchDist.Proofs.FileSystem.Passable
/-!
# Where paths lead

A trail that gets stuck, at a link too many, ends there whatever comes after it; else it goes on from
where it has got to. Where there are no links it goes straight down. A walk to a directory comes by
directories and links only.
-/
namespace LaunchDist

namespace FileSystem

open LaunchDist.Path (Step namesOf IsEntryName)

section Trail

variable {fs : FileSystem} {k k' : Nat} {l v : Location}

/-- A trail along more steps goes on from the end of the first ones, or is stuck before that. -/
theorem getLast?_trailSteps_append_cases (xs ys : List Step) :
    (fs.trailSteps k l (xs ++ ys)).getLast? = (fs.trailSteps k l xs).getLast? ∨
      ∃ k' v, (fs.trailSteps k l xs).getLast? = some v ∧
        (fs.trailSteps k l (xs ++ ys)).getLast? = (fs.trailSteps k' v ys).getLast? := by
  induction k, l, xs using stepsInduction with
  | nil k l => exact .inr ⟨k, l, by rw [trailSteps_nil]; rfl, rfl⟩
  | cons k l s rest ihr ihj =>
    rw [List.cons_append]
    cases s with
    | here =>
      rw [trailSteps_stay _ _ _ _ _ (.inl rfl), trailSteps_stay _ _ _ _ _ (.inl rfl)]
      exact ihr l
    | slash =>
      rw [trailSteps_stay _ _ _ _ _ (.inr rfl), trailSteps_stay _ _ _ _ _ (.inr rfl)]
      exact ihr l
    | up =>
      rw [trailSteps_up, trailSteps_up, getLast?_cons_trailSteps, getLast?_cons_trailSteps]
      exact ihr l.dropLast
    | name n =>
      cases hl : fs.linkAt? (l ++ [n]) with
      | none =>
        rw [trailSteps_enter _ _ _ _ _ hl, trailSteps_enter _ _ _ _ _ hl, getLast?_cons_trailSteps,
          getLast?_cons_trailSteps]
        exact ihr _
      | some target =>
        cases k with
        | zero =>
          rw [trailSteps_stuck _ _ _ _ _ hl, trailSteps_stuck _ _ _ _ _ hl]
          exact .inl rfl
        | succ k =>
          rw [trailSteps_follow _ _ _ _ _ _ hl, trailSteps_follow _ _ _ _ _ _ hl,
            List.getLast?_cons_cons, List.getLast?_cons_cons, getLast?_cons_trailSteps,
            getLast?_cons_trailSteps, ← List.append_assoc]
          exact ihj k _ _ rfl

theorem getLast?_trailSteps_unlinked (ns : List Name)
    (hlinks : ∀ u, l <+: u → fs.linkAt? u = none) :
    (fs.trailSteps k l (ns.map .name)).getLast? = some (l ++ ns) := by
  induction ns generalizing l with
  | nil => rw [List.map_nil, trailSteps_nil, List.append_nil]; rfl
  | cons n ns ih =>
    have hbelow : l <+: l ++ [n] := List.prefix_append _ _
    rw [List.map_cons, trailSteps_enter _ _ _ _ _ (hlinks _ hbelow), getLast?_cons_trailSteps,
      ih fun u hu => hlinks u (hbelow.trans hu), List.append_assoc, List.singleton_append]

theorem Leads.isDirAt_or_link {xs : List Step} (h : Leads fs k l xs k' v) (hv : fs.isDirAt v)
    (u : Location) (hu : u ∈ fs.trailSteps k l xs) : fs.isDirAt u ∨ fs.linkAt? u ≠ none := by
  induction h with
  | done k l =>
    rw [trailSteps_nil, List.mem_singleton] at hu
    exact .inl (by rwa [hu])
  | stay hs _ _ ih =>
    rw [trailSteps_stay _ _ _ _ _ hs] at hu
    exact ih hv hu
  | up hd _ ih =>
    rw [trailSteps_up, List.mem_cons] at hu
    rcases hu with rfl | hu
    · exact .inl hd
    · exact ih hv hu
  | enter hd _ _ hl _ ih =>
    rw [trailSteps_enter _ _ _ _ _ hl, List.mem_cons] at hu
    rcases hu with rfl | hu
    · exact .inl hd
    · exact ih hv hu
  | follow hd _ hl _ ih =>
    rw [trailSteps_follow _ _ _ _ _ _ hl, List.mem_cons, List.mem_cons] at hu
    rcases hu with rfl | rfl | hu
    · exact .inl hd
    · exact .inr (by rw [hl]; exact Option.some_ne_none _)
    · exact ih hv hu

theorem Keeps.entry?_eq {fs' : FileSystem} (h : Keeps fs fs')
    (hl : fs.isDirAt l ∨ fs.linkAt? l ≠ none) : fs'.entry? l = fs.entry? l := by
  rcases hl with hd | hlink
  · rw [(isDirAt_iff _ _).mp hd, (isDirAt_iff _ _).mp (h.isDirAt l hd)]
  · obtain ⟨target, htarget⟩ := Option.ne_none_iff_exists'.mp hlink
    have hkept := h.linkAt? l (entry?_ne_none_of_linkAt? htarget)
    rw [htarget] at hkept
    rw [(linkAt?_eq_some_iff _ _ _).mp htarget, (linkAt?_eq_some_iff _ _ _).mp hkept]

end Trail

section Path

variable {fs : FileSystem} {p : Path} {s : String} {k : Nat} {v u : Location}

theorem Reaches.isDirAt_or_link (h : Reaches fs p k v) (hv : fs.isDirAt v) (hu : u ∈ fs.trail p) :
    fs.isDirAt u ∨ fs.linkAt? u ≠ none := by
  obtain ⟨start, rest, ho, hl⟩ := h
  rw [trail, show fs.origin? p = _ from ho] at hu
  exact hl.isDirAt_or_link hv u hu

/-- An entry that is no link leads to its place, or no further than the path to its directory. -/
theorem destination_entry_cases (hs : IsEntryName (Utf8.encode s)) (hup : Step.up ∉ p.moves)
    (hl : fs.linkAt? (fs.place p (Utf8.encode s)) = none) :
    fs.destination (p / s) = fs.place p (Utf8.encode s) ∨
      fs.destination (p / s) = fs.destination p := by
  have hup' : Step.up ∉ (p / s).moves := (Path.up_notMem_moves_entry p s hs).mpr hup
  by_cases hlost : p.isAbsolute = true ∨ fs.lostLevels = 0
  · have hlost' : (p / s).isAbsolute = true ∨ fs.lostLevels = 0 := by
      rwa [Path.isAbsolute_entry p s hs]
    rw [destination_eq_getLast? hup' hlost', Path.isAbsolute_entry p s hs, Path.moves_entry p s hs,
      Path.namesOf_append, List.map_append]
    rcases getLast?_trailSteps_append_cases (k := maxLinks)
      (l := fs.startOf p.isAbsolute) ((namesOf p.moves).map .name)
      ((namesOf [Step.name (Utf8.encode s)]).map .name) with h | ⟨k', v, hv, h⟩
    · rw [h, ← destination_eq_getLast? hup hlost]
      exact .inr rfl
    · have hdest : fs.destination p = v := by
        rw [destination_eq_getLast? hup hlost, hv]
        rfl
      rw [place, hdest] at hl ⊢
      rw [h, show (namesOf [Step.name (Utf8.encode s)]).map Step.name = [.name (Utf8.encode s)] from rfl,
        trailSteps_enter _ _ _ _ _ hl, trailSteps_nil]
      exact .inl rfl
  · right
    rw [destination_of_lost hup hlost, destination_of_lost hup']
    rwa [Path.isAbsolute_entry p s hs]

theorem workingDir_prefix_destination (hup : Step.up ∉ p.moves) (hrel : p.isAbsolute = false)
    (hlinks : ∀ u, fs.workingDir <+: u → fs.linkAt? u = none) : fs.workingDir <+: fs.destination p := by
  by_cases hlost : p.isAbsolute = true ∨ fs.lostLevels = 0
  · have hstart : fs.startOf p.isAbsolute = fs.workingDir := by rw [startOf, hrel]; rfl
    rw [destination_eq_getLast? hup hlost, hstart, getLast?_trailSteps_unlinked _ hlinks]
    exact List.prefix_append _ _
  · rw [destination_of_lost hup hlost]

end Path

end FileSystem

end LaunchDist
