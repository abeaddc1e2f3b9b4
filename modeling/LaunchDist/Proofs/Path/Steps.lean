import Mathlib.Data.List.Basic
import LaunchDist.Path
/-!
# The steps of composed paths

Joining paths appends their moves, and the path along some components has just these as its steps.
-/
namespace LaunchDist

namespace Path

/-- The steps without the separator that may end a path. -/
def moves (p : Path) : List Step :=
  p.segments.filterMap step?

theorem steps_eq (p : Path) :
    p.steps = if p.moves ≠ [] ∧ p.bytes.getLast? = some separator then p.moves ++ [.slash]
      else p.moves :=
  rfl

theorem steps_cases (p : Path) : p.steps = p.moves ∨ p.steps = p.moves ++ [.slash] := by
  rw [steps_eq]
  split
  · exact .inr rfl
  · exact .inl rfl

theorem bytes_ne_nil_of_moves {p : Path} (h : p.moves ≠ []) : p.bytes ≠ [] := by
  rintro hb
  apply h
  rw [moves, segments, hb]
  rfl

theorem bytes_ne_nil_of_steps {p : Path} {xs : List Step} {s : Step} (h : p.steps = xs ++ [s]) :
    p.bytes ≠ [] := by
  intro hb
  have hnil : p.steps = [] := by rw [steps, segments, hb]; rfl
  rw [hnil] at h
  simp at h

/-- The names among some steps. -/
def namesOf (steps : List Step) : List Name :=
  steps.filterMap fun
    | .name n => some n
    | _ => none

theorem namesOf_append (xs ys : List Step) : namesOf (xs ++ ys) = namesOf xs ++ namesOf ys :=
  List.filterMap_append

@[simp] theorem namesOf_map_name (ns : List Name) : namesOf (ns.map .name) = ns := by
  induction ns with
  | nil => rfl
  | cons n ns ih => exact congrArg (n :: ·) ih

theorem exists_of_namesOf {xs : List Step} {n : Name} {ms rest : List Name}
    (h : namesOf xs = ms ++ n :: rest) : ∃ ys zs, xs = ys ++ .name n :: zs ∧ namesOf ys = ms := by
  obtain ⟨ys, zs, rfl, rfl, hzs⟩ := List.filterMap_eq_append_iff.mp h
  obtain ⟨skipped, s, zs, rfl, hskipped, hs, _⟩ := List.filterMap_eq_cons_iff.mp hzs
  cases s with
  | name m =>
    obtain rfl := Option.some.inj hs
    refine ⟨ys ++ skipped, zs, (List.append_assoc ..).symm, ?_⟩
    rw [namesOf_append, namesOf, namesOf, List.filterMap_eq_nil_iff.mpr hskipped, List.append_nil]
  | here => cases hs
  | up => cases hs
  | slash => cases hs

theorem namesOf_steps (p : Path) : namesOf p.steps = namesOf p.moves := by
  rcases p.steps_cases with h | h
  · rw [h]
  · rw [h, namesOf_append]
    exact List.append_nil _

theorem up_mem_steps_iff (p : Path) : Step.up ∈ p.steps ↔ Step.up ∈ p.moves := by
  rcases p.steps_cases with h | h <;> simp [h]

theorem up_notMem_steps_iff (p : Path) : Step.up ∉ p.steps ↔ Step.up ∉ p.moves :=
  p.up_mem_steps_iff.not

theorem moves_append_separators (bytes : Bytes) (n : Nat) :
    (Path.mk (bytes ++ List.replicate n separator)).moves = (Path.mk bytes).moves := by
  induction n with
  | zero => rw [List.replicate_zero, List.append_nil]
  | succ n ih =>
    have hsplit := List.splitOn_append_cons_self (a := separator)
      (bytes ++ List.replicate n separator) []
    rw [List.splitOn_nil, List.append_assoc, ← List.replicate_succ'] at hsplit
    rw [← ih, moves, segments, hsplit, List.filterMap_append,
      show [[]].filterMap step? = [] from rfl, List.append_nil]
    rfl

section Join

variable (p q : Path) (hq : q.isAbsolute = false)

include hq

theorem join_eq :
    p.join q = if p.bytes = [] ∨ p.bytes.getLast? = some separator then ⟨p.bytes ++ q.bytes⟩
      else ⟨p.bytes ++ separator :: q.bytes⟩ := by
  rw [join, if_neg (by simp [hq])]

theorem bytes_join :
    (p.join q).bytes = p.bytes ++ q.bytes ∧ (p.bytes = [] ∨ p.bytes.getLast? = some separator) ∨
      (p.join q).bytes = p.bytes ++ separator :: q.bytes := by
  rw [join_eq p q hq]
  by_cases h : p.bytes = [] ∨ p.bytes.getLast? = some separator
  · rw [if_pos h]
    exact .inl ⟨rfl, h⟩
  · rw [if_neg h]
    exact .inr rfl

/-- The segments of a joined path; an empty one at the end of the first path is lost. -/
theorem segments_join :
    (p.join q).segments = p.segments ++ q.segments ∨
      ∃ first, p.segments = first ++ [[]] ∧ (p.join q).segments = first ++ q.segments := by
  have hcons : ∀ b : Bytes, (b ++ separator :: q.bytes).splitOn separator =
      b.splitOn separator ++ q.segments := fun b => List.splitOn_append_cons_self b q.bytes
  rcases bytes_join p q hq with ⟨h, hp | hp⟩ | h
  · refine .inr ⟨[], ?_, ?_⟩
    · rw [segments, hp, List.splitOn_nil, List.nil_append]
    · rw [segments, h, hp]
      rfl
  · obtain ⟨b, hb⟩ := List.getLast?_eq_some_iff.mp hp
    refine .inr ⟨b.splitOn separator, ?_, ?_⟩
    · rw [segments, hb, List.splitOn_append_cons_self, List.splitOn_nil]
    · rw [segments, h, hb, List.append_assoc, List.singleton_append, hcons]
  · exact .inl (by rw [segments, h, hcons]; rfl)

theorem moves_join : (p.join q).moves = p.moves ++ q.moves := by
  unfold moves
  rcases segments_join p q hq with h | ⟨first, hp, h⟩
  · rw [h, List.filterMap_append]
  · rw [h, hp, List.filterMap_append, List.filterMap_append,
      show [[]].filterMap step? = [] from rfl, List.append_nil]

theorem isAbsolute_join : (p.join q).isAbsolute = p.isAbsolute := by
  rw [isAbsolute] at hq ⊢
  rw [isAbsolute]
  rcases bytes_join p q hq with ⟨h, hp | hp⟩ | h
  · rw [h, hp, List.nil_append, hq]
    rfl
  · obtain ⟨b, hb⟩ := List.getLast?_eq_some_iff.mp hp
    rw [h, hb]
    cases b <;> rfl
  · rw [h]
    cases hb : p.bytes with
    | nil =>
      -- A separator is put behind a path that is not empty only.
      rw [join_eq p q (by rw [isAbsolute, hq]), if_pos (.inl hb), hb, List.nil_append] at h
      have hlen := congrArg List.length h
      simp at hlen
    | cons b bs => rfl

theorem getLast?_join (hne : q.bytes ≠ []) : (p.join q).bytes.getLast? = q.bytes.getLast? := by
  rcases bytes_join p q hq with ⟨h, _⟩ | h
  · rw [h, List.getLast?_append_of_ne_nil _ hne]
  · rw [h, List.getLast?_append_of_ne_nil _ (List.cons_ne_nil _ _)]
    obtain ⟨b, bs, hb⟩ := List.exists_cons_of_ne_nil hne
    rw [hb, List.getLast?_cons_cons]

theorem steps_join (hne : q.moves ≠ []) : (p.join q).steps = p.moves ++ q.steps := by
  rw [steps_eq, moves_join p q hq, getLast?_join p q hq (bytes_ne_nil_of_moves hne), steps_eq]
  by_cases hs : q.bytes.getLast? = some separator
  · rw [if_pos ⟨by simp [hne], hs⟩, if_pos ⟨hne, hs⟩, List.append_assoc]
  · rw [if_neg (fun h => hs h.2), if_neg (fun h => hs h.2)]

theorem zero_mem_join : 0 ∈ (p.join q).bytes ↔ 0 ∈ p.bytes ∨ 0 ∈ q.bytes := by
  rcases bytes_join p q hq with ⟨h, _⟩ | h
  · rw [h, List.mem_append]
  · rw [h, List.mem_append, List.mem_cons, or_iff_right (a := 0 = separator) (by decide)]

end Join

/-- Whether the octets name one entry of a directory. -/
def IsEntryName (n : Name) : Prop :=
  separator ∉ n ∧ step? n = some (.name n)

instance (n : Name) : Decidable (IsEntryName n) :=
  inferInstanceAs (Decidable (_ ∧ _))

namespace IsEntryName

variable {n : Name} (h : IsEntryName n)

include h

theorem ne_nil : n ≠ [] := by
  rintro rfl
  exact absurd h.2 (by decide)

theorem isAbsolute : (Path.mk n).isAbsolute = false := by
  obtain ⟨b, bs, rfl⟩ := List.exists_cons_of_ne_nil h.ne_nil
  have hb : b ≠ separator := fun hb => h.1 (by rw [hb]; exact List.mem_cons_self)
  simp [Path.isAbsolute, hb]

theorem segments : (Path.mk n).segments = [n] :=
  List.splitOn_eq_singleton h.1

theorem moves : (Path.mk n).moves = [.name n] := by
  rw [Path.moves, h.segments, List.filterMap_cons, h.2]
  rfl

theorem steps : (Path.mk n).steps = [.name n] := by
  rw [steps_eq, if_neg, h.moves]
  rintro ⟨_, hl⟩
  exact h.1 (List.mem_of_getLast? hl)

end IsEntryName

theorem step?_eq_none_iff (segment : Bytes) : step? segment = none ↔ segment = [] := by
  unfold step?
  split_ifs with h1 h2 h3 <;> simp [h1]

theorem eq_of_step?_eq_name {segment : Bytes} {n : Name} (h : step? segment = some (.name n)) :
    segment = n := by
  unfold step? at h
  split_ifs at h
  · cases h
  · cases h
  · exact Step.name.inj (Option.some.inj h)

theorem segments_cons_of_ne (b : UInt8) (bs : Bytes) (hb : b ≠ separator) :
    ∃ segment rest, (Path.mk (b :: bs)).segments = (b :: segment) :: rest := by
  obtain ⟨segment, rest, hs⟩ := List.exists_cons_of_ne_nil (List.splitOn_ne_nil separator bs)
  refine ⟨segment, rest, ?_⟩
  rw [segments, List.splitOn_cons_eq_if_modifyHead, if_neg (by simp [hb]), hs, List.modifyHead_cons]

private theorem moves_cons_of_ne (b : UInt8) (bs : Bytes) (hb : b ≠ separator) :
    (Path.mk (b :: bs)).moves ≠ [] := by
  obtain ⟨segment, rest, hs⟩ := segments_cons_of_ne b bs hb
  rw [moves, hs]
  cases hstep : step? (b :: segment) with
  | none => exact absurd ((step?_eq_none_iff _).mp hstep) (List.cons_ne_nil _ _)
  | some s => rw [List.filterMap_cons, hstep]; exact List.cons_ne_nil _ _

theorem steps_ne_nil {p : Path} (hb : p.bytes ≠ []) (ha : p.isAbsolute = false) : p.steps ≠ [] := by
  obtain ⟨b, bs, hp⟩ := List.exists_cons_of_ne_nil hb
  have hsep : b ≠ separator := by
    rintro rfl
    rw [isAbsolute, hp] at ha
    simp at ha
  have hmoves : p.moves ≠ [] := by
    have hcons := moves_cons_of_ne b bs hsep
    rwa [← hp] at hcons
  rcases p.steps_cases with hs | hs
  · rwa [hs]
  · rw [hs]
    exact List.append_ne_nil_of_left_ne_nil hmoves _

private theorem moves_ne_nil (bytes : Bytes) (h : ∃ b ∈ bytes, b ≠ separator) :
    (Path.mk bytes).moves ≠ [] := by
  induction bytes with
  | nil => simp at h
  | cons b bs ih =>
    by_cases hb : b = separator
    · have hcons : (Path.mk (b :: bs)).moves = (Path.mk bs).moves := by
        rw [moves, segments, List.splitOn_cons_eq_if_modifyHead, if_pos (by simp [hb])]
        rfl
      rw [hcons]
      apply ih
      simpa [hb] using h
    · exact moves_cons_of_ne b bs hb

theorem steps_of_separator_notMem (bytes : Bytes) (hsep : separator ∉ bytes) (hne : bytes ≠ []) :
    (Path.mk bytes).isAbsolute = false ∧ ∃ s, (Path.mk bytes).steps = [s] ∧
      (Path.mk bytes).moves = [s] := by
  have habs : (Path.mk bytes).isAbsolute = false := by
    obtain ⟨b, bs, rfl⟩ := List.exists_cons_of_ne_nil hne
    have hb : b ≠ separator := fun hb => hsep (by rw [hb]; exact List.mem_cons_self)
    simp [Path.isAbsolute, hb]
  obtain ⟨s, hs⟩ : ∃ s, step? bytes = some s := by
    rwa [← Option.ne_none_iff_exists', ne_eq, step?_eq_none_iff]
  have hmoves : (Path.mk bytes).moves = [s] := by
    have hsegments : (Path.mk bytes).segments = [bytes] := List.splitOn_eq_singleton hsep
    rw [moves, hsegments, List.filterMap_cons, hs]
    rfl
  refine ⟨habs, s, ?_, hmoves⟩
  rw [steps_eq, if_neg, hmoves]
  rintro ⟨_, hl⟩
  exact hsep (List.mem_of_getLast? hl)

theorem isEntryName_of_steps (p : Path) (n : Name) (ha : p.isAbsolute = false)
    (hs : p.steps = [.name n]) : p.bytes = n ∧ IsEntryName n := by
  have hmoves : p.moves = [.name n] ∧ p.bytes.getLast? ≠ some separator := by
    rw [steps_eq] at hs
    split_ifs at hs with h
    · exact absurd (congrArg List.getLast? hs) (by simp)
    · exact ⟨hs, fun hl => h ⟨by rw [hs]; exact List.cons_ne_nil _ _, hl⟩⟩
  obtain ⟨hm, hl⟩ := hmoves
  by_cases hsep : separator ∈ p.bytes
  · -- Behind the first separator something else than separators follows.
    obtain ⟨first, rest, hb, hfirst⟩ := List.eq_append_cons_of_mem hsep
    have hne : first ≠ [] := by
      rintro rfl
      rw [isAbsolute, hb] at ha
      simp at ha
    have hrest : (Path.mk rest).moves ≠ [] := by
      apply moves_ne_nil
      rcases List.eq_nil_or_concat rest with rfl | ⟨xs, b, rfl⟩
      · exact absurd (by rw [hb]; simp) hl
      · refine ⟨b, by simp, ?_⟩
        rintro rfl
        apply hl
        rw [hb, List.concat_eq_append, ← List.cons_append, ← List.append_assoc, List.getLast?_concat]
    have hsplit : p.moves = [first].filterMap step? ++ (Path.mk rest).moves := by
      rw [moves, segments, hb, List.splitOn_append_cons_self_of_not_mem hfirst, ← List.singleton_append,
        List.filterMap_append]
      rfl
    cases hstep : step? first with
    | none => exact absurd ((step?_eq_none_iff _).mp hstep) hne
    | some s =>
      rw [hm, List.filterMap_cons, hstep] at hsplit
      exact absurd (List.cons.inj hsplit).2.symm hrest
  · have hseg : p.segments = [p.bytes] := List.splitOn_eq_singleton hsep
    have hstep : step? p.bytes = some (.name n) := by
      rw [moves, hseg, List.filterMap_cons] at hm
      cases hb : step? p.bytes with
      | none => rw [hb] at hm; cases hm
      | some s => rw [hb] at hm; rw [(List.cons.inj hm).1]
    obtain rfl := eq_of_step?_eq_name hstep
    exact ⟨rfl, hsep, hstep⟩

section Entry

variable (p : Path) (s : String) (hs : IsEntryName (Utf8.encode s))

include hs

theorem moves_entry : (p / s).moves = p.moves ++ [.name (Utf8.encode s)] := by
  rw [← hs.moves]
  exact moves_join p (ofString s) hs.isAbsolute

theorem up_notMem_moves_entry : Step.up ∉ (p / s).moves ↔ Step.up ∉ p.moves := by
  rw [moves_entry p s hs]
  simp

theorem steps_entry : (p / s).steps = p.moves ++ [.name (Utf8.encode s)] := by
  rw [← hs.steps]
  have hmoves : (ofString s).moves ≠ [] := by
    rw [ofString, hs.moves]
    exact List.cons_ne_nil _ _
  exact steps_join p (ofString s) hs.isAbsolute hmoves

theorem bytes_entry_entry {t : String} (ht : IsEntryName (Utf8.encode t)) :
    (p / s / t).bytes = (p / s).bytes ++ separator :: Utf8.encode t := by
  rcases bytes_join (p / s) (ofString t) ht.isAbsolute with ⟨_, hnil | hlast⟩ | h
  · exact absurd hnil (bytes_ne_nil_of_steps (steps_entry p s hs))
  · have hs' : (p / s).bytes.getLast? = (Utf8.encode s).getLast? :=
      getLast?_join p (ofString s) hs.isAbsolute hs.ne_nil
    rw [hs'] at hlast
    exact absurd (List.mem_of_getLast? hlast) hs.1
  · exact h

theorem join_entry_join (q : Path) (hq : q.isAbsolute = false) :
    (p / s).join q = p.join ((ofString s).join q) := by
  have hname : ((ofString s).join q).isAbsolute = false := by
    rw [isAbsolute_join _ _ hq]
    exact hs.isAbsolute
  have hlast : ¬ ((ofString s).bytes = [] ∨ (ofString s).bytes.getLast? = some separator) :=
    fun h => h.elim hs.ne_nil fun hl => hs.1 (List.mem_of_getLast? hl)
  have hlast' : ¬ ((p / s).bytes = [] ∨ (p / s).bytes.getLast? = some separator) := by
    rw [show (p / s).bytes.getLast? = (ofString s).bytes.getLast? from
      getLast?_join p (ofString s) hs.isAbsolute hs.ne_nil]
    exact fun h => h.elim (bytes_ne_nil_of_steps (steps_entry p s hs)) fun hl => hlast (.inr hl)
  have hentry := join_eq p (ofString s) hs.isAbsolute
  rw [join_eq _ _ hq, if_neg hlast', join_eq _ _ hname, join_eq _ _ hq, if_neg hlast,
    show p / s = p.join (ofString s) from rfl, hentry]
  split
  · exact congrArg Path.mk (List.append_assoc ..)
  · exact congrArg Path.mk (List.append_assoc ..)

theorem namesOf_entry_ne_nil : namesOf (p / s).steps ≠ [] := by
  rw [steps_entry p s hs, namesOf_append]
  simp [namesOf]

theorem isAbsolute_entry : (p / s).isAbsolute = p.isAbsolute :=
  isAbsolute_join p (ofString s) hs.isAbsolute

end Entry

end Path

end LaunchDist
