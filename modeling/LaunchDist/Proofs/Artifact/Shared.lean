import Mathlib.Data.List.Induction
import Mathlib.Data.List.Nodup
import LaunchDist.Proofs.Artifact
/-!
# Shared file names

Of the file names of artifacts, those are reported that several of them have, each one once and in the
order in which it is met again.
-/
namespace LaunchDist.Artifact

/-- Whether a name occurs at a position for the second time. -/
def IsSecond (names : List String) (name : String) (i : Nat) : Prop :=
  names[i]? = some name ∧ (names.take i).count name = 1

section IsSecond

variable {names before rest : List String} {name other : String} {i j : Nat}

theorem IsSecond.two_le (h : IsSecond names name i) (hij : i < j) : 2 ≤ (names.take j).count name := by
  obtain ⟨hname, honce⟩ := h
  have htwo : (names.take (i + 1)).count name = 2 := by
    rw [List.take_add_one, hname, List.count_append, honce, Option.toList_some, List.count_singleton_self]
  rw [← htwo]
  exact (List.take_sublist_take_left hij).count_le name

theorem isSecond_append_cons (before rest : List String) (name other : String) :
    IsSecond (before ++ other :: rest) name before.length ↔ name = other ∧ before.count name = 1 := by
  rw [IsSecond, List.take_left, List.getElem?_append_right (Nat.le_refl _), Nat.sub_self,
    List.getElem?_cons_zero, Option.some_inj, eq_comm]

theorem IsSecond.append (h : IsSecond names name i) (rest : List String) :
    IsSecond (names ++ rest) name i := by
  obtain ⟨hname, honce⟩ := h
  obtain ⟨hi, _⟩ := List.getElem?_eq_some_iff.mp hname
  rw [IsSecond, List.getElem?_append_left hi, List.take_append_of_le_length (Nat.le_of_lt hi)]
  exact ⟨hname, honce⟩

theorem exists_isSecond_iff : (∃ i, IsSecond names name i) ↔ 2 ≤ names.count name := by
  constructor
  · rintro ⟨i, h⟩
    exact Nat.le_trans (h.two_le (Nat.lt_succ_self i)) ((List.take_sublist _ _).count_le name)
  · intro h
    induction names using List.reverseRecOn with
    | nil => simp at h
    | append_singleton names last ih =>
      by_cases htwo : 2 ≤ names.count name
      · obtain ⟨i, hi⟩ := ih htwo
        exact ⟨i, hi.append [last]⟩
      · refine ⟨names.length, (isSecond_append_cons names [] name last).mpr ?_⟩
        rw [List.count_append, List.count_singleton] at h
        split_ifs at h with heq
        · exact ⟨(beq_iff_eq.mp heq).symm, by omega⟩
        · omega

end IsSecond

/-- What is recorded of the names met so far. -/
structure Recorded (seen found before : List String) : Prop where
  seen : ∀ name, name ∈ seen ↔ 1 ≤ before.count name
  found : ∀ name, name ∈ found ↔ 2 ≤ before.count name

namespace Recorded

variable {seen found before : List String} {name : String}

theorem nil : Recorded [] [] [] where
  seen := by simp
  found := by simp

theorem concat {seen' found' : List String} (h : Recorded seen found before)
    (hseen : ∀ other, other ∈ seen' ↔ other = name ∨ other ∈ seen)
    (hfound : ∀ other, other ∈ found' ↔ other = name ∧ name ∈ seen ∨ other ∈ found) :
    Recorded seen' found' (before ++ [name]) where
  seen other := by
    rw [hseen, h.seen, List.count_append, List.count_singleton]
    by_cases heq : other = name
    · simp only [heq, beq_self_eq_true, if_true, true_or, true_iff]
      omega
    · simp [heq, Ne.symm heq]
  found other := by
    rw [hfound, h.seen, h.found, List.count_append, List.count_singleton]
    by_cases heq : other = name
    · simp only [heq, beq_self_eq_true, if_true, true_and]
      omega
    · simp [heq, Ne.symm heq]

theorem first (h : Recorded seen found before) (hseen : name ∉ seen) :
    Recorded (name :: seen) found (before ++ [name]) :=
  h.concat (fun _ => List.mem_cons) fun other => by simp [hseen]

theorem again (h : Recorded seen found before) (hseen : name ∈ seen) :
    Recorded seen (name :: found) (before ++ [name]) := by
  refine h.concat (fun other => ?_) fun other => by simp [hseen]
  exact ⟨.inr, fun ho => ho.elim (fun heq => heq ▸ hseen) id⟩

theorem more (h : Recorded seen found before) (hseen : name ∈ seen) (hfound : name ∈ found) :
    Recorded seen found (before ++ [name]) := by
  refine h.concat (fun other => ?_) fun other => ?_
  · exact ⟨.inr, fun ho => ho.elim (fun heq => heq ▸ hseen) id⟩
  · exact ⟨.inr, fun ho => ho.elim (fun ho => ho.1 ▸ hfound) id⟩

end Recorded

section Run

variable {seen found before : List String}

private theorem exists_isSecond_cons (before rest : List String) (name next : String) :
    (∃ i, before.length ≤ i ∧ IsSecond (before ++ next :: rest) name i) ↔
      (name = next ∧ before.count name = 1) ∨
        ∃ i, (before ++ [next]).length ≤ i ∧ IsSecond (before ++ [next] ++ rest) name i := by
  have hassoc : before ++ [next] ++ rest = before ++ next :: rest := by simp
  rw [hassoc, List.length_append, List.length_singleton]
  constructor
  · rintro ⟨i, hle, hi⟩
    rcases Nat.eq_or_lt_of_le hle with rfl | hlt
    · exact .inl ((isSecond_append_cons before rest name next).mp hi)
    · exact .inr ⟨i, hlt, hi⟩
  · rintro (h | ⟨i, hlt, hi⟩)
    · exact ⟨_, Nat.le_refl _, (isSecond_append_cons before rest name next).mpr h⟩
    · exact ⟨i, Nat.le_of_lt hlt, hi⟩

/-- What is reported are the names that occur for the second time among those still to be met. -/
theorem mem_repeated_iff (h : Recorded seen found before) (rest : List String) (name : String) :
    name ∈ repeated seen found rest ↔
      ∃ i, before.length ≤ i ∧ IsSecond (before ++ rest) name i := by
  induction rest generalizing seen found before with
  | nil =>
    rw [repeated, List.append_nil]
    constructor
    · exact fun hno => nomatch hno
    · rintro ⟨i, hle, hi, _⟩
      rw [List.getElem?_eq_none hle] at hi
      cases hi
  | cons next rest ih =>
    rw [exists_isSecond_cons, repeated]
    have hcount : name = next → (before.count name = 1 ↔ next ∈ seen ∧ next ∉ found) := by
      rintro rfl
      rw [h.seen, h.found]
      omega
    by_cases hseen : next ∈ seen
    · rw [if_neg (not_not.mpr hseen)]
      by_cases hfound : next ∈ found
      · rw [if_pos hfound, ih (h.more hseen hfound), or_iff_right]
        rintro ⟨heq, hone⟩
        exact ((hcount heq).mp hone).2 hfound
      · rw [if_neg hfound, List.mem_cons, ih (h.again hseen)]
        refine or_congr_left ⟨fun heq => ⟨heq, ?_⟩, And.left⟩
        exact (hcount heq).mpr ⟨hseen, hfound⟩
    · rw [if_pos hseen, ih (h.first hseen), or_iff_right]
      rintro ⟨heq, hone⟩
      exact hseen ((hcount heq).mp hone).1

/-- Whether a name occurs for the second time before another one does. -/
def Earlier (names : List String) (name other : String) : Prop :=
  ∃ i j, i < j ∧ IsSecond names name i ∧ IsSecond names other j

theorem pairwise_repeated (h : Recorded seen found before) (rest : List String) :
    (repeated seen found rest).Pairwise (Earlier (before ++ rest)) := by
  induction rest generalizing seen found before with
  | nil => exact .nil
  | cons next rest ih =>
    have hassoc : before ++ next :: rest = before ++ [next] ++ rest := by simp
    rw [repeated]
    split_ifs with hseen hfound
    · rw [hassoc]
      exact ih (h.more hseen hfound)
    · have hagain := h.again hseen
      have hone : before.count next = 1 := by
        have h1 := (h.seen next).mp hseen
        have h2 := mt (h.found next).mpr hfound
        omega
      refine .cons (fun other hother => ?_) (by rw [hassoc]; exact ih hagain)
      obtain ⟨j, hle, hj⟩ := (mem_repeated_iff hagain rest other).mp hother
      rw [List.length_append, List.length_singleton] at hle
      rw [← hassoc] at hj
      exact ⟨_, j, hle, (isSecond_append_cons before rest next next).mpr ⟨rfl, hone⟩, hj⟩
    · rw [hassoc]
      exact ih (h.first hseen)

end Run

theorem mem_sharedFileNames_iff {artifacts : List Artifact} {name : String} :
    name ∈ sharedFileNames artifacts ↔ 2 ≤ (artifacts.map fileName).count name := by
  rw [sharedFileNames, mem_repeated_iff .nil, ← exists_isSecond_iff]
  simp

theorem pairwise_sharedFileNames (artifacts : List Artifact) :
    (sharedFileNames artifacts).Pairwise (Earlier (artifacts.map fileName)) :=
  pairwise_repeated .nil _

example : repeated [] [] ["a", "b", "c", "b", "a", "b"] = ["b", "a"] := by decide

theorem nodup_sharedFileNames (artifacts : List Artifact) : (sharedFileNames artifacts).Nodup := by
  refine (pairwise_sharedFileNames artifacts).imp ?_
  rintro name _ ⟨i, j, hij, hi, hj⟩ rfl
  have htwo := hi.two_le hij
  rw [hj.2] at htwo
  omega

theorem sharedFileNames_eq_nil_iff {artifacts : List Artifact} :
    sharedFileNames artifacts = [] ↔ (artifacts.map fileName).Nodup := by
  rw [List.eq_nil_iff_forall_not_mem, List.nodup_iff_count_le_one]
  refine forall_congr' fun name => ?_
  rw [mem_sharedFileNames_iff]
  omega

theorem warnOfShared_eq (artifacts : List Artifact) (w : Workspace) :
    warnOfShared artifacts w = .ok (sharedFileNames artifacts)
      { w with log := w.log ++ (sharedFileNames artifacts).map .sharedFileName } := by
  have hreports : ∀ (shared : List String) (w : Workspace),
      (forM shared fun name => Action.report (.sharedFileName name)) w =
        .ok ⟨⟩ { w with log := w.log ++ shared.map .sharedFileName } := by
    intro shared
    induction shared with
    | nil =>
      intro w
      rw [List.map_nil, List.append_nil]
      rfl
    | cons name shared ih =>
      intro w
      rw [List.forM_cons, Action.bind_of_ok ((Action.report_ok_iff (u := ())).mpr rfl), ih]
      simp
  rw [warnOfShared, List.forM_eq_forM, Action.bind_of_ok (hreports _ w)]
  rfl

end LaunchDist.Artifact
