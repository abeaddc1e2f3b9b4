import Mathlib.Data.List.Basic
import Mathlib.Data.List.Infix
import LaunchDist.FileSystem.Basic
/-!
# What an update changes

An update at a location changes what is seen at the location and below it, and nothing elsewhere.
-/
namespace LaunchDist

namespace Node

theorem lookup_setChild (n m : Name) (child : Option Node) (children : List (Name × Node)) :
    (setChild n child children).lookup m = if m = n then child else children.lookup m := by
  have hother : ∀ m ≠ n, (children.filter fun c => c.1 ≠ n).lookup m = children.lookup m := by
    intro m hm
    induction children with
    | nil => rfl
    | cons c children ih =>
      by_cases hc : c.1 = n
      · rw [List.filter_cons_of_neg (by simp [hc]), ih, List.lookup_cons]
        rw [show (m == c.1) = false by simp [hc, hm]]
      · rw [List.filter_cons_of_pos (by simp [hc]), List.lookup_cons, List.lookup_cons, ih]
  have hself : (children.filter fun c => c.1 ≠ n).lookup n = none := by
    rw [List.lookup_eq_none_iff]
    intro c hc
    have hne : c.1 ≠ n := of_decide_eq_true (List.mem_filter.mp hc).2
    exact bne_iff_ne.mpr hne.symm
  unfold setChild
  by_cases hm : m = n
  · subst hm
    cases child with
    | none => rw [if_pos rfl, hself]
    | some node => rw [if_pos rfl, List.lookup_cons, beq_self_eq_true]
  · cases child with
    | none => rw [if_neg hm, hother m hm]
    | some node =>
      rw [if_neg hm, List.lookup_cons, show (m == n) = false by simp [hm], hother m hm]

theorem at?_append (node : Node) (l r : Location) :
    node.at? (l ++ r) = (node.at? l).bind (·.at? r) := by
  induction l generalizing node with
  | nil => rfl
  | cons n l ih =>
    rw [List.cons_append, at?, at?]
    cases node.child? n with
    | none => rfl
    | some child => exact ih child

theorem at?_cons_of_ne_dir (node : Node) (h : node.entry ≠ .dir) (n : Name) (l : Location) :
    node.at? (n :: l) = none := by
  cases node with
  | dir children => exact absurd rfl h
  | file mode content => rfl
  | link target => rfl
  | socket => rfl

theorem at?_update_self (value : Option Node) (l r : Location) (node : Node)
    (h : ∀ p n, p ++ [n] <+: l → ∃ children, node.at? p = some (.dir children)) :
    (update value l (some node)).bind (·.at? (l ++ r)) = value.bind (·.at? r) := by
  induction l generalizing node with
  | nil => rfl
  | cons n l ih =>
    obtain ⟨children, hc⟩ := h [] n (by simp)
    obtain rfl := Option.some.inj hc
    rw [update, Option.bind_some, List.cons_append, at?, child?, lookup_setChild, if_pos rfl]
    cases hl : children.lookup n with
    | none =>
      cases l with
      | nil => rfl
      | cons m l =>
        obtain ⟨_, hm⟩ := h [n] m (by simp)
        rw [at?, child?, hl] at hm
        cases hm
    | some child =>
      apply ih child
      intro p m hp
      obtain ⟨children', hm⟩ := h (n :: p) m (by simpa using hp)
      rw [at?, child?, hl] at hm
      exact ⟨children', hm⟩

theorem entry_at?_update_apart (value : Option Node) (l v : Location) (node : Option Node)
    (h : ¬ l <+: v) :
    ((update value l node).bind (·.at? v)).map entry = (node.bind (·.at? v)).map entry := by
  induction l generalizing v node with
  | nil => exact absurd List.nil_prefix h
  | cons n l ih =>
    cases node with
    | none => rfl
    | some node =>
      cases node with
      | file mode content => rfl
      | link target => rfl
      | socket => rfl
      | dir children =>
        rw [update]
        cases v with
        | nil => rfl
        | cons m v =>
          rw [Option.bind_some, Option.bind_some, at?, at?, child?, child?, lookup_setChild]
          by_cases hm : m = n
          · subst hm
            rw [if_pos rfl]
            exact ih v _ (fun hp => h (List.cons_prefix_cons.mpr ⟨rfl, hp⟩))
          · rw [if_neg hm]

end Node

namespace FileSystem

theorem node?_append (fs : FileSystem) (l r : Location) :
    fs.node? (l ++ r) = (fs.node? l).bind (·.at? r) :=
  Node.at?_append _ l r

theorem isDirAt_iff (fs : FileSystem) (l : Location) :
    fs.isDirAt l = true ↔ fs.entry? l = some .dir := by
  rw [isDirAt, decide_eq_true_eq]

theorem entry?_ne_none_of_isDirAt {fs : FileSystem} {l : Location} (h : fs.isDirAt l = true) :
    fs.entry? l ≠ none := by
  rw [(isDirAt_iff fs l).mp h]
  exact Option.some_ne_none _

theorem isDirAt_nil (fs : FileSystem) : fs.isDirAt [] = true := by
  rw [isDirAt_iff]
  rfl

theorem node?_of_isDirAt (fs : FileSystem) (l : Location) (h : fs.isDirAt l) :
    ∃ children, fs.node? l = some (.dir children) := by
  rw [isDirAt_iff, entry?, Option.map_eq_some_iff] at h
  obtain ⟨node, hn, he⟩ := h
  cases node with
  | dir children => exact ⟨children, hn⟩
  | file mode content => cases he
  | link target => cases he
  | socket => cases he

theorem isDirAt_of_below (fs : FileSystem) (l : Location) (n : Name) (r : Location)
    (h : fs.entry? (l ++ n :: r) ≠ none) : fs.isDirAt l := by
  rw [FileSystem.entry?, node?_append] at h
  rw [isDirAt_iff, entry?]
  cases hl : fs.node? l with
  | none => rw [hl] at h; exact absurd rfl h
  | some node =>
    by_cases hd : node.entry = .dir
    · rw [Option.map_some, hd]
    · rw [hl, Option.bind_some, Node.at?_cons_of_ne_dir node hd] at h
      exact absurd rfl h

theorem entry?_below_none (fs : FileSystem) (l v : Location) (h : fs.entry? l = none) (hv : l <+: v) :
    fs.entry? v = none := by
  obtain ⟨r, rfl⟩ := hv
  rw [FileSystem.entry?, Option.map_eq_none_iff] at h ⊢
  rw [node?_append, h]
  rfl

theorem entry?_below_of_not_dir (fs : FileSystem) (l v : Location) (h : fs.isDirAt l = false)
    (hv : l <+: v) (hne : v ≠ l) : fs.entry? v = none := by
  obtain ⟨r, rfl⟩ := hv
  cases r with
  | nil => simp at hne
  | cons n r =>
    by_contra hc
    rw [isDirAt_of_below fs l n r hc] at h
    cases h

theorem isDirAt_of_prefix (fs : FileSystem) (l v : Location) (h : fs.isDirAt v) (hl : l <+: v) :
    fs.isDirAt l := by
  obtain ⟨r, rfl⟩ := hl
  cases r with
  | nil => simpa using h
  | cons n r =>
    exact isDirAt_of_below fs l n r (entry?_ne_none_of_isDirAt h)

theorem isDirAt_dropLast (fs : FileSystem) (l : Location) (h : fs.entry? l ≠ none) :
    fs.isDirAt l.dropLast := by
  rcases List.eq_nil_or_concat l with rfl | ⟨p, n, rfl⟩
  · exact isDirAt_nil fs
  · rw [List.concat_eq_append] at h ⊢
    rw [List.dropLast_concat]
    exact isDirAt_of_below fs p n [] h

section Update

variable (fs : FileSystem) (l v : Location) (value : Option Node) (node : Node)

@[simp] theorem workingDir_update : (fs.update l value).workingDir = fs.workingDir := by
  rw [update]; split <;> rfl

@[simp] theorem lostLevels_update : (fs.update l value).lostLevels = fs.lostLevels := by
  rw [update]; split <;> rfl

@[simp] theorem workingDir_put : (fs.put l node).workingDir = fs.workingDir :=
  workingDir_update ..

@[simp] theorem lostLevels_put : (fs.put l node).lostLevels = fs.lostLevels :=
  lostLevels_update ..

theorem node?_update (h : l ≠ []) :
    (fs.update l value).node? v =
      (Node.update value l (some (.dir fs.children))).bind (·.at? v) := by
  cases l with
  | nil => exact absurd rfl h
  | cons n l => rfl

theorem entry?_update_apart (h : ¬ l <+: v) : entry? (fs.update l value) v = fs.entry? v := by
  have hl : l ≠ [] := by rintro rfl; exact h List.nil_prefix
  rw [FileSystem.entry?, node?_update fs l v value hl]
  exact Node.entry_at?_update_apart value l v (some (.dir fs.children)) h

theorem node?_update_self (h : l ≠ []) (hd : fs.isDirAt l.dropLast) (r : Location) :
    (fs.update l value).node? (l ++ r) = value.bind (·.at? r) := by
  rw [node?_update fs l _ value h]
  apply Node.at?_update_self
  intro p n hp
  have hp' : p <+: l.dropLast := by
    obtain ⟨q, rfl⟩ := hp
    rw [List.append_assoc, List.dropLast_append_of_ne_nil (by simp)]
    exact List.prefix_append _ _
  exact node?_of_isDirAt fs p (FileSystem.isDirAt_of_prefix fs p _ hd hp')

theorem entry?_put (h : l ≠ []) (hd : fs.isDirAt l.dropLast) (hn : ∀ n, node.child? n = none) :
    entry? (fs.put l node) v =
      if v = l then some node.entry else if l <+: v then none else fs.entry? v := by
  by_cases hv : l <+: v
  · obtain ⟨r, rfl⟩ := hv
    rw [FileSystem.entry?, put, node?_update_self fs l _ h hd]
    cases r with
    | nil => simp [Node.at?]
    | cons n r => simp [Node.at?, hn]
  · rw [if_neg (by rintro rfl; exact hv (List.prefix_refl _)), if_neg hv]
    exact entry?_update_apart fs l v _ hv

theorem entry?_update_none (h : l ≠ []) :
    entry? (fs.update l none) v = if l <+: v then none else fs.entry? v := by
  by_cases hv : l <+: v
  · rw [if_pos hv]
    by_cases hd : fs.isDirAt l.dropLast
    · obtain ⟨r, rfl⟩ := hv
      rw [FileSystem.entry?, node?_update_self fs l none h hd]
      rfl
    · -- Without a directory to hold it, nothing stood at the location.
      apply entry?_below_none _ l v _ hv
      obtain ⟨p, n, rfl⟩ : ∃ p n, l = p ++ [n] :=
        ⟨_, _, (List.dropLast_append_getLast h).symm⟩
      rw [List.dropLast_concat] at hd
      by_contra hc
      apply hd
      have hp := isDirAt_of_below _ p n [] hc
      rw [isDirAt_iff, entry?_update_apart _ _ _ _ (fun hle => absurd hle.length_le (by simp))] at hp
      rwa [isDirAt_iff]
  · rw [if_neg hv]
    exact entry?_update_apart fs l v none hv

end Update

@[simp] theorem entry?_retreat (fs : FileSystem) (l v : Location) :
    entry? (fs.retreat l) v = fs.entry? v := rfl

theorem entry?_remove (fs : FileSystem) (l v : Location) (h : l ≠ []) :
    entry? (fs.remove l) v = if l <+: v then none else fs.entry? v := by
  rw [← entry?_update_none fs l v h, remove]
  split
  · exact entry?_retreat _ _ _
  · rfl

theorem entry?_clear (fs : FileSystem) (l v : Location) (hd : fs.isDirAt l) :
    entry? (fs.clear l) v = if l <+: v ∧ v ≠ l then none else fs.entry? v := by
  have hput : entry? (fs.put l .empty) v = if l <+: v ∧ v ≠ l then none else fs.entry? v := by
    have hl := (isDirAt_iff fs l).mp hd
    rcases List.eq_nil_or_concat l with rfl | ⟨p, n, rfl⟩
    · cases v with
      | nil => rfl
      | cons m v => rw [if_pos ⟨List.nil_prefix, by simp⟩]; rfl
    · have hdrop := isDirAt_dropLast fs (p.concat n) (by rw [hl]; exact Option.some_ne_none _)
      rw [entry?_put _ _ _ _ (by simp) hdrop (fun _ => rfl)]
      by_cases hv : v = p.concat n
      · rw [if_pos hv, if_neg (fun h => h.2 hv), hv, hl]
        rfl
      · rw [if_neg hv]
        by_cases hp : p.concat n <+: v
        · rw [if_pos hp, if_pos ⟨hp, hv⟩]
        · rw [if_neg hp, if_neg (fun h => hp h.1)]
  rw [← hput, clear]
  split
  · exact entry?_retreat _ _ _
  · rfl

end FileSystem

end LaunchDist
