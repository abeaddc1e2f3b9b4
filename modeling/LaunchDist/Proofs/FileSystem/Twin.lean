import LaunchDist.Proofs.FileSystem.Sources
/-!
# Equal trees at two places

What paths lead to from a directory depends on the tree that stands there alone, as long as they do
not climb out of it and no link is in it. A node that is moved stands at its new place with all that
is below it.
-/
namespace LaunchDist

/-- An entry without the permission bits of a file. -/
def DirEntry.withoutMode : DirEntry → DirEntry
  | .file _ content => .file 0 content
  | entry => entry

theorem DirEntry.withoutMode_eq_link_iff {e : DirEntry} {target : Path} :
    e.withoutMode = .link target ↔ e = .link target := by
  cases e <;> simp [DirEntry.withoutMode]

theorem DirEntry.withoutMode_eq_dir_iff {e : DirEntry} : e.withoutMode = .dir ↔ e = .dir := by
  cases e <;> simp [DirEntry.withoutMode]

theorem DirEntry.exists_of_withoutMode {e e' : DirEntry} {mode : Mode} {content : Bytes}
    (h : e'.withoutMode = e.withoutMode) (he : e = .file mode content) :
    ∃ mode', e' = .file mode' content := by
  subst he
  cases e' with
  | file mode' content' =>
    cases h
    exact ⟨mode', rfl⟩
  | link target => cases h
  | socket => cases h
  | dir => cases h

namespace FileSystem

open LaunchDist.Path (Step)

/-- Whether steps from so many levels below a directory stay inside it. -/
def staysInside : Nat → List Step → Bool
  | _, [] => true
  | depth, .here :: rest | depth, .slash :: rest => staysInside depth rest
  | 0, .up :: _ => false
  | depth + 1, .up :: rest => staysInside depth rest
  | depth, .name _ :: rest => staysInside (depth + 1) rest

/-- A relative path that starts with a name and stays inside the directory it starts from. -/
structure IsInner (q : Path) : Prop where
  isAbsolute : q.isAbsolute = false
  steps : ∃ n rest, q.steps = .name n :: rest
  staysInside : staysInside 0 q.steps = true

theorem IsInner.moves_ne_nil {q : Path} (h : IsInner q) : q.moves ≠ [] := by
  obtain ⟨n, rest, hsteps⟩ := h.steps
  intro hnil
  rcases q.steps_cases with hq | hq <;> simp [hq, hnil] at hsteps

/-- Two paths lead to directories with equal trees, permission bits apart, in which no link is. -/
structure Twin (fs : FileSystem) (p : Path) (l : Location) (fs' : FileSystem) (p' : Path)
    (l' : Location) : Prop where
  find : fs.find .follow p = .ok (some l, .dir)
  find' : fs'.find .follow p' = .ok (some l', .dir)
  entry? : ∀ rel, (fs'.entry? (l' ++ rel)).map DirEntry.withoutMode =
    (fs.entry? (l ++ rel)).map DirEntry.withoutMode
  linkAt? : ∀ rel, fs.linkAt? (l ++ rel) = none

/-- What stands at a location below a node that a path has found, permission bits apart. Nothing is in
a directory that has been removed. -/
def treeAt (fs : FileSystem) : Option Location → Location → Option DirEntry
  | some l, rel => (fs.entry? (l ++ rel)).map DirEntry.withoutMode
  | none, [] => some .dir
  | none, _ :: _ => none

theorem linkAt?_of_treeAt {fs : FileSystem} {l : Location}
    (h : ∀ rel target, fs.treeAt (some l) rel ≠ some (.link target)) (rel : Location) :
    fs.linkAt? (l ++ rel) = none := by
  cases hl : fs.linkAt? (l ++ rel) with
  | none => rfl
  | some target =>
    refine absurd ?_ (h rel target)
    rw [treeAt, (linkAt?_eq_some_iff _ _ _).mp hl]
    rfl

theorem treeAt_ne_link {fs : FileSystem} {l : Location} (h : ∀ rel, fs.linkAt? (l ++ rel) = none)
    (rel : Location) (target : Path) : fs.treeAt (some l) rel ≠ some (.link target) := by
  rw [treeAt, ne_eq, Option.map_eq_some_iff]
  rintro ⟨e, he, hlink⟩
  obtain rfl := DirEntry.withoutMode_eq_link_iff.mp hlink
  have hnone := h rel
  rw [(linkAt?_eq_some_iff _ _ _).mpr he] at hnone
  cases hnone

theorem find_of_treeAt {fs : FileSystem} {p : Path} {found : Option Location} {e : DirEntry} {n : Name}
    (hf : fs.find .follow p = .ok (found, e)) (hn : fs.treeAt found [n] = some .dir) :
    ∃ l, found = some l ∧ fs.find .follow p = .ok (some l, .dir) := by
  cases found with
  | none => cases hn
  | some l =>
    rw [treeAt, Option.map_eq_some_iff] at hn
    obtain ⟨e', he', _⟩ := hn
    have hd := isDirAt_of_below fs l n [] (by rw [he']; exact Option.some_ne_none _)
    have he := (find_follow_iff.mp hf).2.2
    rw [(isDirAt_iff _ _).mp hd] at he
    obtain rfl := Option.some.inj he
    exact ⟨l, rfl, hf⟩

theorem treeAt_of_isDir {fs : FileSystem} {p : Path} {found : Option Location} {e : DirEntry} {s : String}
    (hs : Path.IsEntryName (Utf8.encode s)) (hf : fs.find .follow p = .ok (found, e))
    (hlinkless : ∀ rel target, fs.treeAt found rel ≠ some (.link target)) (hd : fs.isDir (p / s)) :
    fs.treeAt found [Utf8.encode s] = some .dir := by
  obtain ⟨u?, hu⟩ := find_of_isDir hd
  obtain ⟨u, rfl, _⟩ := location_of_find (by decide) (Path.namesOf_entry_ne_nil p s hs) hu
  obtain ⟨_, ⟨k, hr⟩, he⟩ := find_follow_iff.mp hu
  obtain ⟨k0, l, hroot, hl, hleads⟩ := (reaches_entry_iff hs).mp hr
  have hfound := find_follow_iff.mpr ⟨nameable_of_find hf, ⟨k0, hroot⟩, (isDirAt_iff _ _).mp hl⟩
  rw [hf] at hfound
  cases hfound
  obtain ⟨_, rfl⟩ := hleads.eq_of_name (linkAt?_of_treeAt hlinkless _)
  rw [treeAt, he]
  rfl

namespace Twin

variable {fs fs' : FileSystem} {p p' q : Path} {l l' v : Location} {e : DirEntry} {rel : Location}
  {k k' : Nat} {xs : List Step}

theorem exists_entry (h : Twin fs p l fs' p' l') (he : fs.entry? (l ++ rel) = some e) :
    ∃ e', fs'.entry? (l' ++ rel) = some e' ∧ e'.withoutMode = e.withoutMode := by
  have hrel := h.entry? rel
  rw [he, Option.map_some, Option.map_eq_some_iff] at hrel
  exact hrel

theorem symm (h : Twin fs p l fs' p' l') : Twin fs' p' l' fs p l where
  find := h.find'
  find' := h.find
  entry? rel := (h.entry? rel).symm
  linkAt? rel := by
    cases hl : fs'.linkAt? (l' ++ rel) with
    | none => rfl
    | some target =>
      have hrel := h.entry? rel
      rw [(linkAt?_eq_some_iff _ _ _).mp hl, Option.map_some, eq_comm, Option.map_eq_some_iff] at hrel
      obtain ⟨e, he, hlink⟩ := hrel
      have hnone := h.linkAt? rel
      rw [FileSystem.linkAt?, he, DirEntry.withoutMode_eq_link_iff.mp hlink] at hnone
      cases hnone

theorem isDirAt (h : Twin fs p l fs' p' l') (hd : fs.isDirAt (l ++ rel)) :
    fs'.isDirAt (l' ++ rel) := by
  obtain ⟨e', he', heq⟩ := h.exists_entry ((isDirAt_iff _ _).mp hd)
  rw [isDirAt_iff, he', DirEntry.withoutMode_eq_dir_iff.mp heq]

theorem leads (h : Twin fs p l fs' p' l') (hin : staysInside rel.length xs = true)
    (hx : Leads fs k (l ++ rel) xs k' v) :
    ∃ rel', v = l ++ rel' ∧ ∀ j, Leads fs' j (l' ++ rel) xs j (l' ++ rel') := by
  induction xs generalizing rel with
  | nil =>
    cases hx
    exact ⟨rel, rfl, fun j => .done j _⟩
  | cons s xs ih =>
    cases hx with
    | stay hs hd hx =>
      have hrest : staysInside rel.length xs = true := by
        rcases hs with rfl | rfl <;> simpa [FileSystem.staysInside] using hin
      obtain ⟨rel', rfl, hleads⟩ := ih hrest hx
      exact ⟨rel', rfl, fun j => .stay hs (h.isDirAt hd) (hleads j)⟩
    | up hd hx =>
      rcases List.eq_nil_or_concat rel with rfl | ⟨rel, n, rfl⟩
      · cases hin
      · rw [List.concat_eq_append, ← List.append_assoc] at hd hx ⊢
        rw [List.concat_eq_append, List.length_append] at hin
        rw [List.dropLast_concat] at hx
        obtain ⟨rel', rfl, hleads⟩ := ih hin hx
        have hd' : fs'.isDirAt (l' ++ rel ++ [n]) := by
          rw [List.append_assoc] at hd ⊢
          exact h.isDirAt hd
        refine ⟨rel', rfl, fun j => .up hd' ?_⟩
        rw [List.dropLast_concat]
        exact hleads j
    | @enter _ _ n _ _ _ hd hn he hl hx =>
      obtain ⟨e, he⟩ := Option.ne_none_iff_exists'.mp he
      rw [List.append_assoc] at he hx
      have hrest : staysInside (rel ++ [n]).length xs = true := by
        rw [List.length_append]
        exact hin
      obtain ⟨rel', rfl, hleads⟩ := ih hrest hx
      obtain ⟨e', he', _⟩ := h.exists_entry he
      have hl' := h.symm.linkAt? (rel ++ [n])
      rw [← List.append_assoc] at he' hl'
      refine ⟨rel', rfl, fun j => .enter (h.isDirAt hd) hn (by rw [he']; exact Option.some_ne_none _)
        hl' ?_⟩
      rw [List.append_assoc]
      exact hleads j
    | follow _ _ hl _ =>
      rw [List.append_assoc, h.linkAt?] at hl
      cases hl

/-- The paths of the two trees that go on alike are found alike, if both are short enough to be looked
up or neither is. -/
theorem find_join (h : Twin fs p l fs' p' l') (hq : IsInner q)
    (hlong : isTooLong (p'.join q) = isTooLong (p.join q))
    (hf : fs.find .follow (p.join q) = .ok (some v, e)) :
    ∃ rel e', v = l ++ rel ∧ fs.entry? (l ++ rel) = some e ∧ e'.withoutMode = e.withoutMode ∧
      fs'.find .follow (p'.join q) = .ok (some (l' ++ rel), e') := by
  obtain ⟨hn, ⟨k, hr⟩, he⟩ := find_follow_iff.mp hf
  obtain ⟨_, ⟨k0, hroot⟩, hl⟩ := find_follow_iff.mp h.find
  obtain ⟨hn', ⟨k0', hroot'⟩, hl'⟩ := find_follow_iff.mp h.find'
  have hleads : Leads fs k0 l q.steps k v := hroot.leads_of_join hq.isAbsolute hq.moves_ne_nil hq.steps hr
  rw [← List.append_nil l] at hleads
  have hin : staysInside ([] : Location).length q.steps = true := hq.staysInside
  obtain ⟨rel, rfl, hleads'⟩ := h.leads hin hleads
  obtain ⟨e', he', heq⟩ := h.exists_entry he
  refine ⟨rel, e', rfl, he, heq, find_follow_iff.mpr ⟨⟨?_, ?_, ?_⟩, ⟨k0', ?_⟩, he'⟩⟩
  · rw [hlong]
    exact hn.isTooLong
  · rw [Path.zero_mem_join _ _ hq.isAbsolute]
    rintro (hzero | hzero)
    · exact hn'.zero_notMem hzero
    · exact hn.zero_notMem ((Path.zero_mem_join _ _ hq.isAbsolute).mpr (.inr hzero))
  · apply Path.bytes_ne_nil_of_moves
    rw [Path.moves_join _ _ hq.isAbsolute]
    exact fun hnil => hq.moves_ne_nil (List.append_eq_nil_iff.mp hnil).2
  · refine hroot'.join ((isDirAt_iff _ _).mpr hl') hq.isAbsolute hq.moves_ne_nil ?_
    have hleads'' := hleads' k0'
    rwa [List.append_nil] at hleads''

section Questions

variable (h : Twin fs p l fs' p' l') (hq : IsInner q)
  (hlong : isTooLong (p'.join q) = isTooLong (p.join q))

include h hq hlong

theorem isFile_of_isFile (hfile : fs.isFile (p.join q)) : fs'.isFile (p'.join q) := by
  obtain ⟨v, mode, content, hf⟩ := isFile_iff.mp hfile
  obtain ⟨rel, e', rfl, _, heq, hf'⟩ := h.find_join hq hlong hf
  obtain ⟨mode', rfl⟩ := DirEntry.exists_of_withoutMode heq rfl
  exact isFile_iff.mpr ⟨_, mode', content, hf'⟩

theorem isFile_eq : fs'.isFile (p'.join q) = fs.isFile (p.join q) :=
  Bool.eq_iff_iff.mpr ⟨h.symm.isFile_of_isFile hq hlong.symm, h.isFile_of_isFile hq hlong⟩

theorem find_dir (hd : fs.isDir (p.join q)) :
    ∃ rel, fs.find .follow (p.join q) = .ok (some (l ++ rel), .dir) ∧
      fs'.find .follow (p'.join q) = .ok (some (l' ++ rel), .dir) := by
  obtain ⟨v?, hf⟩ := find_of_isDir hd
  have hnames : Path.namesOf (p.join q).steps ≠ [] := by
    obtain ⟨n, rest, hsteps⟩ := hq.steps
    rw [Path.steps_join _ _ hq.isAbsolute hq.moves_ne_nil, hsteps, Path.namesOf_append]
    exact fun hnil => List.cons_ne_nil _ _ (List.append_eq_nil_iff.mp hnil).2
  obtain ⟨v, rfl, _⟩ := location_of_find (by decide) hnames hf
  obtain ⟨rel, e', rfl, _, heq, hf'⟩ := h.find_join hq hlong hf
  rw [DirEntry.withoutMode_eq_dir_iff.mp heq] at hf'
  exact ⟨rel, hf, hf'⟩

theorem isDir_of_isDir (hd : fs.isDir (p.join q)) : fs'.isDir (p'.join q) := by
  obtain ⟨_, _, hf'⟩ := h.find_dir hq hlong hd
  rw [isDir, stat_of_find hf']

theorem isDir_eq : fs'.isDir (p'.join q) = fs.isDir (p.join q) :=
  Bool.eq_iff_iff.mpr ⟨h.symm.isDir_of_isDir hq hlong.symm, h.isDir_of_isDir hq hlong⟩

theorem list_eq (hd : fs.isDir (p.join q)) : fs'.list (p'.join q) = fs.list (p.join q) := by
  obtain ⟨rel, hf, hf'⟩ := h.find_dir hq hlong hd
  have hnames : fs'.namesAt (l' ++ rel) = fs.namesAt (l ++ rel) := by
    refine namesAt_eq_of_iff fun n => ?_
    have hentry := h.entry? (rel ++ [n])
    rw [← List.append_assoc, ← List.append_assoc] at hentry
    rw [← Option.map_eq_none_iff (f := DirEntry.withoutMode), hentry, Option.map_eq_none_iff]
  rw [list, list, hf, hf']
  exact congrArg Except.ok hnames

theorem readText_ok {text : String} (ht : fs.readText (p.join q) = .ok text) :
    fs'.readText (p'.join q) = .ok text := by
  obtain ⟨v, mode, content, hf, hd⟩ := readText_ok_iff.mp ht
  obtain ⟨rel, e', rfl, _, heq, hf'⟩ := h.find_join hq hlong hf
  obtain ⟨mode', rfl⟩ := DirEntry.exists_of_withoutMode heq rfl
  exact readText_ok_iff.mpr ⟨_, mode', content, hf', hd⟩

end Questions

end Twin

end FileSystem

/-- The location at which a look-up ends. -/
def Spot.location : Spot → Location
  | .found l => l
  | .vacant parent name => parent ++ [name]
  | .removed => []

namespace FileSystem

variable {fs fs' : FileSystem} {source dest : Path} {l l' : Location} {e : DirEntry} {spot : Spot}

theorem move_ok (hsource : fs.find .directory source = .ok (some l, e))
    (hdest : fs.locate .directory dest = .ok spot) (h : fs.move source dest = .ok fs') :
    fs' = fs ∧ l = spot.location ∨
      fs.moveProblem? l e spot.location = none ∧ fs' = fs.moveNode l spot.location := by
  rw [move, hsource, hdest] at h
  cases spot
  case removed => cases h
  all_goals
    dsimp only at h
    split at h
    · cases h
    split at h
    · cases h
    split at h
    · rename_i heq
      exact .inl ⟨(Except.ok.inj h).symm, heq⟩
    split at h
    · cases h
    · rename_i hnone
      exact .inr ⟨hnone, (Except.ok.inj h).symm⟩

theorem ne_nil_of_moveProblem? (h : fs.moveProblem? l e l' = none) : l' ≠ [] := by
  rintro rfl
  unfold moveProblem? at h
  by_cases hl : l <+: []
  · rw [if_pos hl] at h
    cases h
  · rw [if_neg hl, if_pos List.nil_prefix] at h
    cases h

/-- What stands at the new place, if anything does, is the node that was moved. -/
theorem entry?_moveNode (hne : l' ≠ []) (hl' : entry? (fs.moveNode l l') l' ≠ none) (rel : Location) :
    entry? (fs.moveNode l l') (l' ++ rel) = fs.entry? (l ++ rel) := by
  generalize hcut : (fs.remove l').update l none = cut at *
  have hmoved : ∀ u, (fs.moveNode l l').node? u = (cut.update l' (fs.node? l)).node? u := by
    intro u
    rw [moveNode, hcut]
    split <;> rfl
  have hparent : cut.isDirAt l'.dropLast := by
    have hd := isDirAt_dropLast _ _ hl'
    have hapart : ¬ l' <+: l'.dropLast := by
      intro hp
      have hlen := hp.length_le
      have hpos := List.length_pos_of_ne_nil hne
      rw [List.length_dropLast] at hlen
      omega
    rw [isDirAt_iff, entry?, hmoved] at hd
    rw [isDirAt_iff, ← entry?_update_apart cut l' _ (fs.node? l) hapart]
    exact hd
  unfold entry?
  rw [hmoved, node?_update_self cut l' _ hne hparent, node?_append]

end FileSystem

end LaunchDist
