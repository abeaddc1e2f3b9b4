import LaunchDist.Proofs.FileSystem.Reach
/-!
# Writing and copying files

A file that is opened for writing stands where its path leads afterwards, and nothing else changes.
-/
namespace LaunchDist

namespace FileSystem

open LaunchDist.Path (Step IsEntryName)

/-- A location at which a file is, or can be made. -/
structure Writable (fs : FileSystem) (l : Location) : Prop where
  ne_nil : l ≠ []
  isDirAt : fs.isDirAt l.dropLast
  entry? : fs.entry? l = none ∨ ∃ mode content, fs.entry? l = some (.file mode content)

namespace Writable

variable {fs : FileSystem} {l : Location} (h : Writable fs l) (mode : Mode) (content : Bytes)

include h

theorem entry?_put (v : Location) :
    FileSystem.entry? (fs.put l (.file mode content)) v =
      if v = l then some (.file mode content) else fs.entry? v := by
  rw [FileSystem.entry?_put fs l v _ h.ne_nil h.isDirAt (fun _ => rfl)]
  by_cases hv : v = l
  · rw [if_pos hv, if_pos hv]
    rfl
  · rw [if_neg hv, if_neg hv]
    by_cases hp : l <+: v
    · rw [if_pos hp, entry?_below_of_not_dir fs l v ?_ hp hv]
      rw [← Bool.not_eq_true, isDirAt_iff]
      rcases h.entry? with he | ⟨m, c, he⟩ <;> simp [he]
    · rw [if_neg hp]

theorem entry?_put_self :
    FileSystem.entry? (fs.put l (.file mode content)) l = some (.file mode content) := by
  rw [h.entry?_put, if_pos rfl]

theorem keeps_put : Keeps fs (fs.put l (.file mode content)) := by
  intro v hv
  rw [h.entry?_put]
  by_cases hl : v = l
  · subst hl
    rw [if_pos rfl]
    rcases h.entry? with he | ⟨m, c, he⟩
    · exact absurd he hv
    · rw [he]
      rfl
  · rw [if_neg hl]

theorem linkAt?_put (v : Location) :
    (fs.put l (.file mode content)).linkAt? v = fs.linkAt? v := by
  by_cases hv : v = l
  · subst hv
    rw [linkAt?, h.entry?_put_self, linkAt?]
    rcases h.entry? with he | ⟨m, c, he⟩ <;> rw [he]
  · exact linkAt?_congr (by rw [h.entry?_put, if_neg hv])

end Writable

section Target

variable {fs fs' : FileSystem} {p : Path} {l : Location} {mode : Mode} {content : Bytes}

theorem target_spec (h : fs.target p = .ok (l, mode)) :
    Writable fs l ∧ Nameable p ∧
      ∀ mode' content', ∃ k, Reaches (fs.put l (.file mode' content')) p k l := by
  rw [target] at h
  cases hloc : fs.locate .create p with
  | error failure => rw [hloc] at h; cases h
  | ok spot =>
    have hn := nameable_of_locate hloc
    rw [hloc] at h
    rcases origin?_of_locate (by decide) hloc with ⟨start, steps, ho, hs⟩ | ⟨rfl, _⟩
    · have horigin : ∀ node, (fs.put l node).origin? p = some (start, steps) :=
        fun node => (origin?_congr (.inr (sameStart_put fs l node))).trans ho
      cases spot with
      | removed => cases h
      | vacant v n =>
        cases h
        obtain ⟨hfree, hleads⟩ := leads_of_vacant hs
        have hw : Writable fs (v ++ [n]) :=
          ⟨by simp, by rw [List.dropLast_concat]; exact hfree.isDirAt, .inl hfree.entry?⟩
        refine ⟨hw, hn, fun mode' content' => ?_⟩
        have hself := hw.entry?_put_self mode' content'
        obtain ⟨k, hk⟩ := hleads _ (hw.keeps_put mode' content')
          (by rw [hself]; exact Option.some_ne_none _) (by rw [linkAt?, hself]) (.inl rfl)
        exact ⟨k, start, steps, horigin _, hk⟩
      | found v =>
        cases he : fs.entry? v with
        | none => simp [he] at h
        | some e =>
          simp only [he] at h
          cases e with
          | link target => cases h
          | socket => cases h
          | dir => cases h
          | file m c =>
            cases h
            have hne : fs.entry? l ≠ none := by rw [he]; exact Option.some_ne_none _
            have hw : Writable fs l := by
              refine ⟨?_, isDirAt_dropLast fs l hne, .inr ⟨mode, c, he⟩⟩
              rintro rfl
              exact absurd ((isDirAt_iff _ _).mp (isDirAt_nil fs)) (by rw [he]; simp)
            refine ⟨hw, hn, fun mode' content' => ?_⟩
            obtain ⟨k, hk⟩ := leads_of_found (.inr (.inl rfl)) hs
            exact ⟨k, start, steps, horigin _, hk.mono (hw.keeps_put mode' content')⟩
    · cases h

theorem find_put_target (h : fs.target p = .ok (l, mode)) (mode' : Mode) (content' : Bytes) :
    (fs.put l (.file mode' content')).find .follow p = .ok (some l, .file mode' content') := by
  obtain ⟨hw, hn, hr⟩ := target_spec h
  exact find_follow_iff.mpr ⟨hn, hr _ _, hw.entry?_put_self _ _⟩

theorem eq_of_target_found {v : Location} (hloc : fs.locate .create p = .ok (.found v))
    (h : fs.target p = .ok (l, mode)) : l = v := by
  rw [target, hloc] at h
  simp only at h
  split at h
  · cases h
    rfl
  · cases h
  · cases h

private theorem spot_of_create {k : Nat} {v : Location} {n : Name} {rest : List Step} {spot : Spot}
    (hl : fs.linkAt? (v ++ [n]) = none)
    (h : fs.lookupSteps .create k v (.name n :: rest) = .ok spot) :
    (fs.entry? (v ++ [n]) = none → rest = [] ∧ spot = .vacant v n) ∧
      (rest = [] → fs.entry? (v ++ [n]) ≠ none → spot = .found (v ++ [n])) := by
  cases (begins_of_lookupSteps _ h).2 with
  | stay hs => simp at hs
  | enter _ he _ h =>
    refine ⟨fun hn => absurd hn he, fun hrest _ => ?_⟩
    rw [hrest, lookupSteps_nil] at h
    exact (Except.ok.inj h).symm
  | follow _ hl' =>
    rw [hl] at hl'
    cases hl'
  | stop hrest => simp [Purpose.keepsLink] at hrest
  | vacant _ he hlast hc hspot =>
    have hnil := (isLast_iff.mp hlast).resolve_right fun heq => hc ⟨rfl, heq⟩
    exact ⟨fun _ => ⟨hnil, hspot⟩, fun _ hne => absurd he hne⟩

private theorem steps_join_of_name (p : Path) {q : Path} {n : Name} {rest : List Step}
    (hq : q.isAbsolute = false) (hsteps : q.steps = .name n :: rest) :
    (p.join q).steps = p.moves ++ .name n :: rest := by
  have hmoves : q.moves ≠ [] := by
    intro hm
    rw [Path.steps_eq, hm, if_neg (fun hc => hc.1 rfl)] at hsteps
    cases hsteps
  rw [Path.steps_join p q hq hmoves, hsteps]

theorem target_entry {k : Nat} {v : Location} {q : Path} {n : Name} {rest : List Step} {m : Mode}
    (hr : Reaches fs p k v) (hq : q.isAbsolute = false)
    (hsteps : q.steps = .name n :: rest) (hl : fs.linkAt? (v ++ [n]) = none)
    (hrest : fs.entry? (v ++ [n]) = none ∨ rest = []) (h : fs.target (p.join q) = .ok (l, m)) :
    rest = [] ∧ n.length ≤ maxNameLength ∧ l = v ++ [n] := by
  have hjoin := steps_join_of_name p hq hsteps
  cases hloc : fs.locate .create (p.join q) with
  | error failure => rw [target, hloc] at h; cases h
  | ok spot =>
    obtain ⟨k', w, hx, hw, hs⟩ := reaches_before (by decide) hjoin hloc
    rw [Path.isAbsolute_join p q hq] at hx
    obtain ⟨_, rfl⟩ := hr.unique ((reaches_iff_moves hw).mpr hx)
    obtain ⟨hvacant, hfound⟩ := spot_of_create hl hs
    have hlen := (lookupSteps_name_ok _ _ _ _ _ _ _ hs).2.2.1
    by_cases he : fs.entry? (v ++ [n]) = none
    · obtain ⟨hnil, rfl⟩ := hvacant he
      rw [target, hloc] at h
      cases h
      exact ⟨hnil, hlen, rfl⟩
    · have hnil := hrest.resolve_left he
      obtain rfl := hfound hnil he
      exact ⟨hnil, hlen, eq_of_target_found hloc h⟩

/-- A file opened for writing at a name, behind which the path stays, is the entry of that name in a
directory that the path reaches, if no link stands there. -/
theorem target_below {q : Path} {n : Name} {rest : List Step} {m : Mode} (hq : q.isAbsolute = false)
    (hsteps : q.steps = .name n :: rest) (hrest : ∀ s ∈ rest, s = .here ∨ s = .slash)
    (h : fs.target (p.join q) = .ok (l, m)) :
    ∃ k v, Reaches fs p k v ∧ fs.isDirAt v ∧ (fs.linkAt? (v ++ [n]) = none → l = v ++ [n]) := by
  have hjoin := steps_join_of_name p hq hsteps
  have hstay : ∀ k (v : Location) spot, fs.lookupSteps .create k v rest = .ok spot → spot = .found v := by
    clear hsteps hjoin
    intro k v spot hs
    induction rest with
    | nil =>
      rw [lookupSteps_nil] at hs
      exact (Except.ok.inj hs).symm
    | cons s rest ih =>
      rw [lookupSteps_stay _ _ _ _ _ _ (hrest s List.mem_cons_self)] at hs
      split at hs
      · exact ih (fun s hs => hrest s (List.mem_cons_of_mem _ hs)) hs
      · cases hs
  cases hloc : fs.locate .create (p.join q) with
  | error failure => rw [target, hloc] at h; cases h
  | ok spot =>
    obtain ⟨k, v, hx, hv, hs⟩ := reaches_before (by decide) hjoin hloc
    rw [Path.isAbsolute_join p q hq] at hx
    refine ⟨k, v, (reaches_iff_moves hv).mpr hx, hv, fun hl => ?_⟩
    cases (begins_of_lookupSteps _ hs).2 with
    | stay hs => simp at hs
    | enter _ _ _ hs =>
      obtain rfl := hstay _ _ _ hs
      exact eq_of_target_found hloc h
    | follow _ hl' =>
      rw [hl] at hl'
      cases hl'
    | stop hrest => simp [Purpose.keepsLink] at hrest
    | vacant _ _ _ _ hspot =>
      subst hspot
      rw [target, hloc] at h
      cases h
      rfl

theorem reaches_of_target {s : String} {m : Mode} (hs : IsEntryName (Utf8.encode s))
    (h : fs.target (p / s) = .ok (l, m)) : ∃ k v, Reaches fs p k v ∧ fs.isDirAt v := by
  rw [target] at h
  cases hloc : fs.locate .create (p / s) with
  | error failure => rw [hloc] at h; cases h
  | ok spot =>
    obtain ⟨k, v, hx, hv, _⟩ := reaches_before (by decide) (Path.steps_entry p s hs) hloc
    rw [Path.isAbsolute_entry p s hs] at hx
    exact ⟨k, v, (reaches_iff_moves hv).mpr hx, hv⟩

theorem write_spec (h : fs.write p content = .ok fs') :
    ∃ l mode, fs.target p = .ok (l, mode) ∧ fs' = fs.put l (.file mode content) := by
  rw [write] at h
  cases ht : fs.target p with
  | error failure => rw [ht] at h; cases h
  | ok t =>
    obtain ⟨l, mode⟩ := t
    rw [ht] at h
    exact ⟨l, mode, rfl, (Except.ok.inj h).symm⟩

theorem copyFile_spec {source dest : Path} (h : fs.copyFile source dest = .ok fs') :
    ∃ s mode content l m, fs.find .follow source = .ok (some s, .file mode content) ∧
      fs.target dest = .ok (l, m) ∧
      fs' = fs.put l (.file mode (if s = l then [] else content)) := by
  rw [copyFile] at h
  split at h
  · cases h
  · rename_i s mode content hs
    cases ht : fs.target dest with
    | error failure => rw [ht] at h; cases h
    | ok t =>
      obtain ⟨l, m⟩ := t
      rw [ht] at h
      exact ⟨s, mode, content, l, m, hs, rfl, (Except.ok.inj h).symm⟩
  · cases h
  · cases h

end Target

/-- Whether an entry stands where a path leads, also if the path lacks directories on its way. -/
def Held (fs : FileSystem) (p : Path) (e : DirEntry) : Prop :=
  fs.entry? (fs.destination p) = some e ∧ ∀ e', fs.stat p = .ok e' → e' = e

/-- What a path leads to is what it has led to all along, if its way is the same. -/
theorem held_of_find {before fs : FileSystem} {p : Path} {l : Location} {e : DirEntry}
    (hf : fs.find .follow p = .ok (some l, e)) (hs : p.isAbsolute = true ∨ SameStart before fs)
    (ht : fs.trail p = before.trail p) (he : before.entry? l = some e) :
    l = before.destination p ∧ Held before p e := by
  obtain ⟨_, ⟨k, hr⟩, _⟩ := find_follow_iff.mp hf
  have hdest : before.destination p = l := by rw [← destination_congr ht, hr.destination_eq]
  refine ⟨hdest.symm, by rw [hdest, he], fun e' hstat => ?_⟩
  rw [stat] at hstat
  cases hfind : before.find .follow p with
  | error failure => rw [hfind] at hstat; cases hstat
  | ok found =>
    obtain ⟨l?, e''⟩ := found
    rw [hfind] at hstat
    obtain rfl := Except.ok.inj hstat
    cases l? with
    | some l' =>
      obtain ⟨_, ⟨k', hr'⟩, he'⟩ := find_follow_iff.mp hfind
      rw [← hr'.destination_eq, hdest, he] at he'
      exact (Option.some.inj he').symm
    | none =>
      -- A path that stays in a removed directory leads nowhere.
      exfalso
      rcases locate_of_find hfind with ⟨_, hsome, _⟩ | ⟨_, hloc⟩
      · cases hsome
      · obtain ⟨start, steps, ho, _⟩ := hr
        have ho' := (origin?_congr hs).symm.trans (show fs.origin? p = _ from ho)
        rw [(origin?_of_removed (by decide) hloc).1] at ho'
        cases ho'

end FileSystem

end LaunchDist
