import LaunchDist.Distribution
import LaunchDist.Proofs.FileSystem.Files
import LaunchDist.Proofs.FileSystem.Reset
/-!
# Filling a distribution

While a distribution is filled, its two directories hold the files copied so far. Apart from them and
from what stood in their places, the files are as they were, but for new directories on the way.
-/
namespace LaunchDist

namespace Distribution

open FileSystem
open LaunchDist.Path (Step IsEntryName)

def binName : Name := Utf8.encode "bin"

def libName : Name := Utf8.encode "lib"

/-- The names of the two directories of a distribution. -/
def IsPart (d : Name) : Prop :=
  d = libName ∨ d = binName

instance (d : Name) : Decidable (IsPart d) :=
  inferInstanceAs (Decidable (_ ∨ _))

/-- Whether a location is in one of the two places that a root names, or below. -/
def Inside (fs : FileSystem) (root : Path) (u : Location) : Prop :=
  fs.place root libName <+: u ∨ fs.place root binName <+: u

instance (fs : FileSystem) (root : Path) (u : Location) : Decidable (Inside fs root u) :=
  inferInstanceAs (Decidable (_ ∨ _))

/-- What stands in the two directories, by directory and name. -/
abbrev Contents := Name → Name → Option DirEntry

def Contents.install (c : Contents) (d n : Name) (e : DirEntry) : Contents :=
  fun d' n' => if d' = d ∧ n' = n then some e else c d' n'

namespace Contents

variable (c : Contents) {d d' n n' : Name} (e : DirEntry)

theorem install_self : c.install d n e d n = some e :=
  if_pos ⟨rfl, rfl⟩

theorem install_of_dir_ne (h : d' ≠ d) : c.install d n e d' n' = c d' n' :=
  if_neg fun hc => h hc.1

theorem install_of_name_ne (h : n' ≠ n) : c.install d n e d' n' = c d' n' :=
  if_neg fun hc => h hc.2

end Contents

/-- Whether a location is in a place that has been made anew, or below. -/
def Rebuilt (before : FileSystem) (root : Path) (home u : Location) : Prop :=
  before.place root libName <+: u ∨ home ++ [binName] <+: u

/-- What is known of the files while the distribution at a root, in the directory `home`, is filled. -/
structure Building (before fs : FileSystem) (root : Path) (home : Location) (c : Contents) : Prop where
  reaches : ∃ k, Reaches fs root k home
  dir : ∀ d, IsPart d → fs.entry? (home ++ [d]) = some .dir
  contents : ∀ d, IsPart d → ∀ n, fs.entry? (home ++ [d] ++ [n]) = c d n
  isFile : ∀ d n e, c d n = some e → ∃ mode content, e = .file mode content
  apart : ∀ u, ¬ Rebuilt before root home u →
    fs.entry? u = before.entry? u ∨ before.entry? u = none ∧ fs.entry? u = some .dir
  rebuilt : ∀ u, Rebuilt before root home u → fs.entry? u = none ∨ fs.entry? u = some .dir ∨
    ∃ d n, IsPart d ∧ u = home ++ [d] ++ [n]
  part : ∀ d, IsPart d → Rebuilt before root home (home ++ [d])
  inside : ∀ u, Rebuilt before root home u → Inside before root u
  start : SameStart before fs ∨ Rebuilt before root home before.workingDir ∧ 0 < fs.lostLevels

section Resets

variable {before made fs : FileSystem} {root : Path} {first home : Location}

theorem libName_ne_binName : libName ≠ binName := by decide

private theorem not_prefix_of_ne {l : Location} {n m : Name} (h : n ≠ m) (r : Location) :
    ¬ l ++ [n] <+: l ++ [m] ++ r := by
  rw [List.append_assoc, List.prefix_append_right_inj, List.singleton_append]
  exact fun hp => h (List.cons_prefix_cons.mp hp).1

section Same

variable (hlib : Renewed before made root libName home) (hbin : Renewed made fs root binName home)

include hlib

private theorem place_binName : made.place root binName = home ++ [binName] := by
  obtain ⟨k, hr⟩ := hlib.reaches
  rw [place, hr.destination_eq]

/-- The root is where it was, or in the place of `lib`. -/
theorem home_cases : home = before.destination root ∨ before.place root libName <+: home := by
  rcases hlib.home with ht | ⟨_, hp, _⟩
  · left
    obtain ⟨k, hr⟩ := hlib.reaches
    rw [← destination_congr ht, hr.destination_eq]
  · exact .inr hp

include hbin

private theorem entry?_below_lib (r : Location) :
    fs.entry? (home ++ [libName] ++ r) = made.entry? (home ++ [libName] ++ r) := by
  have hout : ¬ made.place root binName <+: home ++ [libName] ++ r := by
    rw [place_binName hlib]
    exact not_prefix_of_ne libName_ne_binName.symm r
  rcases hbin.apart _ hout with h | ⟨_, _, hp⟩
  · exact h
  · exfalso
    have hlen := hp.length_le
    simp only [List.length_append, List.length_singleton] at hlen
    have heq : r = [] := List.length_eq_zero_iff.mp (by omega)
    rw [heq, List.append_nil] at hp
    exact not_prefix_of_ne libName_ne_binName [] (by rwa [List.append_nil])

private theorem apart_of_resets (u : Location) (hu : ¬ Rebuilt before root home u) :
    fs.entry? u = before.entry? u ∨ before.entry? u = none ∧ fs.entry? u = some .dir := by
  have hb := hbin.apart u (by rw [place_binName hlib]; exact fun hp => hu (.inr hp))
  have hl := hlib.apart u (fun hp => hu (.inl hp))
  rcases hb with hb | ⟨hb, hd, _⟩
  · rw [hb]
    exact hl.imp_right fun h => ⟨h.1, h.2.1⟩
  · rcases hl with hl | ⟨_, hl, _⟩
    · exact .inr ⟨by rw [← hl, hb], hd⟩
    · rw [hl] at hb
      cases hb

private theorem rebuilt_of_resets (u : Location) (hu : Rebuilt before root home u) :
    fs.entry? u = none ∨ fs.entry? u = some .dir := by
  have hplace := place_binName hlib
  by_cases hp : home ++ [binName] <+: u
  · exact hbin.inside u (by rwa [hplace])
  · have hl := hlib.inside u (hu.resolve_right hp)
    rcases hbin.apart u (by rwa [hplace]) with h | ⟨_, h, _⟩
    · rwa [h]
    · exact .inr h

private theorem start_of_resets :
    SameStart before fs ∨ Rebuilt before root home before.workingDir ∧ 0 < fs.lostLevels := by
  rcases hlib.start with hs | ⟨hw, hlost⟩
  · rcases hbin.start with hs' | ⟨hw, hlost⟩
    · exact .inl (hs.trans hs')
    · rw [hs.1, place_binName hlib] at hw
      exact .inr ⟨.inr hw, hlost⟩
  · refine .inr ⟨.inl hw, ?_⟩
    rcases hbin.start with hs' | ⟨_, hlost'⟩
    · rw [hs'.2]
      exact hlost
    · exact hlost'

private theorem building_of_same : Building before fs root home fun _ _ => none where
  reaches := hbin.reaches
  dir d hd := by
    rcases hd with rfl | rfl
    · have h := entry?_below_lib hlib hbin []
      rwa [List.append_nil, (isDirAt_iff _ _).mp hlib.isDirAt] at h
    · exact (isDirAt_iff _ _).mp hbin.isDirAt
  contents d hd n := by
    rcases hd with rfl | rfl
    · rw [entry?_below_lib hlib hbin]
      exact hlib.empty _ (List.prefix_append _ _) (by simp)
    · exact hbin.empty _ (List.prefix_append _ _) (by simp)
  isFile d n e he := by cases he
  apart := apart_of_resets hlib hbin
  rebuilt u hu := (rebuilt_of_resets hlib hbin u hu).imp_right .inl
  part d hd := by
    rcases hd with rfl | rfl
    · rcases home_cases hlib with h | h
      · exact .inl (by rw [place, ← h])
      · exact .inl (h.trans (List.prefix_append _ _))
    · exact .inr (List.prefix_refl _)
  inside u hu := by
    rcases hu with hu | hu
    · exact .inl hu
    · rcases home_cases hlib with h | h
      · exact .inr (by rwa [place, ← h])
      · exact .inl ((h.trans (List.prefix_append _ _)).trans hu)
  start := start_of_resets hlib hbin

end Same

/-- Once both directories have been made anew, the distribution is empty, unless the way to the root
led through `bin`: then there is no `lib` any more. -/
theorem building_of_resets (hlib : Renewed before made root libName first)
    (hbin : Renewed made fs root binName home) :
    (Building before fs root home fun _ _ => none) ∨
      (∃ u ∈ before.trail root, before.place root binName <+: u) ∧
        fs.entry? (home ++ [libName]) = none := by
  obtain ⟨k, hr⟩ := hlib.reaches
  obtain ⟨k', hr'⟩ := hbin.reaches
  have hplace : made.place root binName = first ++ [binName] := by rw [place, hr.destination_eq]
  rcases hbin.home with ht | ⟨⟨u, hu, hp⟩, _, honly⟩
  · left
    have hsame : home = first := by
      rw [← hr'.destination_eq, destination_congr ht, hr.destination_eq]
    subst hsame
    exact building_of_same hlib hbin
  · right
    refine ⟨?_, honly _ libName_ne_binName⟩
    rw [hplace] at hp
    have hfirst : made.isDirAt first :=
      isDirAt_of_prefix made _ _ hlib.isDirAt (List.prefix_append _ _)
    have hne := hr.entry?_ne_none hfirst u hu
    rcases hlib.home with ht' | ⟨_, _, honly'⟩
    · refine ⟨u, by rwa [← ht'], ?_⟩
      rwa [place, ← destination_congr ht', hr.destination_eq]
    · exact absurd (entry?_below_none made _ u (honly' _ libName_ne_binName.symm) hp) hne

end Resets

/-- A path to a file to be copied, whose way and whose end do not depend on what stands in the two
places. -/
structure Source (fs : FileSystem) (root p : Path) : Prop where
  links : ∀ u ∈ fs.trail p, Inside fs root u → fs.linkAt? u = none
  start : p.isAbsolute = true ∨ ¬ Inside fs root fs.workingDir ∨ Step.up ∉ p.moves
  place : Inside fs root (fs.destination p) → ∀ l d n, IsPart d → fs.destination p ≠ l ++ [d] ++ [n]

/-- Whether a file is a copy of what a path led to, if that is a source. -/
structure CopyOf (before : FileSystem) (root src : Path) (e : DirEntry) : Prop where
  isFile : ∃ mode content, e = .file mode content
  held : Source before root src → Held before src e

namespace Building

variable {before fs fs' : FileSystem} {root p : Path} {home l : Location} {c : Contents} {k : Nat}

theorem isDirAt (h : Building before fs root home c) {d : Name} (hd : IsPart d) :
    fs.isDirAt (home ++ [d]) :=
  (isDirAt_iff _ _).mpr (h.dir d hd)

theorem linkAt?_contents (h : Building before fs root home c) {d : Name} (hd : IsPart d) (n : Name) :
    fs.linkAt? (home ++ [d] ++ [n]) = none := by
  rw [linkAt?, h.contents d hd]
  cases hc : c d n with
  | none => rfl
  | some e =>
    obtain ⟨mode, content, rfl⟩ := h.isFile d n e hc
    rfl

theorem linkAt?_rebuilt (h : Building before fs root home c) {u : Location}
    (hu : Rebuilt before root home u) : fs.linkAt? u = none := by
  rcases h.rebuilt u hu with he | he | ⟨d, n, hd, rfl⟩
  · rw [linkAt?, he]
  · rw [linkAt?, he]
  · exact h.linkAt?_contents hd n

theorem sameStart (h : Building before fs root home c) (hs : Source before root p)
    (hr : Reaches fs p k l) : p.isAbsolute = true ∨ SameStart before fs := by
  rcases h.start with hsame | ⟨hw, hlost⟩
  · exact .inr hsame
  · rcases hs.start with ha | hw' | hup
    · exact .inl ha
    · exact absurd (h.inside _ hw) hw'
    · exact .inl ((hr.not_lost hup).resolve_right (by omega))

theorem not_lost (h : Building before fs root home c) (hup : Step.up ∉ root.moves) :
    root.isAbsolute = true ∨ before.lostLevels = 0 := by
  obtain ⟨k, hr⟩ := h.reaches
  refine (hr.not_lost hup).imp_right fun hl => ?_
  rcases h.start with hs | ⟨_, hlost⟩
  · rw [← hs.2, hl]
  · omega

theorem trail_eq (h : Building before fs root home c) (hs : Source before root p)
    (hr : Reaches fs p k l) : fs.trail p = before.trail p := by
  apply trail_congr (h.sameStart hs hr)
  intro u hu
  by_cases hreb : Rebuilt before root home u
  · rw [h.linkAt?_rebuilt hreb, hs.links u hu (h.inside u hreb)]
  · rcases h.apart u hreb with he | ⟨hn, hd⟩
    · exact linkAt?_congr he
    · rw [linkAt?, linkAt?, hn, hd]

/-- A file to be copied is the one that was there before, and none of those copied so far. -/
theorem held_of_source (h : Building before fs root home c) (hs : Source before root p) {mode : Mode}
    {content : Bytes} (hf : fs.find .follow p = .ok (some l, .file mode content)) :
    ¬ Rebuilt before root home l ∧ Held before p (.file mode content) := by
  obtain ⟨_, ⟨k, hr⟩, he⟩ := find_follow_iff.mp hf
  have htrail := h.trail_eq hs hr
  have hdest : before.destination p = l := by rw [← destination_congr htrail, hr.destination_eq]
  have hout : ¬ Rebuilt before root home l := by
    intro hreb
    rcases h.rebuilt l hreb with hn | hd | ⟨d, n, hd, hl⟩
    · rw [hn] at he
      cases he
    · rw [hd] at he
      cases he
    · rw [← hdest] at hreb hl
      exact hs.place (h.inside _ hreb) home d n hd hl
  refine ⟨hout, ?_⟩
  rcases h.apart l hout with heq | ⟨_, hd⟩
  · exact (held_of_find hf (h.sameStart hs hr) htrail (by rw [← heq, he])).2
  · rw [hd] at he
    cases he

theorem reaches_part (h : Building before fs root home c) {s : String}
    (hs : IsEntryName (Utf8.encode s)) (hd : IsPart (Utf8.encode s)) :
    ∃ k, Reaches fs (root / s) k (home ++ [Utf8.encode s]) := by
  obtain ⟨k, hr⟩ := h.reaches
  have hne : fs.entry? (home ++ [Utf8.encode s]) ≠ none := by
    rw [h.dir _ hd]
    exact Option.some_ne_none _
  have hhome : fs.isDirAt home := isDirAt_of_below fs home _ [] hne
  have hlen : (Utf8.encode s).length ≤ maxNameLength := by
    rcases hd with hd | hd <;> rw [hd] <;> decide
  exact ⟨k, (reaches_entry_iff hs).mpr ⟨k, home, hr, hhome, .enter hhome hlen hne
    (linkAt?_of_isDirAt (h.isDirAt hd)) (.done _ _)⟩⟩

theorem put (h : Building before fs root home c) {d n : Name} (hd : IsPart d)
    (hw : Writable fs (home ++ [d] ++ [n])) (mode : Mode) (content : Bytes) :
    Building before (fs.put (home ++ [d] ++ [n]) (.file mode content)) root home
      (c.install d n (.file mode content)) := by
  have hput := hw.entry?_put mode content
  have hdir : ∀ u, fs.entry? u = some .dir → u ≠ home ++ [d] ++ [n] := by
    rintro u hu rfl
    rcases hw.entry? with he | ⟨m, c, he⟩ <;> rw [he] at hu <;> cases hu
  refine ⟨?_, ?_, ?_, ?_, ?_, ?_, h.part, h.inside, ?_⟩
  · obtain ⟨k, hr⟩ := h.reaches
    exact ⟨k, hr.mono (hw.keeps_put mode content) (.inr (sameStart_put ..))⟩
  · intro d' hd'
    rw [hput, if_neg (hdir _ (h.dir d' hd')), h.dir d' hd']
  · intro d' hd' n'
    rw [hput, Contents.install]
    by_cases heq : d' = d ∧ n' = n
    · rw [if_pos heq, heq.1, heq.2, if_pos rfl]
    · rw [if_neg heq, if_neg, h.contents d' hd']
      intro hl
      obtain ⟨hl, hn⟩ := List.append_inj' hl rfl
      exact heq ⟨(List.cons.inj (List.append_inj' hl rfl).2).1, (List.cons.inj hn).1⟩
  · intro d' n' e he
    rw [Contents.install] at he
    by_cases heq : d' = d ∧ n' = n
    · rw [if_pos heq] at he
      exact ⟨mode, content, (Option.some.inj he).symm⟩
    · rw [if_neg heq] at he
      exact h.isFile d' n' e he
  · intro u hu
    have hne : u ≠ home ++ [d] ++ [n] := by
      rintro rfl
      rcases h.part d hd with hp | hp
      · exact hu (.inl (hp.trans (List.prefix_append _ _)))
      · exact hu (.inr (hp.trans (List.prefix_append _ _)))
    rw [hput, if_neg hne]
    exact h.apart u hu
  · intro u hu
    rw [hput]
    by_cases heq : u = home ++ [d] ++ [n]
    · exact .inr (.inr ⟨d, n, hd, heq⟩)
    · rw [if_neg heq]
      exact h.rebuilt u hu
  · rcases h.start with hs | ⟨hw', hlost⟩
    · exact .inl (hs.trans (sameStart_put ..))
    · exact .inr ⟨hw', by rwa [lostLevels_put]⟩

theorem copy (h : Building before fs root home c) {part : String} {q src : Path} {n : Name}
    {rest : List Step} (hpart : IsEntryName (Utf8.encode part)) (hd : IsPart (Utf8.encode part))
    (hq : q.isAbsolute = false) (hsteps : q.steps = .name n :: rest)
    (hrest : c (Utf8.encode part) n = none ∨ rest = [])
    (hcopy : fs.copyFile src ((root / part).join q) = .ok fs') :
    ∃ e, rest = [] ∧ CopyOf before root src e ∧ Nameable ((root / part).join q) ∧
      n.length ≤ maxNameLength ∧
      Building before fs' root home (c.install (Utf8.encode part) n e) := by
  obtain ⟨s, mode, content, l, m, hf, ht, rfl⟩ := copyFile_spec hcopy
  obtain ⟨k, hr⟩ := h.reaches_part hpart hd
  obtain ⟨hnil, hlen, rfl⟩ := target_entry hr hq hsteps (h.linkAt?_contents hd n)
    (by rwa [h.contents _ hd]) ht
  obtain ⟨hw, hname, _⟩ := target_spec ht
  refine ⟨_, hnil, ⟨⟨_, _, rfl⟩, fun hs => ?_⟩, hname, hlen, h.put hd hw _ _⟩
  obtain ⟨hout, hheld⟩ := h.held_of_source hs hf
  -- What is copied is not the file that is written.
  have hne : s ≠ home ++ [Utf8.encode part] ++ [n] := by
    rintro rfl
    rcases h.part _ hd with hp | hp
    · exact hout (.inl (hp.trans (List.prefix_append _ _)))
    · exact hout (.inr (hp.trans (List.prefix_append _ _)))
  rwa [if_neg hne]

end Building

end Distribution

end LaunchDist
