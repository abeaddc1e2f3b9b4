import LaunchDist.Proofs.FileSystem.Reach
import LaunchDist.Proofs.Path.Text
import LaunchDist.Request
/-!
# Program names

A program name is accepted as a path with one normal component. Separators and dots behind that
component do not count, so besides plain file names those are accepted that end in them.
-/
namespace LaunchDist

open LaunchDist.Path (IsFileName isEntryName_encode_iff)

namespace ProgramName

/-- Whether a text is another one with slashes behind it, after which there may be dots. -/
def TrailsOff (plain name : String) : Prop :=
  ∃ more, (∀ part ∈ more, part = "" ∨ part = ".") ∧ name = "/".intercalate (plain :: more)

theorem components_of_trailsOff {plain name : String} (hplain : IsFileName plain)
    (h : TrailsOff plain name) :
    (Path.ofString name).isAbsolute = false ∧
      (Path.ofString name).components = [.name (Utf8.encode plain)] := by
  obtain ⟨more, hmore, rfl⟩ := h
  have hparts : ∀ part ∈ plain :: more, '/' ∉ part.toList := by
    intro part hpart
    rcases List.mem_cons.mp hpart with rfl | hpart
    · exact hplain.slash_notMem
    · rcases hmore part hpart with rfl | rfl <;> decide
  refine (Path.components_eq_name_iff _ _).mpr ⟨(isEntryName_encode_iff plain).mpr hplain,
    more.map Utf8.encode, Path.segments_intercalate (List.cons_ne_nil _ _) hparts, fun segment h => ?_⟩
  obtain ⟨part, hpart, rfl⟩ := List.mem_map.mp h
  rcases hmore part hpart with rfl | rfl
  · exact .inl rfl
  · exact .inr rfl

theorem exists_trailsOff {name : String} {n : Name} (ha : (Path.ofString name).isAbsolute = false)
    (hc : (Path.ofString name).components = [.name n]) :
    ∃ plain, IsFileName plain ∧ TrailsOff plain name := by
  obtain ⟨hn, rest, hseg, hrest⟩ := (Path.components_eq_name_iff _ n).mp ⟨ha, hc⟩
  obtain ⟨parts, hne, hparts, rfl⟩ := Path.exists_intercalate name
  rw [Path.segments_intercalate hne hparts] at hseg
  obtain ⟨plain, more, rfl⟩ := List.exists_cons_of_ne_nil hne
  obtain ⟨rfl, rfl⟩ := List.cons.inj hseg
  refine ⟨plain, (isEntryName_encode_iff plain).mp hn, more, fun part hpart => ?_, rfl⟩
  rcases hrest _ (List.mem_map_of_mem hpart) with hempty | hdot
  · exact .inl ((Utf8.encode_eq_nil_iff part).mp hempty)
  · exact .inr (Utf8.encode_injective hdot)

theorem isPlain_iff (name : String) :
    isPlain (Path.ofString name) = true ↔ ∃ plain, IsFileName plain ∧ TrailsOff plain name := by
  constructor
  · intro h
    unfold isPlain at h
    split at h
    · rename_i ha hc
      exact exists_trailsOff ha hc
    · cases h
  · rintro ⟨plain, hplain, h⟩
    obtain ⟨ha, hc⟩ := components_of_trailsOff hplain h
    rw [isPlain, ha, hc]

theorem validate_eq_ok_iff (name : String) :
    validate name = .ok () ↔ Text.IsTrimmed name ∧ name ≠ Manifest.fileName ∧
      ∃ plain, IsFileName plain ∧ TrailsOff plain name := by
  rw [← isPlain_iff, ← Text.trim_eq_self_iff]
  unfold validate
  dsimp only
  constructor
  · intro h
    split_ifs at h with _ htrim hplain hmanifest
    rw [Bool.not_eq_true', Bool.not_eq_false] at hplain
    exact ⟨not_not.mp htrim, hmanifest, hplain⟩
  · rintro ⟨htrim, hmanifest, hplain⟩
    have hne : name ≠ "" := by
      rintro rfl
      cases hplain
    rw [htrim, if_neg hne, if_neg (fun h => h rfl), if_neg (by simp [hplain]), if_neg hmanifest]

section Leads

open FileSystem
open LaunchDist.Path (Step)

variable {fs : FileSystem} {p : Path} {plain name : String} {k k' : Nat} {v w : Location}

private theorem leads_stays {rest : List Step} (hrest : ∀ s ∈ rest, s = .here ∨ s = .slash) :
    Leads fs k v rest k' w ↔ k' = k ∧ w = v ∧ (rest = [] ∨ fs.isDirAt v) := by
  induction rest with
  | nil =>
    constructor
    · intro h
      cases h
      exact ⟨rfl, rfl, .inl rfl⟩
    · rintro ⟨rfl, rfl, _⟩
      exact .done k' w
  | cons s rest ih =>
    have hs := hrest s List.mem_cons_self
    have ih := ih fun t ht => hrest t (List.mem_cons_of_mem _ ht)
    constructor
    · intro h
      cases h with
      | stay _ hd h =>
        obtain ⟨rfl, rfl, _⟩ := ih.mp h
        exact ⟨rfl, rfl, .inr hd⟩
      | up | enter | follow => rcases hs with hs | hs <;> cases hs
    · rintro ⟨rfl, rfl, hd⟩
      have hd := hd.resolve_left (List.cons_ne_nil _ _)
      exact .stay hs hd (ih.mpr ⟨rfl, rfl, .inr hd⟩)

/-- A name with slashes behind a file name leads where the file name does, but to a directory only. -/
theorem reaches_trailsOff_iff (hplain : IsFileName plain) (h : TrailsOff plain name) :
    Reaches fs (p / name) k v ↔ Reaches fs (p / plain) k v ∧ (name = plain ∨ fs.isDirAt v) := by
  obtain ⟨ha, hc⟩ := components_of_trailsOff hplain h
  have hn : Path.IsEntryName (Utf8.encode plain) := (isEntryName_encode_iff plain).mpr hplain
  obtain ⟨rest, hsteps, hrest⟩ := Path.steps_of_components_eq _ _ ha hc
  have hsame : rest = [] ↔ name = plain := by
    constructor
    · rintro rfl
      exact Utf8.encode_injective (Path.isEntryName_of_steps _ _ ha hsteps).1
    · rintro rfl
      rw [Path.ofString, hn.steps] at hsteps
      exact (List.cons.inj hsteps).2.symm
  have hmoves : (Path.ofString name).moves ≠ [] := by
    intro hnil
    have hnames := Path.namesOf_components (Path.ofString name)
    rw [hc, hnil] at hnames
    cases hnames
  have hjoin : Reaches fs (p / name) k v ↔
      fs.ReachesAlong p.isAbsolute (p.moves ++ .name (Utf8.encode plain) :: rest) k v := by
    rw [Reaches, show p / name = p.join (Path.ofString name) from rfl, Path.isAbsolute_join _ _ ha,
      Path.steps_join _ _ ha hmoves, hsteps]
  rw [hjoin, reaches_entry_iff hn, ← hsame]
  constructor
  · intro h
    obtain ⟨k1, u, hx, hl⟩ := h.split fun _ => rfl
    have hu : fs.isDirAt u := hl.isDirAt_of_name
    obtain ⟨k2, u', hname, hstay⟩ := Leads.split [.name (Utf8.encode plain)] rest hl
    obtain ⟨rfl, rfl, hdir⟩ := (leads_stays hrest).mp hstay
    exact ⟨⟨k1, u, (reaches_iff_moves hu).mpr hx, hu, hname⟩, hdir⟩
  · rintro ⟨⟨k1, u, hx, hu, hname⟩, hdir⟩
    exact ((reaches_iff_moves hu).mp hx).append
      (hname.append ((leads_stays hrest).mpr ⟨rfl, rfl, hdir⟩))

end Leads

/-- A program name is accepted if it is a file name other than that of the manifest without blanks at its
ends, or such a name with slashes behind it, between which there may be dots. It leads to the entry that
the file name leads to, but with slashes only if that is a directory. -/
theorem validate_spec (name : String) :
    (validate name = .ok () ↔ Text.IsTrimmed name ∧ name ≠ Manifest.fileName ∧
      ∃ plain, IsFileName plain ∧ TrailsOff plain name) ∧
    ∀ plain, IsFileName plain → TrailsOff plain name →
      ∀ (fs : FileSystem) (bin : Path) k v, fs.Reaches (bin / name) k v ↔
        fs.Reaches (bin / plain) k v ∧ (name = plain ∨ fs.isDirAt v) :=
  ⟨validate_eq_ok_iff name, fun _ hplain h _ _ _ _ => reaches_trailsOff_iff hplain h⟩

/-- Names with slashes at the end are accepted, among them one that leads to the manifest. -/
theorem validate_accepts_slashes :
    validate "app/" = .ok () ∧ '/' ∈ "app/".toList ∧
      validate "my-java-launcher.json/." = .ok () ∧
      TrailsOff Manifest.fileName "my-java-launcher.json/." := by
  refine ⟨by decide, by decide, by decide, ["."], by simp, by decide⟩

end ProgramName

end LaunchDist
