import LaunchDist.Proofs.Manifest.Rules
import LaunchDist.Proofs.Path.Text
/-!
# Where class path entries lead

A valid manifest lists what is right in the directory `lib` next to that of the launcher. Of the texts
that are no file names, a dot and two dots are let through as well: they lead to `lib` itself and to its
parent.
-/
namespace LaunchDist

open FileSystem
open LaunchDist.Path (Step IsFileName isEntryName_encode_iff)

namespace Manifest

/-- A class path entry is the library root with a text behind it that has no slash of either kind. -/
theorem isLibraryEntry_iff (entry : String) :
    isLibraryEntry entry = true ↔ ∃ name, entry = libraryRoot ++ name ∧ '\\' ∉ name.toList ∧
      (IsFileName name ∨ name = "." ∨ name = "..") := by
  have hentry : ∀ name, isLibraryEntry (libraryRoot ++ name) = true ↔
      name ≠ "" ∧ '/' ∉ name.toList ∧ '\\' ∉ name.toList := by
    intro name
    rw [isLibraryEntry, libraryName_append]
    simp [and_assoc]
  constructor
  · intro h
    obtain ⟨name, rfl, _⟩ := exists_of_isLibraryEntry h
    obtain ⟨hne, hslash, hback⟩ := (hentry name).mp h
    refine ⟨name, rfl, hback, ?_⟩
    by_cases hdot : name = "."
    · exact .inr (.inl hdot)
    · by_cases hdots : name = ".."
      · exact .inr (.inr hdots)
      · exact .inl ⟨hne, hdot, hdots, hslash⟩
  · rintro ⟨name, rfl, hback, hname | rfl | rfl⟩
    · exact (hentry name).mpr ⟨hname.ne_empty, hname.slash_notMem, hback⟩
    · decide
    · decide

/-- Where a text that a class path entry has behind the library root leads to from there, if that is no
link. -/
def libraryEnd (lib : Location) (name : String) : Location :=
  if name = "." then lib else if name = ".." then lib.dropLast else lib ++ [Utf8.encode name]

section Leads

variable {fs : FileSystem} {bin : Path} {name : String} {k k' : Nat} {lib l : Location}

theorem leads_from_lib (hsep : Path.separator ∉ Utf8.encode name) (hne : Utf8.encode name ≠ [])
    (hlib : Reaches fs (bin / "../lib") k lib) (h : Reaches fs (bin / (libraryRoot ++ name)) k' l) :
    ∃ s, (Path.ofString name).steps = [s] ∧ Leads fs k lib [s] k' l := by
  obtain ⟨habs, hmoves, s, hs, hsteps⟩ := steps_library hsep hne
  refine ⟨s, hs, ?_⟩
  have hroot : (Path.ofString "../lib").steps = [.up, .name (Utf8.encode "lib")] := by decide
  rw [Reaches, show bin / "../lib" = bin.join (Path.ofString "../lib") from rfl,
    Path.isAbsolute_join _ _ (by decide), Path.steps_join _ _ (by decide) (by decide), hroot,
    List.append_cons] at hlib
  rw [Reaches, show bin / (libraryRoot ++ name) = bin.join (Path.ofString (libraryRoot ++ name)) from rfl,
    Path.isAbsolute_join _ _ habs, Path.steps_join _ _ habs hmoves, hsteps, List.append_cons] at h
  obtain ⟨k1, v, hx, hl⟩ := h.split fun _ => rfl
  obtain ⟨k2, w, hname, hlast⟩ := Leads.split [.name (Utf8.encode "lib")] [s] hl
  obtain ⟨_, _, ho, hway⟩ := hx.append hname
  obtain ⟨_, _, ho', hway'⟩ := hlib
  rw [ho] at ho'
  cases ho'
  obtain ⟨rfl, rfl⟩ := hway'.unique hway
  exact hlast

theorem eq_libraryEnd (hname : IsFileName name ∨ name = "." ∨ name = "..")
    (hlib : Reaches fs (bin / "../lib") k lib) (hlink : fs.linkAt? (lib ++ [Utf8.encode name]) = none)
    (h : Reaches fs (bin / (libraryRoot ++ name)) k' l) : l = libraryEnd lib name := by
  have hslash : Path.separator ∉ Utf8.encode name ∧ Utf8.encode name ≠ [] := by
    rcases hname with hname | rfl | rfl
    · have hn := (isEntryName_encode_iff name).mpr hname
      exact ⟨hn.1, hn.ne_nil⟩
    · decide
    · decide
  obtain ⟨s, hs, hlast⟩ := leads_from_lib hslash.1 hslash.2 hlib h
  rw [libraryEnd]
  rcases hname with hname | rfl | rfl
  · have hn : (Path.ofString name).steps = [.name (Utf8.encode name)] :=
      ((isEntryName_encode_iff name).mpr hname).steps
    rw [hn] at hs
    obtain rfl := (List.cons.inj hs).1
    rw [if_neg hname.ne_dot, if_neg hname.ne_dots]
    exact (hlast.eq_of_name hlink).2
  · have hdot : (Path.ofString ".").steps = [.here] := by decide
    rw [hdot] at hs
    obtain rfl := (List.cons.inj hs).1
    cases hlast with
    | stay _ _ hdone =>
      cases hdone
      rfl
  · have hdots : (Path.ofString "..").steps = [.up] := by decide
    rw [hdots] at hs
    obtain rfl := (List.cons.inj hs).1
    cases hlast with
    | stay hstay => rcases hstay with hstay | hstay <;> cases hstay
    | up _ hdone =>
      cases hdone
      rfl

end Leads

/-- A valid manifest has class path entries, and each of them is the library root with a file name behind
it, or with one or two dots. From the directory of the launcher it leads to an entry of the `lib` next to
it, or else to `lib` or its parent, unless a link stands in the place of the entry. -/
theorem classpath_of_validate (m : Manifest) (h : m.validate = .ok ()) :
    m.classpath ≠ [] ∧ ∀ entry ∈ m.classpath, ∃ name, entry = libraryRoot ++ name ∧
      '\\' ∉ name.toList ∧ (IsFileName name ∨ name = "." ∨ name = "..") ∧
      ∀ (fs : FileSystem) (bin : Path) k lib k' l, fs.Reaches (bin / "../lib") k lib →
        fs.linkAt? (lib ++ [Utf8.encode name]) = none → fs.Reaches (bin / entry) k' l →
        l = libraryEnd lib name := by
  refine ⟨classpath_ne_nil_of_validate h, fun entry he => ?_⟩
  obtain ⟨name, rfl, hback, hname⟩ :=
    (isLibraryEntry_iff entry).mp (isLibraryEntry_of_validate h entry he)
  exact ⟨name, rfl, hback, hname, fun _ _ _ _ _ _ hlib hlink hl => eq_libraryEnd hname hlib hlink hl⟩

/-- A manifest that lists a file in `lib`, then `lib` itself and its parent. -/
def dottedManifest : Manifest where
  programType := "java"
  entrypoint := "Main"
  javaVersion := 21
  classpath := ["../lib/app.jar", "../lib/.", "../lib/.."]

theorem classpath_of_validate_dottedManifest :
    dottedManifest.validate = .ok () ∧ ∃ name, "../lib/app.jar" = libraryRoot ++ name ∧
      (IsFileName name ∨ name = "." ∨ name = "..") := by
  have h : dottedManifest.validate = .ok () := by decide
  obtain ⟨_, hentries⟩ := classpath_of_validate dottedManifest h
  obtain ⟨name, hentry, _, hname, _⟩ := hentries "../lib/app.jar" (by decide)
  exact ⟨h, name, hentry, hname⟩

/-- Two dots behind the library root are let through. -/
theorem validate_accepts_dots :
    dottedManifest.validate = .ok () ∧ "../lib/.." ∈ dottedManifest.classpath ∧
      (Path.ofString "../lib/..").steps = [.up, .name (Utf8.encode "lib"), .up] := by
  refine ⟨by decide, by decide, by decide⟩

end Manifest

end LaunchDist
