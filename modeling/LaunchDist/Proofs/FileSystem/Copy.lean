import LaunchDist.Proofs.Action
import LaunchDist.Proofs.FileSystem.Files
/-!
# Copying one file

The source is opened and looked at before the destination is touched, so a copy that fails has changed
nothing. One that succeeds gives the destination what the source had, unless both paths lead to one
file: opening that file as the destination has emptied it before its content is read.
-/
namespace LaunchDist

namespace FileSystem

theorem eq_target_iff {fs : FileSystem} {p : Path} {l s : Location} {mode : Mode} {e : DirEntry}
    (h : fs.target p = .ok (l, mode)) (hs : fs.entry? s = some e) :
    s = l ↔ fs.find .follow p = .ok (some s, e) := by
  obtain ⟨hw, hn, _⟩ := target_spec h
  constructor
  · rintro rfl
    cases hloc : fs.locate .create p with
    | error failure => rw [target, hloc] at h; cases h
    | ok spot =>
      rcases origin?_of_locate (by decide) hloc with ⟨start, steps, ho, hx⟩ | ⟨rfl, _⟩
      · cases spot with
        | removed => rw [target, hloc] at h; cases h
        | vacant v n =>
          rw [target, hloc] at h
          cases h
          obtain ⟨hfree, _⟩ := leads_of_vacant hx
          rw [hfree.entry?] at hs
          cases hs
        | found v =>
          obtain rfl := eq_of_target_found hloc h
          obtain ⟨k, hk⟩ := leads_of_found (.inr (.inl rfl)) hx
          exact find_follow_iff.mpr ⟨hn, ⟨k, start, steps, ho, hk⟩, hs⟩
      · rw [target, hloc] at h
        cases h
  · intro hf
    -- What has been written there is found there, and the path has led there all along.
    obtain ⟨_, ⟨k, hr⟩, _⟩ := find_follow_iff.mp hf
    obtain ⟨_, ⟨k', hr'⟩, _⟩ := find_follow_iff.mp (find_put_target h mode [])
    exact ((hr.mono (hw.keeps_put mode []) (.inr (sameStart_put fs l _))).unique hr').2

theorem find_source_of_copyFile {fs fs' : FileSystem} {source dest : Path}
    (h : fs.copyFile source dest = .ok fs') :
    ∃ l mode content, fs'.find .follow source = .ok (some l, .file mode content) := by
  obtain ⟨s, mode, content, l, m, hs, ht, rfl⟩ := copyFile_spec h
  obtain ⟨hn, ⟨k, hr⟩, he⟩ := find_follow_iff.mp hs
  have hw := (target_spec ht).1
  have hr' := hr.mono (hw.keeps_put mode (if s = l then [] else content))
    (.inr (sameStart_put fs l _))
  by_cases hsl : s = l
  · subst hsl
    exact ⟨_, _, _, find_follow_iff.mpr ⟨hn, ⟨k, hr'⟩, hw.entry?_put_self _ _⟩⟩
  · exact ⟨_, _, _, find_follow_iff.mpr ⟨hn, ⟨k, hr'⟩, by rw [hw.entry?_put, if_neg hsl, he]⟩⟩

theorem find_error_of_stat {fs : FileSystem} {p : Path} {e : FileFailure}
    (h : fs.stat p = .error e) : fs.find .follow p = .error e := by
  rw [stat] at h
  cases hf : fs.find .follow p with
  | error e' =>
    rw [hf] at h
    cases h
    rfl
  | ok found =>
    rw [hf] at h
    cases h

end FileSystem

namespace Action

open FileSystem

variable {w w' : Workspace} {source dest : Path}

/-- What a copy that succeeds has done: the destination leads to a file with the content and the
permission bits that the source had, but without content if it led to the source's own file before, and
nothing else has changed. -/
structure Copied (source dest : Path) (w w' : Workspace) : Prop where
  files : ∃ s mode content l, w.files.find .follow source = .ok (some s, .file mode content) ∧
    (w.files.find .follow dest ≠ w.files.find .follow source →
      w'.files.find .follow dest = .ok (some l, .file mode content)) ∧
    (w.files.find .follow dest = w.files.find .follow source →
      w'.files.find .follow dest = .ok (some l, .file mode [])) ∧
    ∀ v, v ≠ l → w'.files.entry? v = w.files.entry? v
  log : w'.log = w.log ++ [.copiedFile source dest]

theorem copied_of_ok {u : Unit} (h : copyFile source dest w = .ok u w') : Copied source dest w w' := by
  obtain ⟨files, hcopy, rfl⟩ := copyFile_ok h
  obtain ⟨s, mode, content, l, m, hs, ht, rfl⟩ := copyFile_spec hcopy
  obtain ⟨_, _, he⟩ := find_follow_iff.mp hs
  have hsame := eq_target_iff ht he
  refine ⟨⟨s, mode, content, l, hs, fun hne => ?_, fun heq => ?_, fun v hv => ?_⟩, rfl⟩
  · rw [hs] at hne
    rw [if_neg (mt hsame.mp hne)]
    exact find_put_target ht mode content
  · rw [hs] at heq
    rw [if_pos (hsame.mpr heq)]
    exact find_put_target ht mode []
  · exact ((target_spec ht).1.entry?_put _ _ v).trans (if_neg hv)

/-- A copy that fails names the source if no regular file is found there, else the destination. -/
theorem failure_of_copyFile {failure : Failure} (h : copyFile source dest w = .error failure w') :
    match w.files.stat source with
    | .error e => failure = .io source e
    | .ok (.file _ _) => ∃ e, failure = .io dest e
    | .ok .socket => failure = .io source (.system .noDeviceOrAddress)
    | .ok _ => failure = .io source .notRegular := by
  obtain ⟨_, e, rfl, hcopy⟩ := copyFile_error h
  rw [FileSystem.copyFile] at hcopy
  cases hstat : w.files.stat source with
  | error e' =>
    rw [find_error_of_stat hstat] at hcopy
    cases hcopy
    rfl
  | ok entry =>
    cases entry with
    | file mode content =>
      obtain ⟨l, hs⟩ := find_of_stat_file hstat
      cases ht : w.files.target dest with
      | error e' =>
        simp only [hs, ht] at hcopy
        cases hcopy
        exact ⟨e', rfl⟩
      | ok t =>
        simp only [hs, ht] at hcopy
        cases hcopy
    | link _ | socket | dir =>
      obtain ⟨l?, hs⟩ := find_of_stat hstat
      rw [hs] at hcopy
      cases l? <;> (cases hcopy; rfl)

/-- A copy ends in one of two ways: it gives the destination what the source had, unless both were the
same file, which is then empty, or it fails for one of its two paths and has changed nothing. -/
theorem copyFile_outcome (source dest : Path) (w : Workspace) :
    (∀ u w', copyFile source dest w = .ok u w' → Copied source dest w w') ∧
      ∀ failure w', copyFile source dest w = .error failure w' → w' = w ∧
        match w.files.stat source with
        | .error e => failure = .io source e
        | .ok (.file _ _) => ∃ e, failure = .io dest e
        | .ok .socket => failure = .io source (.system .noDeviceOrAddress)
        | .ok _ => failure = .io source .notRegular :=
  ⟨fun _ _ h => copied_of_ok h, fun _ _ h => ⟨(copyFile_error h).1, failure_of_copyFile h⟩⟩

/-- Some text, and a link to it. -/
def writtenFiles : FileSystem where
  children := [
    (Utf8.encode "text", .file 0o640 (Utf8.encode "written")),
    (Utf8.encode "link", .link (Path.ofString "text"))]
  workingDir := []

theorem copyFile_outcome_writtenFiles :
    ∃ w', copyFile (Path.ofString "link") (Path.ofString "new") ⟨writtenFiles, []⟩ = .ok () w' ∧
      Copied (Path.ofString "link") (Path.ofString "new") ⟨writtenFiles, []⟩ w' := by
  obtain ⟨_, w', h⟩ := exists_of_succeeds
    (r := copyFile (Path.ofString "link") (Path.ofString "new") ⟨writtenFiles, []⟩)
    (by decide +kernel)
  exact ⟨w', h, (copyFile_outcome _ _ _).1 _ _ h⟩

/-- A file that is copied to itself, here through a link, is lost. -/
theorem copyFile_to_itself_empties :
    writtenFiles.read (Path.ofString "text") = .ok (Utf8.encode "written") ∧
      ∃ w', copyFile (Path.ofString "text") (Path.ofString "link") ⟨writtenFiles, []⟩ = .ok () w' ∧
        w'.files.read (Path.ofString "text") = .ok [] := by
  refine ⟨by decide +kernel, ?_⟩
  have hends : endsIn (fun w' => w'.files.read (Path.ofString "text") = .ok [])
      (copyFile (Path.ofString "text") (Path.ofString "link") ⟨writtenFiles, []⟩) = true := by
    decide +kernel
  obtain ⟨_, w', h, htest⟩ := exists_of_endsIn hends
  exact ⟨w', h, of_decide_eq_true htest⟩

end Action

end LaunchDist
