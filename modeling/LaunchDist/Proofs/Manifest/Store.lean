import LaunchDist.Manifest.File
import LaunchDist.Proofs.Action
import LaunchDist.Proofs.FileSystem.Files
import LaunchDist.Proofs.Manifest.RoundTrip
import LaunchDist.Proofs.Text
/-!
# Stored manifests

A manifest that has been written to its place is read from there as it was written.
-/
namespace LaunchDist.Manifest

open FileSystem

theorem store_ok {m : Manifest} {layout : BuildLayout} {w w' : Workspace} {p : Path}
    (h : m.store layout w = .ok p w') :
    p = layout.manifestPath ∧ ∃ made l mode, makeDirs layout.manifestDir w.files = .ok () made ∧
      made.target layout.manifestPath = .ok (l, mode) ∧
      w'.files = made.put l (.file mode (Utf8.encode m.render)) := by
  rw [store, Action.bind_ok_iff] at h
  obtain ⟨_, w1, hmake, h⟩ := h
  obtain ⟨made, hdirs, rfl⟩ := Action.changeAt_ok_iff.mp hmake
  obtain ⟨_, w2, hwrite, h⟩ := Action.bind_ok_iff.mp h
  obtain ⟨files, hput, rfl⟩ := Action.changeAt_ok_iff.mp hwrite
  obtain ⟨_, w3, hreport, h⟩ := Action.bind_ok_iff.mp h
  rw [Action.report_ok_iff] at hreport
  obtain ⟨rfl, rfl⟩ := Action.pure_ok_iff.mp h
  obtain ⟨l, mode, ht, rfl⟩ := write_spec (Action.atomic_ok_iff.mp hput)
  exact ⟨rfl, made, l, mode, hdirs, ht, by rw [hreport]⟩

/-- A writing that fails has at most made the directory of the manifest. -/
theorem store_error {m : Manifest} {layout : BuildLayout} {w w' : Workspace} {failure : Failure}
    (h : m.store layout w = .error failure w') :
    (∃ p e, failure = .io p e) ∧
      w'.files = Action.stateAfter (makeDirs layout.manifestDir w.files) := by
  rw [store, Action.bind_error_iff] at h
  rcases h with hmake | ⟨_, w1, hmake, h⟩
  · obtain ⟨e, files, rfl, hdirs, rfl⟩ := Action.changeAt_error hmake
    exact ⟨⟨_, e, rfl⟩, by rw [hdirs]; rfl⟩
  obtain ⟨made, hdirs, rfl⟩ := Action.changeAt_ok_iff.mp hmake
  rcases Action.bind_error_iff.mp h with hwrite | ⟨_, w2, _, h⟩
  · obtain ⟨e, files, rfl, hput, rfl⟩ := Action.changeAt_error hwrite
    refine ⟨⟨_, e, rfl⟩, ?_⟩
    rw [hdirs]
    exact Action.atomic_error hput
  · rcases Action.bind_error_iff.mp h with hreport | ⟨_, _, _, h⟩
    · exact absurd hreport Action.report_ne_error
    · exact absurd h Action.pure_ne_error

theorem atPath_of_readText {fs : FileSystem} {p : Path} {text : String} (h : fs.readText p = .ok text) :
    atPath fs p = (parse text).mapError (.manifestParse p) := by
  rw [atPath, h]

/-- Which manifest is at a path depends on the content of the file there alone. -/
theorem atPath_ok_iff {m : Manifest} {fs : FileSystem} {p : Path} :
    atPath fs p = .ok m ↔ ∃ mode content text, fs.stat p = .ok (.file mode content) ∧
      Utf8.decode? content = some text ∧ parse text = .ok m := by
  rw [atPath, readText, FileSystem.read]
  cases hs : fs.stat p with
  | error failure => simp
  | ok e =>
    cases e with
    | link target => simp
    | socket => simp
    | dir => simp
    | file mode content =>
      cases hd : Utf8.decode? content with
      | none => simp [hd]
      | some text =>
        simp only [hd]
        constructor
        · intro h
          refine ⟨mode, content, text, rfl, hd, ?_⟩
          cases hp : parse text with
          | error fault => rw [hp] at h; cases h
          | ok m' => rw [hp] at h; cases h; rfl
        · rintro ⟨mode', content', text', heq, hd', hp⟩
          cases heq
          rw [hd] at hd'
          cases hd'
          rw [hp]
          rfl

theorem atPath_of_find {m : Manifest} {fs : FileSystem} {p : Path} {l : Location} {mode : Mode}
    (h : fs.find .follow p = .ok (some l, .file mode (Utf8.encode m.render))) :
    atPath fs p = .ok m :=
  atPath_ok_iff.mpr ⟨mode, _, m.render, stat_of_find h, Utf8.decode?_encode _, parse_render m⟩

theorem isFile_of_atPath {m : Manifest} {fs : FileSystem} {p : Path} (h : atPath fs p = .ok m) :
    fs.isFile p := by
  obtain ⟨_, _, _, hs, _⟩ := atPath_ok_iff.mp h
  rw [isFile, hs]

theorem load_ok_iff {m : Manifest} {w w' : Workspace} {p : Path} :
    load p w = .ok m w' ↔
      atPath w.files p = .ok m ∧ w' = { w with log := w.log ++ [.readManifest p] } := by
  rw [load, Action.bind_ok_iff]
  constructor
  · rintro ⟨m', w1, hq, h⟩
    obtain ⟨hq, rfl⟩ := Action.query_ok_iff.mp hq
    obtain ⟨_, w2, hreport, h⟩ := Action.bind_ok_iff.mp h
    obtain ⟨rfl, rfl⟩ := Action.pure_ok_iff.mp h
    exact ⟨hq, Action.report_ok_iff.mp hreport⟩
  · rintro ⟨hm, rfl⟩
    refine ⟨m, w, Action.query_ok_iff.mpr ⟨hm, rfl⟩, ?_⟩
    rw [Action.bind_ok_iff]
    exact ⟨(), _, Action.report_ok_iff.mpr rfl, rfl⟩

theorem load_error {failure : Failure} {w w' : Workspace} {p : Path}
    (h : load p w = .error failure w') : atPath w.files p = .error failure ∧ w' = w := by
  rw [load, Action.bind_error_iff] at h
  rcases h with hq | ⟨m, w1, _, h⟩
  · exact Action.query_error_iff.mp hq
  · rcases Action.bind_error_iff.mp h with hreport | ⟨_, w2, _, h⟩
    · exact absurd hreport Action.report_ne_error
    · exact absurd h Action.pure_ne_error

theorem load_of_atPath_error {failure : Failure} {w : Workspace} {p : Path}
    (h : atPath w.files p = .error failure) : load p w = .error failure w := by
  rw [load, Action.bind_error_iff]
  exact .inl (Action.query_error_iff.mpr ⟨h, rfl⟩)

/-- Whatever a manifest holds, it is read back as it was written: the text that it is rendered as,
which belongs to no other manifest, and the file that it is stored in, wherever its path leads. -/
theorem load_store :
    (∀ m : Manifest, parse m.render = .ok m) ∧ Function.Injective render ∧
    ∀ (m : Manifest) (layout : BuildLayout) (w w' : Workspace) (p : Path),
      m.store layout w = .ok p w' →
      load p w' = .ok m { w' with log := w'.log ++ [.readManifest p] } := by
  refine ⟨parse_render, render_injective, ?_⟩
  intro m layout w w' p h
  obtain ⟨rfl, made, l, mode, _, ht, hfiles⟩ := store_ok h
  refine load_ok_iff.mpr ⟨?_, rfl⟩
  rw [hfiles]
  exact atPath_of_find (find_put_target ht _ _)

private def sample : Manifest :=
  ⟨"java", "a\"b\\c\n\x7f😀", 21, ["../lib/a b.jar", "", "é"]⟩

theorem load_store_sample :
    (∃ p w', sample.store ⟨Path.ofString "/build"⟩ ⟨⟨[], [], 0⟩, []⟩ = .ok p w') ∧
    ∀ p w', sample.store ⟨Path.ofString "/build"⟩ ⟨⟨[], [], 0⟩, []⟩ = .ok p w' →
      load p w' = .ok sample { w' with log := w'.log ++ [.readManifest p] } := by
  exact ⟨Action.exists_of_succeeds (by decide +kernel),
    fun p w' h => load_store.2.2 sample _ _ w' p h⟩

end LaunchDist.Manifest
