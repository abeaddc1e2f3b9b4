import LaunchDist.Proofs.Manifest.Store
/-!
# Reading manifests from files

A file that holds an object is read if the object describes a manifest, and as that manifest. A file
that holds any other object is refused for what is in it.
-/
namespace LaunchDist.Manifest

open FileSystem Json

section Text

variable {p : Path} {text : String}

theorem load_ok_iff_parse {m : Manifest} {w : Workspace} (h : w.files.readText p = .ok text) :
    (∃ w', load p w = .ok m w') ↔ parse text = .ok m := by
  have hat := atPath_of_readText h
  constructor
  · rintro ⟨w', hload⟩
    have hm := (load_ok_iff.mp hload).1
    rw [hat] at hm
    cases hp : parse text with
    | error fault =>
      rw [hp] at hm
      cases hm
    | ok m' =>
      rw [hp] at hm
      cases hm
      rfl
  · intro hm
    rw [hm] at hat
    exact ⟨_, load_ok_iff.mpr ⟨hat, rfl⟩⟩

theorem load_of_parse_error {fault : PlacedFault} {w : Workspace}
    (h : w.files.readText p = .ok text) (hp : parse text = .error fault) :
    load p w = .error (.manifestParse p fault) w := by
  apply load_of_atPath_error
  rw [atPath_of_readText h, hp]
  rfl

end Text

/-- An object in a file is read as the manifest that it describes, wherever its members stand, however
they are written and whatever others are among them. Just if it describes none, it is refused for what
is in the file, and nothing changes. -/
theorem load_object {w : Workspace} {p : Path} {text : String} {ms : List (String × Value)}
    (htext : w.files.readText p = .ok text) (h : Written (.element (.object ms)) text.toList)
    (hjava : ∀ v, ("java_configuration", v) ∈ ms → ∃ inner, v = .object inner) :
    (∀ m, (∃ w', load p w = .ok m w') ↔ Describes ms m) ∧
      ((∃ fault, load p w = .error (.manifestParse p fault) w) ↔ ¬ ∃ m, Describes ms m) := by
  have hread : ∀ m, (∃ w', load p w = .ok m w') ↔ Describes ms m := by
    intro m
    rw [load_ok_iff_parse htext, parse_written_iff h hjava]
  refine ⟨hread, ?_⟩
  constructor
  · rintro ⟨fault, herror⟩ ⟨m, hm⟩
    obtain ⟨w', hload⟩ := (hread m).mpr hm
    rw [herror] at hload
    cases hload
  · intro hnone
    cases hp : parse text with
    | error fault => exact ⟨fault, load_of_parse_error htext hp⟩
    | ok m => exact absurd ⟨m, (parse_written_iff h hjava m).mp hp⟩ hnone

private def scatteredJava : List (String × Value) :=
  [("classpath", .list [.text "b", .text "a"]), ("x", .boolean true),
    ("java_version", .number (.natural 21))]

/-- The members of a manifest in another order, and with others among them. -/
private def scattered : List (String × Value) :=
  [("x", .list [.object [], .null]), ("program_type", .text "java"),
    ("java_configuration", .object scatteredJava), ("entrypoint", .text "m")]

/-- The scattered members on lines of their own, one with an escape in its key. -/
private def scatteredText : String :=
  "\x7b\"x\":[\x7b\x7d, null],
    \"\\u0070rogram_type\":\"java\",
    \"java_configuration\":\x7b\"classpath\":[\"b\",\"a\"],\"x\":true,\"java_version\":21\x7d,
    \"entrypoint\":\"m\"\x7d"

private theorem written_scattered : Written (.element (.object scattered)) scatteredText.toList := by
  have nil : Blank [] := fun _ hc => nomatch hc
  have space : Blank [' '] := fun c hc => .inl (List.mem_singleton.mp hc)
  have line : Blank ['\n', ' ', ' ', ' ', ' '] := by simp [Blank]
  have element : ∀ {v cs}, Written (.value v) cs → Written (.element v) ([] ++ (cs ++ [])) :=
    fun h => .element nil h nil
  have text : ∀ s, Written (.element (.text s)) ([] ++ (quoted s ++ [])) :=
    fun s => element (.text (quotes_quoted s))
  have member : ∀ {before} key {v cs}, Blank before → Written (.element v) cs →
      Written (.member key v) (before ++ (quoted key ++ ([] ++ ':' :: cs))) :=
    fun key _ _ hbefore h => .member hbefore (quotes_quoted key) nil h
  have hspells : SpellsAll "program_type".toList _ :=
    .cons (.code (@HexCode.mk 0 0 7 0 '0' '0' '7' '0' ⟨by decide, .inl rfl⟩ ⟨by decide, .inl rfl⟩
      ⟨by decide, .inl rfl⟩ ⟨by decide, .inl rfl⟩)) (spellsAll_escape "rogram_type".toList)
  have hother := member "x" nil
    (element (.list (.elements (element (.emptyObject nil)) (.lastElement (.element space .null nil)))))
  have htype := Written.member line (.mk hspells) nil (text "java")
  have hclasspath := member "classpath" nil
    (element (.list (.elements (text "b") (.lastElement (text "a")))))
  have hversion := member "java_version" nil (element (.number (.natural 21)))
  have hjava := member "java_configuration" line (element (.object (.members hclasspath
    (.members (member "x" nil (element .true)) (.lastMember hversion)))))
  have hmembers := Written.members hother (.members htype (.members hjava
    (.lastMember (member "entrypoint" line (text "m")))))
  have h := element (.object hmembers)
  have hdigits : (Numeral.natural 21).chars = ['2', '1'] := rfl
  simpa [scattered, scatteredJava, scatteredText, quoted, escape, hdigits] using h

private def scatteredFiles : FileSystem where
  children := [(Utf8.encode "m.json", .file 0o644 (Utf8.encode scatteredText))]
  workingDir := []

theorem load_object_scattered :
    scatteredFiles.readText (Path.ofString "m.json") = .ok scatteredText ∧
      ∃ w', load (Path.ofString "m.json") ⟨scatteredFiles, []⟩ =
        .ok ⟨"java", "m", 21, ["b", "a"]⟩ w' := by
  have htext : scatteredFiles.readText (Path.ofString "m.json") = .ok scatteredText :=
    readText_ok_iff.mpr ⟨[Utf8.encode "m.json"], 0o644, _, rfl, Utf8.decode?_encode _⟩
  have hjava : ∀ v, ("java_configuration", v) ∈ scattered → ∃ inner, v = .object inner := by
    intro v hv
    exact ⟨scatteredJava, by simpa [scattered] using hv⟩
  have hdescribes : Describes scattered ⟨"java", "m", 21, ["b", "a"]⟩ := by
    constructor
    · simp [valuesOf, scattered]
    · simp [valuesOf, scattered]
    · refine ⟨scatteredJava, ?_, ?_, ?_⟩
      · simp [valuesOf, scattered]
      · simp [valuesOf, scatteredJava]
      · simp [valuesOf, scatteredJava]
  have hload := (load_object (w := ⟨scatteredFiles, []⟩) htext written_scattered hjava).1
  exact ⟨htext, (hload _).mpr hdescribes⟩

end LaunchDist.Manifest
