import Mathlib.Data.List.DropRight
import LaunchDist.Proofs.Json.Closed
import LaunchDist.Proofs.Manifest.Load
/-!
# Damaged manifests

A document ends where its record is closed: of a text that is read as a manifest, no longer text is read
unless only blanks are added, and no shorter one if it ends in its closing mark. So a written manifest
that is cut short, or that has anything left behind it, is not read at all.
-/
namespace LaunchDist.Manifest

open FileSystem Json

theorem settled_readMember {α σ : Type} {old : Option α} {key : String}
    {readItem : List Char → Reading α} {store : α → σ} (hitem : Settled readItem) :
    Settled (readMember old key readItem store) := by
  intro cs rest state h hne more
  rw [readMember, skipFreshColon] at h ⊢
  split_ifs at h ⊢ with hold
  cases hcolon : skipColon cs with
  | error fault =>
    rw [hcolon] at h
    cases h
  | ok left =>
    rw [hcolon] at h
    obtain ⟨value, left', hread, heq⟩ := andThen_eq_ok.mp h
    cases heq
    simp only [skipColon_append hcolon, hitem hread hne more, Reading.andThen]

theorem settled_skipMember {σ : Type} {state : σ} : Settled (skipMember state) := by
  intro cs rest state' h hne more
  rw [skipMember] at h ⊢
  cases hcolon : skipColon cs with
  | error fault =>
    rw [hcolon] at h
    cases h
  | ok left =>
    rw [hcolon] at h
    simp only [skipColon_append hcolon] at h ⊢
    split at h
    · rename_i hskip
      cases h
      rw [passes_skipValue hskip hne]
    · cases h

theorem closed_readRecord_java : Closed (readRecord javaRecord) := by
  have hlist : Settled (readList readText) := (closed_readList closed_readText.settled).settled
  apply closed_readRecord
  · intro state key
    simp only [javaRecord]
    split_ifs
    · exact settled_readMember settled_readWord
    · exact settled_readMember hlist
    · exact settled_skipMember
  · refine (settled_readField settled_readWord).andThen (fun _ => ?_) fun h => by cases h
    exact (settled_readField hlist).andThen (fun _ => settled_ok) fun h => by cases h; rfl

theorem closed_readRecord_record : Closed (readRecord record) := by
  have htext : Settled readText := closed_readText.settled
  have hjava : Settled (readRecord javaRecord) := closed_readRecord_java.settled
  apply closed_readRecord
  · intro state key
    simp only [record]
    split_ifs
    · exact settled_readMember htext
    · exact settled_readMember htext
    · exact settled_readMember hjava
    · exact settled_skipMember
  · refine (settled_readField htext).andThen (fun _ => ?_) fun h => by cases h
    refine (settled_readField htext).andThen (fun _ => ?_) fun h => by cases h
    exact (settled_readField hjava).andThen (fun _ => settled_ok) fun h => by cases h; rfl

theorem skipSpace_eq_nil_iff {cs : List Char} : skipSpace cs = [] ↔ Blank cs := by
  rw [skipSpace, List.dropWhile_eq_nil_iff]
  exact forall₂_congr fun c _ => isSpace_iff

theorem parse_ok_iff {text : String} {m : Manifest} : parse text = .ok m ↔
    ∃ rest, readRecord record text.toList = .ok (m, rest) ∧ Blank rest := by
  rw [parse, readDocument]
  constructor
  · intro h
    split at h
    · cases h
    · rename_i rest hread
      split at h
      · rename_i hnil
        cases h
        exact ⟨rest, hread, skipSpace_eq_nil_iff.mp hnil⟩
      · cases h
  · rintro ⟨rest, hread, hblank⟩
    rw [hread]
    simp only [skipSpace_eq_nil_iff.mpr hblank]

/-- What is read as a manifest is read as the same one with blanks after it, and not at all with anything
else after it. -/
theorem parse_append {text : String} {m : Manifest} (h : parse text = .ok m) (more : String)
    (m' : Manifest) : parse (text ++ more) = .ok m' ↔ Blank more.toList ∧ m' = m := by
  obtain ⟨rest, hread, hblank⟩ := parse_ok_iff.mp h
  have hmore := closed_readRecord_record hread more.toList
  rw [parse_ok_iff, String.toList_append, hmore]
  constructor
  · rintro ⟨_, heq, hall⟩
    cases heq
    exact ⟨fun c hc => hall c (List.mem_append_right _ hc), rfl⟩
  · rintro ⟨hblank', rfl⟩
    refine ⟨_, rfl, fun c hc => ?_⟩
    rcases List.mem_append.mp hc with hc | hc
    · exact hblank c hc
    · exact hblank' c hc

theorem not_blank_of_encode {m : Manifest} {start : Bytes} {more : String}
    (h : Utf8.encode m.render = start ++ Utf8.encode more) (hne : Utf8.encode more ≠ []) :
    ¬ Blank more.toList := by
  intro hblank
  obtain ⟨cs, hcs⟩ := exists_toList_render m
  have hlast := congrArg List.getLast? h
  rw [List.getLast?_append_of_ne_nil _ hne, Utf8.encode, hcs, List.flatMap_append,
    List.flatMap_singleton, show String.utf8EncodeChar '\x7d' = [0x7d] from rfl,
    List.getLast?_concat] at hlast
  obtain ⟨c, hc, hmem⟩ := List.mem_flatMap.mp (List.mem_of_getLast? hlast.symm)
  rcases hblank c hc with rfl | rfl | rfl | rfl <;> revert hmem <;> decide

/-- How a file that holds no manifest is refused: if its octets are no text for that, and otherwise for
what the text says. -/
structure Refused (p : Path) (content : Bytes) (w : Workspace) : Prop where
  notText : Utf8.decode? content = none → load p w = .error (.io p .notText) w
  notManifest : ∀ text, Utf8.decode? content = some text →
    ∃ fault, load p w = .error (.manifestParse p fault) w

section Refused

variable {w : Workspace} {p : Path} {content : Bytes}

theorem refused_of_parse (hread : w.files.read p = .ok content)
    (h : ∀ text m, Utf8.decode? content = some text → parse text ≠ .ok m) : Refused p content w := by
  constructor
  · intro hnone
    apply load_of_atPath_error
    rw [atPath, FileSystem.readText, hread]
    simp only [hnone]
  · intro text htext
    have hreadText : w.files.readText p = .ok text := by
      rw [FileSystem.readText, hread]
      simp only [htext]
    cases hp : parse text with
    | error fault => exact ⟨fault, load_of_parse_error hreadText hp⟩
    | ok m => exact absurd hp (h text m htext)

theorem refused_of_cut (hread : w.files.read p = .ok content) {m : Manifest}
    (h : content <+: Utf8.encode m.render) (hne : content ≠ Utf8.encode m.render) :
    Refused p content w := by
  obtain ⟨rest, hrest⟩ := h
  refine refused_of_parse hread fun text m' htext => ?_
  rw [Utf8.decode?_eq_some_iff] at htext
  have hdecode := Utf8.decode?_encode m.render
  rw [← hrest, ← htext, Utf8.decode?_encode_append, Option.map_eq_some_iff] at hdecode
  obtain ⟨more, hmore, heq⟩ := hdecode
  rw [Utf8.decode?_eq_some_iff] at hmore
  rw [← hmore] at hrest
  have hlost : Utf8.encode more ≠ [] := by
    intro hnil
    rw [hnil, List.append_nil] at hrest
    exact hne hrest
  intro hm'
  have hm := parse_render m
  rw [← heq, parse_append hm'] at hm
  exact not_blank_of_encode hrest.symm hlost hm.1

theorem refused_of_append (hread : w.files.read p = .ok content) {m : Manifest} {rest : Bytes}
    (h : content = Utf8.encode m.render ++ rest)
    (hrest : ∀ more, Utf8.decode? rest = some more → ¬ Blank more.toList) : Refused p content w := by
  refine refused_of_parse hread fun text m' htext hm' => ?_
  rw [h, Utf8.decode?_encode_append, Option.map_eq_some_iff] at htext
  obtain ⟨more, hmore, rfl⟩ := htext
  exact hrest more hmore ((parse_append (parse_render m) more m').mp hm').1

end Refused

/-- A written manifest that has been damaged is never read: not if it was cut short, wherever it was
cut, not with any text behind it but blanks, and not with the end of a longer one still behind it that it
was written over. -/
theorem load_damaged {w : Workspace} {p : Path} {content : Bytes}
    (hread : w.files.read p = .ok content) (m : Manifest) :
    (content <+: Utf8.encode m.render → content ≠ Utf8.encode m.render → Refused p content w) ∧
      (∀ more : String, content = Utf8.encode m.render ++ Utf8.encode more → ¬ Blank more.toList →
        ∃ fault, load p w = .error (.manifestParse p fault) w) ∧
      ∀ older : Manifest, (Utf8.encode m.render).length < (Utf8.encode older.render).length →
        content = Utf8.encode m.render ++
          (Utf8.encode older.render).drop (Utf8.encode m.render).length →
        Refused p content w := by
  refine ⟨refused_of_cut hread, ?_, ?_⟩
  · intro more h hmore
    refine (refused_of_append hread h fun more' hdecode => ?_).notManifest (m.render ++ more) ?_
    · rw [Utf8.decode?_encode] at hdecode
      cases hdecode
      exact hmore
    · rw [h, Utf8.decode?_encode_append, Utf8.decode?_encode, Option.map_some]
  · intro older hlength h
    refine refused_of_append hread h fun more hmore => ?_
    have hold := (List.take_append_drop (Utf8.encode m.render).length (Utf8.encode older.render)).symm
    rw [← (Utf8.decode?_eq_some_iff _ _).mp hmore] at hold
    refine not_blank_of_encode hold ?_
    rw [(Utf8.decode?_eq_some_iff _ _).mp hmore, ne_eq, List.drop_eq_nil_iff]
    omega

/-- A manifest whose rendering has a character of two octets. -/
private def accented : Manifest := ⟨"java", "é", 21, []⟩

/-- A manifest whose rendering is longer by two octets. -/
private def unaccented : Manifest := ⟨"java", "main", 21, []⟩

private def damaged (content : Bytes) : Workspace where
  files := ⟨[(Utf8.encode "m.json", .file 0o644 content)], [], 0⟩
  log := []

/-- A manifest that was cut inside a character and before one, one with more text behind it, and one that
was written over a longer one. -/
theorem load_damaged_accented :
    let p := Path.ofString "m.json"
    let written := Utf8.encode accented.render
    let mixed := written ++ (Utf8.encode unaccented.render).drop written.length
    load p (damaged (written.take 46)) = .error (.io p .notText) (damaged (written.take 46)) ∧
      (∃ fault, load p (damaged (written.take 45)) =
        .error (.manifestParse p fault) (damaged (written.take 45))) ∧
      (∃ fault, load p (damaged (written ++ Utf8.encode " x")) =
        .error (.manifestParse p fault) (damaged (written ++ Utf8.encode " x"))) ∧
      ∃ fault, load p (damaged mixed) = .error (.manifestParse p fault) (damaged mixed) := by
  have hread : ∀ content, (damaged content).files.read (Path.ofString "m.json") = .ok content :=
    fun _ => rfl
  have hlength : (Utf8.encode accented.render).length = 125 ∧
      (Utf8.encode unaccented.render).length = 127 := by
    simp only [Utf8.encode, render, String.toList_ofList]
    decide +kernel
  have hne : ∀ n < 125, (Utf8.encode accented.render).take n ≠ Utf8.encode accented.render := by
    intro n hn heq
    have := congrArg List.length heq
    rw [List.length_take, hlength.1] at this
    omega
  refine ⟨?_, ?_, ?_, ?_⟩
  · refine ((load_damaged (hread _) accented).1 (List.take_prefix _ _) (hne 46 (by decide))).notText ?_
    simp only [Utf8.encode, render, String.toList_ofList]
    decide +kernel
  · have htext : (Utf8.decode? ((Utf8.encode accented.render).take 45)).isSome := by
      simp only [Utf8.encode, render, String.toList_ofList]
      decide +kernel
    exact ((load_damaged (hread _) accented).1 (List.take_prefix _ _)
      (hne 45 (by decide))).notManifest _ (Option.eq_some_of_isSome htext)
  · refine (load_damaged (hread _) accented).2.1 " x" rfl fun h => ?_
    rcases h 'x' (by decide) with h | h | h | h <;> cases h
  · have htext : (Utf8.decode? (Utf8.encode accented.render ++
        (Utf8.encode unaccented.render).drop (Utf8.encode accented.render).length)).isSome := by
      rw [hlength.1, Utf8.decode?_encode_append, Option.isSome_map]
      simp only [Utf8.encode, render, String.toList_ofList]
      decide +kernel
    exact ((load_damaged (hread _) accented).2.2 unaccented (by rw [hlength.1, hlength.2]; decide)
      rfl).notManifest _ (Option.eq_some_of_isSome htext)

end LaunchDist.Manifest
