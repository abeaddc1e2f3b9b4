import LaunchDist.Proofs.Manifest.RoundTrip
/-!
# The lines of a written manifest

Whatever the texts of a manifest are, no control character is left in them once they are written, so the
line breaks of a rendering are those of its layout and its lines can be told from the manifest alone.
-/
namespace LaunchDist.Manifest

open Json

/-- Whether there is no control character, and so no line break. -/
def Plain (cs : List Char) : Prop :=
  ∀ c ∈ cs, ' ' ≤ c

section Plain

variable {c : Char} {cs ds : List Char}

@[simp] theorem plain_nil : Plain [] :=
  fun _ hc => nomatch hc

@[simp] theorem plain_cons : Plain (c :: cs) ↔ ' ' ≤ c ∧ Plain cs :=
  List.forall_mem_cons

@[simp] theorem plain_append : Plain (cs ++ ds) ↔ Plain cs ∧ Plain ds :=
  List.forall_mem_append

theorem Plain.not_mem (h : Plain cs) : '\n' ∉ cs :=
  fun hc => absurd (h _ hc) (by decide)

end Plain

theorem plain_spaces (n : Nat) : Plain (List.replicate n ' ') := by
  intro c hc
  obtain rfl := List.eq_of_mem_replicate hc
  exact Char.le_refl _

private theorem le_digitChar : ∀ n < 16, ' ' ≤ Nat.digitChar n := by
  decide

theorem plain_escape (c : Char) : Plain (escape c) := by
  unfold escape
  split
  case h_8 =>
    split_ifs with hc
    · have hlt : c.toNat < 32 := hc
      have hhigh := le_digitChar (c.toNat / 16) (by omega)
      have hlow := le_digitChar (c.toNat % 16) (by omega)
      simp [hexEscape, hhigh, hlow]
    · simpa using hc
  all_goals simp

theorem plain_quoted (s : String) : Plain (quoted s) := by
  have h : Plain (s.toList.flatMap escape) := by
    intro c hc
    obtain ⟨d, _, hc⟩ := List.mem_flatMap.mp hc
    exact plain_escape d c hc
  simp [quoted, h]

theorem plain_toDigits (n : Nat) : Plain (Nat.toDigits 10 n) := by
  intro c hc
  have hdigit := Nat.isDigit_of_mem_toDigits (by decide) (by decide) hc
  rw [Char.isDigit, Bool.and_eq_true, decide_eq_true_eq] at hdigit
  exact Char.le_trans (by decide) hdigit.1

/-- A member after its indentation. -/
def member (indent : Nat) (key : String) (value : List Char) : List Char :=
  List.replicate indent ' ' ++ quoted key ++ [':', ' '] ++ value

/-- The lines before the class path entries. -/
def openingLines (m : Manifest) : List (List Char) :=
  [['\x7b'], member 2 "program_type" (quoted m.programType) ++ [','],
    member 2 "entrypoint" (quoted m.entrypoint) ++ [','], member 2 "java_configuration" ['\x7b'],
    member 4 "java_version" (Nat.toDigits 10 m.javaVersion.toNat) ++ [','],
    member 4 "classpath" (if m.classpath = [] then ['[', ']'] else ['['])]

/-- The lines of the class path entries, all but the last of which end in a comma. -/
def entries (classpath : List String) : List (List Char) :=
  classpath.mapIdx fun i entry => List.replicate 6 ' ' ++ quoted entry ++
    if i + 1 = classpath.length then [] else [',']

/-- The lines after the class path entries. -/
def closingLines (m : Manifest) : List (List Char) :=
  (if m.classpath = [] then [] else [List.replicate 4 ' ' ++ [']']]) ++
    [List.replicate 2 ' ' ++ ['\x7d'], ['\x7d']]

def lines (m : Manifest) : List (List Char) :=
  m.openingLines ++ (entries m.classpath ++ m.closingLines)

private theorem intercalate_cons {α : Type} (sep l : List α) (ls : List (List α)) :
    sep.intercalate (l :: ls) = l ++ ls.flatMap (sep ++ ·) := by
  induction ls generalizing l with
  | nil => simp [List.intercalate]
  | cons l' ls ih =>
    rw [List.intercalate_cons_cons, ih, List.flatMap_cons, List.append_assoc, List.append_assoc]

theorem entryLines_eq (classpath : List String) :
    entryLines classpath = (entries classpath).flatMap ('\n' :: ·) := by
  induction classpath with
  | nil => rfl
  | cons entry classpath ih =>
    cases classpath with
    | nil => simp [entryLines, entries]
    | cons next classpath =>
      have hrest : entries (entry :: next :: classpath) =
          (List.replicate 6 ' ' ++ quoted entry ++ [',']) :: entries (next :: classpath) := by
        rw [entries, List.mapIdx_cons, entries]
        simp
      rw [hrest, List.flatMap_cons, ← ih, entryLines]
      · simp
      · exact List.cons_ne_nil _ _

theorem toList_render (m : Manifest) : m.render.toList = ['\n'].intercalate m.lines := by
  have hclasspath : classpathList m.classpath = (if m.classpath = [] then ['[', ']'] else ['[']) ++
      ((entries m.classpath).flatMap ('\n' :: ·) ++
        if m.classpath = [] then [] else '\n' :: List.replicate 4 ' ' ++ [']']) := by
    rw [classpathList]
    split_ifs with h
    · simp [h, entries]
    · simp [entryLines_eq]
  rw [lines, openingLines, List.cons_append, intercalate_cons, render, String.toList_ofList, javaObject,
    hclasspath, closingLines]
  split_ifs <;> simp [memberLine, member]

theorem plain_member {indent : Nat} {key : String} {value : List Char} (h : Plain value) :
    Plain (member indent key value) := by
  simp [member, plain_spaces, plain_quoted, h]

theorem plain_lines (m : Manifest) : ∀ line ∈ m.lines, Plain line := by
  simp only [lines, List.forall_mem_append]
  refine ⟨?_, ?_, ?_⟩
  · have hlist : Plain (if m.classpath = [] then ['[', ']'] else ['[']) := by split_ifs <;> simp
    simp [openingLines, plain_member, plain_quoted, plain_toDigits, hlist]
  · intro line h
    obtain ⟨i, hi, rfl⟩ := List.mem_mapIdx.mp h
    split_ifs <;> simp [plain_quoted]
  · rw [closingLines]
    split_ifs <;> simp

/-- The lines of a rendering are those of its layout, and nothing in a text breaks them. -/
theorem splitOn_render (m : Manifest) : m.render.toList.splitOn '\n' = m.lines := by
  rw [toList_render]
  refine List.splitOn_intercalate '\n' (fun line h => (plain_lines m line h).not_mem) ?_
  exact List.cons_ne_nil _ _

/-- What the lines of a written manifest are: the members in their order, each in a line and indented by
two spaces a level, and each class path entry in a line of its own. -/
structure LaidOut (m : Manifest) (lines : List (List Char)) : Prop where
  plain : ∀ line ∈ lines, Plain line
  length : lines.length = if m.classpath = [] then 8 else 9 + m.classpath.length
  opening : lines[0]? = some ['\x7b']
  programType : lines[1]? = some ("  \"program_type\": ".toList ++ quoted m.programType ++ [','])
  entrypoint : lines[2]? = some ("  \"entrypoint\": ".toList ++ quoted m.entrypoint ++ [','])
  java : lines[3]? = some "  \"java_configuration\": \x7b".toList
  version : lines[4]? =
    some ("    \"java_version\": ".toList ++ Nat.toDigits 10 m.javaVersion.toNat ++ [','])
  classpath : lines[5]? =
    some (if m.classpath = [] then "    \"classpath\": []" else "    \"classpath\": [").toList
  entry : ∀ i entry, m.classpath[i]? = some entry → lines[6 + i]? =
    some ("      ".toList ++ quoted entry ++ if i + 1 = m.classpath.length then [] else [','])
  closing : lines.drop (6 + m.classpath.length) =
    (if m.classpath = [] then ["  \x7d", "\x7d"] else ["    ]", "  \x7d", "\x7d"]).map String.toList

theorem laidOut_lines (m : Manifest) : LaidOut m m.lines where
  plain := plain_lines m
  length := by
    rw [lines, openingLines, entries, closingLines]
    split_ifs with h
    · simp [h]
    · simp
      omega
  opening := rfl
  programType := rfl
  entrypoint := rfl
  java := rfl
  version := rfl
  classpath := by
    change some (member 4 "classpath" _) = _
    split_ifs <;> rfl
  entry := by
    intro i entry h
    have hentry : (entries m.classpath)[i]? = some ("      ".toList ++ quoted entry ++
        if i + 1 = m.classpath.length then [] else [',']) := by
      rw [entries, List.getElem?_mapIdx, h]
      rfl
    obtain ⟨hi, _⟩ := List.getElem?_eq_some_iff.mp hentry
    rw [lines, List.getElem?_append_right (Nat.le_add_right 6 i),
      show 6 + i - m.openingLines.length = i from Nat.add_sub_cancel_left 6 i,
      List.getElem?_append_left hi, hentry]
  closing := by
    have hdrop : m.lines.drop 6 = entries m.classpath ++ m.closingLines := rfl
    have hlength : (entries m.classpath).length = m.classpath.length := List.length_mapIdx
    rw [← List.drop_drop, hdrop, List.drop_left' hlength, closingLines]
    split_ifs <;> rfl

/-- A written manifest keeps its layout whatever its texts are: split at its line breaks it gives the
lines of that layout, of which the last one is not empty, and each text is written as a string of its own
in one of them. -/
theorem render_laidOut (m : Manifest) : LaidOut m (m.render.toList.splitOn '\n') ∧
    m.render.toList.getLast? ≠ some '\n' ∧ ∀ s, Quotes s (quoted s) := by
  refine ⟨?_, ?_, quotes_quoted⟩
  · rw [splitOn_render]
    exact laidOut_lines m
  · obtain ⟨cs, hcs⟩ := exists_toList_render m
    rw [hcs, List.getLast?_concat]
    decide

end LaunchDist.Manifest
