import LaunchDist.Manifest.Basic
import LaunchDist.Proofs.Manifest.Format
/-!
# Reading a written manifest

The text that a manifest is written as is an object that describes it, whatever its texts hold and
however long its class path is. So it is read as that manifest.
-/
namespace LaunchDist.Manifest

open Json

theorem spells_escape (c : Char) : Spells c (escape c) := by
  unfold escape
  split
  case h_8 h1 h2 h3 h4 h5 h6 h7 =>
    split
    · rename_i h
      have hn : c.toNat < 32 := h
      have hcode : HexCode (((0 * 16 + 0) * 16 + c.toNat / 16) * 16 + c.toNat % 16)
          ['0', '0', Nat.digitChar (c.toNat / 16), Nat.digitChar (c.toNat % 16)] :=
        .mk ⟨by decide, .inl rfl⟩ ⟨by decide, .inl rfl⟩ ⟨by omega, .inl rfl⟩ ⟨by omega, .inl rfl⟩
      rw [show ((0 * 16 + 0) * 16 + c.toNat / 16) * 16 + c.toNat % 16 = c.toNat by omega] at hcode
      exact .code hcode
    · rename_i h
      exact .plain h h1 h2
  all_goals exact .short (by decide)

theorem spellsAll_escape (cs : List Char) : SpellsAll cs (cs.flatMap escape) := by
  induction cs with
  | nil => exact .nil
  | cons c cs ih => exact .cons (spells_escape c) ih

theorem quotes_quoted (s : String) : Quotes s (quoted s) :=
  .mk (spellsAll_escape s.toList)

private theorem blank_line (indent : Nat) : Blank ('\n' :: List.replicate indent ' ') := by
  intro c hc
  rcases List.mem_cons.mp hc with rfl | hc
  · exact .inr (.inl rfl)
  · exact .inl (List.eq_of_mem_replicate hc)

private theorem blank_nil : Blank [] :=
  fun _ hc => nomatch hc

private theorem written_entryLines (entries : List String) (hne : entries ≠ []) {after : List Char}
    (hafter : Blank after) : Written (.elements (entries.map .text)) (entryLines entries ++ after) := by
  induction entries with
  | nil => exact absurd rfl hne
  | cons entry entries ih =>
    cases entries with
    | nil =>
      have h := Written.lastElement
        (.element (blank_line 6) (.text (quotes_quoted entry)) hafter)
      simpa [entryLines] using h
    | cons next entries =>
      have h := Written.elements
        (.element (blank_line 6) (.text (quotes_quoted entry)) blank_nil)
        (ih (List.cons_ne_nil next entries))
      simpa [entryLines] using h

private theorem written_classpathList (classpath : List String) :
    Written (.value (.list (classpath.map .text))) (classpathList classpath) := by
  rw [classpathList]
  split
  · rename_i h
    rw [h]
    exact .emptyList blank_nil
  · rename_i h
    have hlist := Written.list (written_entryLines classpath h (blank_line 4))
    simpa using hlist

private theorem written_memberLine (indent : Nat) (key : String) {v : Value} {value after : List Char}
    (hvalue : Written (.value v) value) (hafter : Blank after) :
    Written (.member key v) (memberLine indent key value ++ after) := by
  have hspace : Blank [' '] := fun c hc => .inl (List.mem_singleton.mp hc)
  have h := Written.member (blank_line indent) (quotes_quoted key) blank_nil
    (.element hspace hvalue hafter)
  simpa [memberLine] using h

/-- The members of the inner object that a manifest is written with. -/
def javaMembers (m : Manifest) : List (String × Value) :=
  [("java_version", .number (.natural m.javaVersion.toNat)),
    ("classpath", .list (m.classpath.map .text))]

/-- The members of the object that a manifest is written as. -/
def writtenMembers (m : Manifest) : List (String × Value) :=
  [("program_type", .text m.programType), ("entrypoint", .text m.entrypoint),
    ("java_configuration", .object (javaMembers m))]

private theorem written_javaObject (m : Manifest) :
    Written (.value (.object (javaMembers m))) (javaObject m) := by
  have hversion : Written (.value (.number (.natural m.javaVersion.toNat)))
      (Nat.toDigits 10 m.javaVersion.toNat) := by
    have h := Written.number (.natural m.javaVersion.toNat)
    rwa [show (Numeral.natural m.javaVersion.toNat).chars = Nat.toDigits 10 m.javaVersion.toNat from
      List.append_nil _] at h
  have h := Written.object (.members (written_memberLine 4 "java_version" hversion blank_nil)
    (.lastMember (written_memberLine 4 "classpath" (written_classpathList m.classpath) (blank_line 2))))
  simpa [javaObject, javaMembers] using h

theorem exists_toList_render (m : Manifest) : ∃ cs, m.render.toList = cs ++ ['\x7d'] := by
  rw [render, String.toList_ofList]
  exact ⟨_, (List.append_assoc _ ['\n'] ['\x7d']).symm⟩

theorem written_render (m : Manifest) :
    Written (.element (.object (writtenMembers m))) m.render.toList := by
  have h := Written.object (.members
    (written_memberLine 2 "program_type" (.text (quotes_quoted m.programType)) blank_nil)
    (.members (written_memberLine 2 "entrypoint" (.text (quotes_quoted m.entrypoint)) blank_nil)
      (.lastMember (written_memberLine 2 "java_configuration" (written_javaObject m) (blank_line 0)))))
  have helement := Written.element blank_nil h blank_nil
  simpa [render, writtenMembers] using helement

theorem describes_writtenMembers (m : Manifest) : Describes (writtenMembers m) m where
  programType := by simp [valuesOf, writtenMembers]
  entrypoint := by simp [valuesOf, writtenMembers]
  java := ⟨javaMembers m, by simp [valuesOf, writtenMembers], by simp [valuesOf, javaMembers],
    by simp [valuesOf, javaMembers]⟩

theorem parse_render (m : Manifest) : parse m.render = .ok m := by
  have hjava : ∀ v, ("java_configuration", v) ∈ writtenMembers m → ∃ inner, v = .object inner := by
    intro v hv
    simp only [writtenMembers, List.mem_cons, Prod.mk.injEq, List.not_mem_nil, or_false] at hv
    rcases hv with ⟨h, _⟩ | ⟨h, _⟩ | ⟨_, rfl⟩
    · exact absurd h (by decide)
    · exact absurd h (by decide)
    · exact ⟨javaMembers m, rfl⟩
  exact (parse_written_iff (written_render m) hjava m).mpr (describes_writtenMembers m)

theorem render_injective : Function.Injective render := by
  intro m m' h
  have hm := parse_render m
  rw [h, parse_render] at hm
  exact (Except.ok.inj hm).symm

end LaunchDist.Manifest
