import Mathlib.Data.List.Basic
import LaunchDist.Json.Reader
import LaunchDist.Proofs.Json.Grammar
/-!
# Reading strings

A string is read as the characters that it spells, and passed over, up to where it ends and whatever
follows.
-/
namespace LaunchDist.Json

@[simp] theorem skipSpace_cons_of_not {c : Char} (h : isSpace c = false) (rest : List Char) :
    skipSpace (c :: rest) = c :: rest := by
  rw [skipSpace, List.dropWhile_cons_of_neg (by simp [h])]

@[simp] theorem skipSpace_cons_of_space {c : Char} (h : isSpace c = true) (rest : List Char) :
    skipSpace (c :: rest) = skipSpace rest := by
  rw [skipSpace, List.dropWhile_cons_of_pos h, ← skipSpace]

private theorem hexDigit?_of_isHexDigit {n : Nat} {c : Char} (h : IsHexDigit n c) :
    hexDigit? c = some n := by
  have hall : ∀ n < 16, hexDigit? (Nat.digitChar n) = some n ∧
      hexDigit? (Nat.digitChar n).toUpper = some n := by decide
  obtain ⟨hn, rfl | rfl⟩ := h
  · exact (hall n hn).1
  · exact (hall n hn).2

theorem HexCode.exists_hexValue? {n : Nat} {cs : List Char} (h : HexCode n cs) :
    ∃ x y z w, cs = [x, y, z, w] ∧ hexValue? x y z w = some n := by
  cases h with
  | mk ha hb hc hd =>
    refine ⟨_, _, _, _, rfl, ?_⟩
    simp only [hexValue?, hexDigit?_of_isHexDigit ha, hexDigit?_of_isHexDigit hb,
      hexDigit?_of_isHexDigit hc, hexDigit?_of_isHexDigit hd]
    rfl

private theorem surrogate_char (c : Char) :
    isLowSurrogate c.toNat = false ∧ isHighSurrogate c.toNat = false := by
  have hvalid : c.toNat < 0xD800 ∨ 0xDFFF < c.toNat ∧ c.toNat < 0x110000 := c.valid
  simp only [isLowSurrogate, isHighSurrogate, Bool.and_eq_false_iff, decide_eq_false_iff_not]
  omega

private theorem surrogate_pair {c : Char} {high low : Nat} (hhigh : 0xD800 ≤ high ∧ high ≤ 0xDBFF)
    (hlow : 0xDC00 ≤ low ∧ low ≤ 0xDFFF)
    (hc : c.toNat = (high - 0xD800) * 0x400 + (low - 0xDC00) + 0x10000) :
    isLowSurrogate high = false ∧ isHighSurrogate high = true ∧ isLowSurrogate low = true ∧
      pairChar high low = c := by
  refine ⟨?_, ?_, ?_, ?_⟩
  · simp only [isLowSurrogate, Bool.and_eq_false_iff, decide_eq_false_iff_not]
    omega
  · simp only [isHighSurrogate, Bool.and_eq_true, decide_eq_true_eq]
    omega
  · simp only [isLowSurrogate, Bool.and_eq_true, decide_eq_true_eq]
    omega
  · rw [pairChar, ← hc, Char.ofNat_toNat]

theorem readString_plain (c : Char) (hq : c ≠ '"') (hb : c ≠ '\\') (hc : ¬ c < ' ')
    (rest : List Char) : readString (c :: rest) = consChar c (readString rest) := by
  rw [readString.eq_def]
  split
  · contradiction
  · rename_i h; exact absurd (List.cons.inj h).1 hq
  · rename_i h; exact absurd (List.cons.inj h).1 hb
  · rename_i h; exact absurd (List.cons.inj h).1 hb
  · rename_i h; exact absurd (List.cons.inj h).1 hb
  · rename_i h
    obtain ⟨rfl, rfl⟩ := List.cons.inj h
    rw [if_neg hc]

theorem readString_of_spells {c : Char} {cs : List Char} (h : Spells c cs) (rest : List Char) :
    readString (cs ++ rest) = consChar c (readString rest) := by
  cases h with
  | plain hc hq hb => exact readString_plain c hq hb hc rest
  | short hmem =>
    simp only [shortEscapes, List.mem_cons, Prod.mk.injEq, List.not_mem_nil, or_false] at hmem
    rcases hmem with h | h | h | h | h | h | h | h
    all_goals
      obtain ⟨rfl, rfl⟩ := h
      rfl
  | code hcode =>
    obtain ⟨x, y, z, w, rfl, hv⟩ := hcode.exists_hexValue?
    obtain ⟨hl, hh⟩ := surrogate_char c
    simp only [List.cons_append, List.nil_append]
    rw [readString, hv]
    simp only [hl, hh, Bool.false_eq_true, if_false, Char.ofNat_toNat]
  | pair hhigh hlow hc hcs hds =>
    obtain ⟨x, y, z, w, rfl, hv⟩ := hcs.exists_hexValue?
    obtain ⟨x', y', z', w', rfl, hv'⟩ := hds.exists_hexValue?
    obtain ⟨hl, hh, hl', hpair⟩ := surrogate_pair hhigh hlow hc
    simp only [List.cons_append, List.nil_append]
    rw [readString, hv]
    simp only [hl, hh, Bool.false_eq_true, if_false, if_true, hv', hl', hpair]

theorem readString_of_spellsAll {cs xs : List Char} (h : SpellsAll cs xs) (rest : List Char) :
    readString (xs ++ '"' :: rest) = .ok (cs, rest) := by
  induction h with
  | nil => rfl
  | cons hc _ ih =>
    rw [List.append_assoc, readString_of_spells hc, ih]
    rfl

theorem skipString_plain (c : Char) (hq : c ≠ '"') (hb : c ≠ '\\') (hc : ¬ c < ' ')
    (rest : List Char) : skipString (c :: rest) = skipString rest := by
  rw [skipString.eq_def]
  split
  · contradiction
  · rename_i h; exact absurd (List.cons.inj h).1 hq
  · rename_i h; exact absurd (List.cons.inj h).1 hb
  · rename_i h; exact absurd (List.cons.inj h).1 hb
  · rename_i h; exact absurd (List.cons.inj h).1 hb
  · rename_i h
    obtain ⟨rfl, rfl⟩ := List.cons.inj h
    rw [if_neg hc]

theorem skipString_of_spells {c : Char} {cs : List Char} (h : Spells c cs) (rest : List Char) :
    skipString (cs ++ rest) = skipString rest := by
  have hcode : ∀ {n cs}, HexCode n cs → ∀ rest,
      skipString ('\\' :: 'u' :: (cs ++ rest)) = skipString rest := by
    intro n cs hcs rest
    obtain ⟨x, y, z, w, rfl, hv⟩ := hcs.exists_hexValue?
    simp only [List.cons_append, List.nil_append]
    rw [skipString, hv]
  cases h with
  | plain hc hq hb => exact skipString_plain c hq hb hc rest
  | short hmem =>
    simp only [shortEscapes, List.mem_cons, Prod.mk.injEq, List.not_mem_nil, or_false] at hmem
    rcases hmem with h | h | h | h | h | h | h | h
    all_goals
      obtain ⟨rfl, rfl⟩ := h
      rfl
  | code h => exact hcode h rest
  | pair _ _ _ hcs hds =>
    rw [List.cons_append, List.cons_append, List.append_assoc, List.cons_append, List.cons_append,
      hcode hcs, hcode hds]

theorem skipString_of_spellsAll {cs xs : List Char} (h : SpellsAll cs xs) (rest : List Char) :
    skipString (xs ++ '"' :: rest) = .ok rest := by
  induction h with
  | nil => rfl
  | cons hc _ ih => rw [List.append_assoc, skipString_of_spells hc, ih]

theorem readText_of_quotes {s : String} {xs : List Char} (h : Quotes s xs) {cs rest : List Char}
    (hcs : skipSpace cs = xs ++ rest) : readText cs = .ok (s, rest) := by
  cases h with
  | mk hs =>
    rw [readText, hcs, List.cons_append, List.append_assoc]
    simp only [List.singleton_append, readString_of_spellsAll hs, Reading.andThen, String.ofList_toList]

end LaunchDist.Json
