import LaunchDist.Proofs.Json.Numeral
/-!
# Scalars in longer texts

What is read of a text before its end is read of every longer text. A string is closed by its last mark,
so nothing after it counts; a number goes on where the text does, so it is settled only if something
stands behind it.
-/
namespace LaunchDist.Json

/-- Whether what a reader makes of a text, and where it stops, stays the same if anything is appended. -/
def Closed {α : Type} (read : List Char → Reading α) : Prop :=
  ∀ ⦃cs rest : List Char⦄ ⦃a : α⦄, read cs = .ok (a, rest) →
    ∀ more, read (cs ++ more) = .ok (a, rest ++ more)

/-- Whether that is so where the reader stops before the end of the text. -/
def Settled {α : Type} (read : List Char → Reading α) : Prop :=
  ∀ ⦃cs rest : List Char⦄ ⦃a : α⦄, read cs = .ok (a, rest) → rest ≠ [] →
    ∀ more, read (cs ++ more) = .ok (a, rest ++ more)

/-- Whether what is passed over before the end of a text is passed over in longer texts, maybe by another
function. -/
def Passes (skip skip' : List Char → Except Fault (List Char)) : Prop :=
  ∀ ⦃cs rest : List Char⦄, skip cs = .ok rest → rest ≠ [] →
    ∀ more, skip' (cs ++ more) = .ok (rest ++ more)

theorem Closed.settled {α : Type} {read : List Char → Reading α} (h : Closed read) : Settled read :=
  fun _ _ _ hread _ more => h hread more

theorem settled_ok {α : Type} {a : α} : Settled fun cs => .ok (a, cs) := by
  intro cs rest a h _ more
  cases h
  rfl

theorem andThen_eq_ok {α β : Type} {reading : Reading α} {next : α → List Char → Reading β} {b : β}
    {rest : List Char} : reading.andThen next = .ok (b, rest) ↔
      ∃ a left, reading = .ok (a, left) ∧ next a left = .ok (b, rest) := by
  constructor
  · intro h
    cases reading with
    | error fault => cases h
    | ok x => exact ⟨x.1, x.2, rfl, h⟩
  · rintro ⟨a, left, rfl, h⟩
    exact h

/-- One reader after another, if the second one makes nothing of an empty text that it leaves. -/
theorem Settled.andThen {α β : Type} {read : List Char → Reading α} {next : α → List Char → Reading β}
    (hread : Settled read) (hnext : ∀ a, Settled (next a))
    (hnil : ∀ {a b rest}, next a [] = .ok (b, rest) → rest = []) :
    Settled fun cs => (read cs).andThen next := by
  intro cs rest b h hne more
  obtain ⟨a, left, ha, hb⟩ := andThen_eq_ok.mp h
  have hleft : left ≠ [] := by
    rintro rfl
    exact hne (hnil hb)
  exact andThen_eq_ok.mpr ⟨a, _, hread ha hleft more, hnext a hb hne more⟩

section Spans

variable {p : Char → Bool} {cs : List Char}

theorem dropWhile_append (h : cs.dropWhile p ≠ []) (more : List Char) :
    (cs ++ more).dropWhile p = cs.dropWhile p ++ more := by
  rw [List.dropWhile_append, if_neg (by simpa using h)]

theorem takeWhile_append (h : cs.dropWhile p ≠ []) (more : List Char) :
    (cs ++ more).takeWhile p = cs.takeWhile p := by
  induction cs with
  | nil => exact absurd rfl h
  | cons c cs ih =>
    rw [List.cons_append, List.takeWhile_cons, List.takeWhile_cons]
    split
    · rename_i hc
      rw [List.dropWhile_cons_of_pos hc] at h
      rw [ih h]
    · rfl

theorem head_append (h : cs ≠ []) (more : List Char) :
    ((cs ++ more).head?.map p).getD false = (cs.head?.map p).getD false := by
  rw [List.head?_append_of_ne_nil _ h]

theorem skipSpace_append (h : skipSpace cs ≠ []) (more : List Char) :
    skipSpace (cs ++ more) = skipSpace cs ++ more :=
  dropWhile_append h more

theorem skipSpace_append_cons {c : Char} {rest : List Char} (h : skipSpace cs = c :: rest)
    (more : List Char) : skipSpace (cs ++ more) = c :: (rest ++ more) := by
  rw [skipSpace_append (by rw [h]; exact List.cons_ne_nil c rest), h, List.cons_append]

end Spans

theorem skipWord_append {word cs rest : List Char} (h : skipWord word cs = .ok rest)
    (more : List Char) : skipWord word (cs ++ more) = .ok (rest ++ more) := by
  fun_induction skipWord word cs with
  | case1 =>
    cases h
    rfl
  | case3 w word cs ih =>
    rw [List.cons_append, skipWord, if_pos rfl]
    exact ih h
  | _ => cases h

private theorem consChar_append {c : Char} {reading reading' : Reading (List Char)}
    {text rest more : List Char} (h : consChar c reading = .ok (text, rest))
    (ih : ∀ ⦃text⦄, reading = .ok (text, rest) → reading' = .ok (text, rest ++ more)) :
    consChar c reading' = .ok (text, rest ++ more) := by
  obtain ⟨text, rest, hreading, heq⟩ := andThen_eq_ok.mp h
  cases heq
  rw [ih hreading]
  rfl

private theorem ne_backslash {c : Char} {rest : List Char} (hnil : c = '\\' → rest = [] → False)
    (hcons : ∀ e rest', c = '\\' → rest = e :: rest' → False) : c ≠ '\\' := by
  rintro rfl
  cases rest with
  | nil => exact hnil rfl rfl
  | cons e rest => exact hcons e rest rfl rfl

theorem closed_readString : Closed readString := by
  intro cs rest text h more
  fun_induction readString cs generalizing text with
  | case2 =>
    cases h
    rfl
  | case7 =>
    -- A surrogate pair.
    rename_i ih
    simp only [List.cons_append, readString, *]
    exact consChar_append h ih
  | case14 =>
    -- One code.
    rename_i ih
    simp only [List.cons_append, readString, *]
    exact consChar_append h ih
  | case16 =>
    -- A short escape.
    rename_i ih
    simp only [List.cons_append, readString, *]
    exact consChar_append h ih
  | case19 c rest hquote hnil _ hcons hc ih =>
    rw [List.cons_append, readString_plain c hquote (ne_backslash hnil hcons) hc]
    exact consChar_append h ih
  | _ => cases h

theorem skipString_append {cs rest : List Char} (h : skipString cs = .ok rest) (more : List Char) :
    skipString (cs ++ more) = .ok (rest ++ more) := by
  fun_induction skipString cs with
  | case2 =>
    cases h
    rfl
  | case5 a b c d left n hn ih =>
    simp only [List.cons_append, skipString, hn]
    exact ih h
  | case7 =>
    rename_i ih
    simp only [List.cons_append, skipString, *]
  | case10 c rest hquote hnil _ hcons hc ih =>
    rw [List.cons_append, skipString_plain c hquote (ne_backslash hnil hcons) hc]
    exact ih h
  | _ => cases h

theorem absorb_append {bound value value' : Nat} {cs rest : List Char}
    (h : absorb bound value cs = (value', rest)) (hne : rest ≠ []) (more : List Char) :
    absorb bound value (cs ++ more) = (value', rest ++ more) := by
  fun_induction absorb bound value cs with
  | case1 =>
    cases h
    exact absurd rfl hne
  | case2 value c cs d hd hle ih =>
    rw [List.cons_append, absorb, hd]
    simp only [if_pos hle]
    exact ih h
  | case3 value c cs d hd hle =>
    cases h
    rw [List.cons_append, absorb, hd]
    exact if_neg hle
  | case4 value c cs hd =>
    cases h
    rw [List.cons_append, absorb, hd]

section Number

variable {isNegative : Bool} {digits : Nat} {exponent : Int} {cs rest : List Char} {number : Number}

private theorem floatAt_ok (h : floatAt isNegative digits exponent cs = .ok (number, rest)) :
    rest = cs ∧ ∀ cs', floatAt isNegative digits exponent cs' = .ok (number, cs') := by
  unfold floatAt at h ⊢
  split at h
  · cases h
    exact ⟨rfl, fun _ => rfl⟩
  · cases h

private theorem floatAt_append (h : floatAt isNegative digits exponent cs = .ok (number, rest))
    (more : List Char) :
    floatAt isNegative digits exponent (cs ++ more) = .ok (number, rest ++ more) := by
  obtain ⟨rfl, hall⟩ := floatAt_ok h
  exact hall _

private theorem readExponent_unsigned {c : Char} (hplus : c ≠ '+') (hminus : c ≠ '-')
    (cs : List Char) : readExponent isNegative digits exponent (c :: cs) =
      readExponent isNegative digits exponent ('+' :: c :: cs) := by
  unfold readExponent
  split
  rename_i heq
  split at heq
  · rename_i h
    exact absurd (List.cons.inj h).1 hplus
  · rename_i h
    exact absurd (List.cons.inj h).1 hminus
  · cases heq
    rfl

private theorem readExponent_signed {sign : Char} (hsign : sign = '+' ∨ sign = '-')
    (h : readExponent isNegative digits exponent (sign :: cs) = .ok (number, rest)) (hne : rest ≠ [])
    (more : List Char) :
    readExponent isNegative digits exponent (sign :: (cs ++ more)) = .ok (number, rest ++ more) := by
  rcases cs with _ | ⟨c, cs⟩
  · rcases hsign with rfl | rfl <;> cases h
  rcases hsign with rfl | rfl
  all_goals
    simp only [readExponent, List.cons_append] at h ⊢
    split at h
    · cases h
    rename_i first _
    rcases habsorb : absorb maxExponent first cs with ⟨power, left⟩
    rw [habsorb] at h
    have hleft : left ≠ [] := by
      rintro rfl
      simp only [List.head?_nil, Option.map_none, Option.getD_none, Bool.false_eq_true, if_false] at h
      exact hne (floatAt_ok h).1
    simp only [absorb_append habsorb hleft, head_append hleft]
    split at h
    · rename_i hdigit
      rw [if_pos hdigit]
      split at h
      · cases h
      · rename_i hsmall
        cases h
        rw [if_neg hsmall, dropWhile_append hne]
    · rename_i hdigit
      rw [if_neg hdigit]
      exact floatAt_append h more

private theorem settled_readExponent : Settled (readExponent isNegative digits exponent) := by
  intro cs rest number h hne more
  rcases cs with _ | ⟨c, cs⟩
  · cases h
  by_cases hplus : c = '+'
  · subst hplus
    exact readExponent_signed (.inl rfl) h hne more
  by_cases hminus : c = '-'
  · subst hminus
    exact readExponent_signed (.inr rfl) h hne more
  rw [readExponent_unsigned hplus hminus] at h
  rw [List.cons_append, readExponent_unsigned hplus hminus]
  exact readExponent_signed (.inl rfl) h hne more

private theorem readFloatEnd_nil
    (h : readFloatEnd isNegative digits exponent [] = .ok (number, rest)) : rest = [] :=
  (floatAt_ok h).1

private theorem settled_readFloatEnd : Settled (readFloatEnd isNegative digits exponent) := by
  intro cs rest number h hne more
  rcases cs with _ | ⟨c, cs⟩
  · exact absurd (readFloatEnd_nil h) hne
  rw [List.cons_append]
  rw [readFloatEnd] at h ⊢
  split_ifs at h ⊢ with hmark
  · exact settled_readExponent h hne more
  · exact floatAt_append h more

private theorem settled_readFraction : Settled (readFraction isNegative digits exponent) := by
  intro cs rest number h hne more
  rcases habsorb : absorb Number.maxUnsigned digits cs with ⟨value, left⟩
  simp only [readFraction, habsorb] at h ⊢
  have hleft : left ≠ [] := by
    rintro rfl
    simp only [List.head?_nil, Option.map_none, Option.getD_none, Bool.false_eq_true, if_false] at h
    split at h
    · cases h
    · exact hne (floatAt_ok h).1
  simp only [absorb_append habsorb hleft, head_append hleft, List.length_append,
    Nat.add_sub_add_right]
  split at h
  · rename_i hdigit
    have hspan : left.dropWhile isDigit ≠ [] := by
      intro hnil
      rw [hnil] at h
      exact hne (readFloatEnd_nil h)
    rw [if_pos hdigit, dropWhile_append hspan]
    exact settled_readFloatEnd h hne more
  · rename_i hdigit
    rw [if_neg hdigit]
    split at h
    · cases h
    · rename_i htaken
      rw [if_neg htaken]
      exact settled_readFloatEnd h hne more

private theorem readNumberEnd_cons {c : Char} (hpoint : c ≠ '.') (beyond : Option Nat)
    (cs : List Char) : readNumberEnd isNegative digits beyond (c :: cs) =
      if beyond = none ∧ isExponentMark c = false then
        .ok (Number.ofDigits isNegative digits, c :: cs)
      else readFloatEnd isNegative digits (beyond.getD 0) (c :: cs) := by
  rw [readNumberEnd.eq_def]
  split
  · rename_i h
    exact absurd (List.cons.inj h).1 hpoint
  · rw [List.head?_cons, Option.map_some, Option.getD_some]
    cases beyond with
    | none => cases isExponentMark c <;> rfl
    | some _ => rfl

private theorem readNumberEnd_nil {beyond : Option Nat}
    (h : readNumberEnd isNegative digits beyond [] = .ok (number, rest)) : rest = [] := by
  cases beyond with
  | none =>
    cases h
    rfl
  | some _ => exact readFloatEnd_nil h

private theorem settled_readNumberEnd {beyond : Option Nat} :
    Settled (readNumberEnd isNegative digits beyond) := by
  intro cs rest number h hne more
  rcases cs with _ | ⟨c, cs⟩
  · exact absurd (readNumberEnd_nil h) hne
  by_cases hpoint : c = '.'
  · subst hpoint
    exact settled_readFraction h hne more
  rw [List.cons_append]
  rw [readNumberEnd_cons hpoint] at h ⊢
  split_ifs at h ⊢ with hwhole
  · cases h
    rfl
  · exact settled_readFloatEnd h hne more

theorem settled_readNumber : Settled (readNumber isNegative) := by
  intro cs rest number h hne more
  rcases cs with _ | ⟨c, cs⟩
  · cases h
  rw [List.cons_append]
  by_cases hzero : c = '0'
  · subst hzero
    simp only [readNumber] at h ⊢
    have hcs : cs ≠ [] := by
      rintro rfl
      rw [List.head?_nil, if_neg (by decide)] at h
      exact hne (readNumberEnd_nil h)
    rw [head_append hcs]
    split_ifs at h ⊢
    exact settled_readNumberEnd h hne more
  cases hdigit : isDigit c with
  | false =>
    rw [readNumber, digit?_of_not_isDigit hdigit] at h
    · cases h
    · exact hzero
  | true =>
    rcases habsorb : absorb Number.maxUnsigned (c.toNat - '0'.toNat) cs with ⟨value, left⟩
    rw [readNumber_cons hdigit hzero habsorb] at h
    have hspan : left.dropWhile isDigit ≠ [] := by
      intro hnil
      rw [hnil] at h
      exact hne (readNumberEnd_nil h)
    have hleft : left ≠ [] := by
      rintro rfl
      exact hspan rfl
    rw [readNumber_cons hdigit hzero (absorb_append habsorb hleft more), takeWhile_append hspan,
      dropWhile_append hspan]
    exact settled_readNumberEnd h hne more

end Number

section Skip

variable {cs rest : List Char}

private theorem skipExponent_ok_iff : skipExponent cs = .ok rest ↔
    ∃ sign d ds, (sign = [] ∨ sign = ['+'] ∨ sign = ['-']) ∧ isDigit d = true ∧
      cs = sign ++ d :: ds ∧ rest = ds.dropWhile isDigit := by
  constructor
  · intro h
    unfold skipExponent at h
    simp only at h
    split at h
    · cases h
    · rename_i d ds hleft
      split_ifs at h with hd
      cases h
      split at hleft
      · exact ⟨['+'], d, ds, .inr (.inl rfl), hd, by rw [hleft]; rfl, rfl⟩
      · exact ⟨['-'], d, ds, .inr (.inr rfl), hd, by rw [hleft]; rfl, rfl⟩
      · exact ⟨[], d, ds, .inl rfl, hd, hleft, rfl⟩
  · rintro ⟨sign, d, ds, hsign, hd, rfl, rfl⟩
    rcases hsign with rfl | rfl | rfl
    · exact skipExponent_digit hd ds
    · exact if_pos hd
    · exact if_pos hd

private theorem passes_skipExponent : Passes skipExponent skipExponent := by
  intro cs rest h hne more
  obtain ⟨sign, d, ds, hsign, hd, rfl, rfl⟩ := skipExponent_ok_iff.mp h
  rw [skipExponent_ok_iff]
  exact ⟨sign, d, ds ++ more, hsign, hd, by simp, (dropWhile_append hne more).symm⟩

private theorem passes_skipNumberEnd : Passes skipNumberEnd skipNumberEnd := by
  intro cs rest h hne more
  rcases cs with _ | ⟨c, cs⟩
  · cases h
    exact absurd rfl hne
  rw [List.cons_append]
  rw [skipNumberEnd] at h ⊢
  split_ifs at h ⊢
  · exact passes_skipExponent h hne more
  · cases h
    rfl

private theorem passes_skipFraction : Passes skipFraction skipFraction := by
  intro cs rest h hne more
  rcases cs with _ | ⟨c, cs⟩
  · cases h
    exact absurd rfl hne
  by_cases hpoint : c = '.'
  · subst hpoint
    simp only [skipFraction, List.cons_append] at h ⊢
    have hcs : cs ≠ [] := by
      rintro rfl
      cases h
    rw [head_append hcs]
    split_ifs at h ⊢
    have hspan : cs.dropWhile isDigit ≠ [] := by
      intro hnil
      rw [hnil] at h
      cases h
      exact hne rfl
    rw [dropWhile_append hspan]
    exact passes_skipNumberEnd h hne more
  · have hend : ∀ cs, skipFraction (c :: cs) = skipNumberEnd (c :: cs) := by
      intro cs
      rw [skipFraction]
      exact fun _ h => hpoint (List.cons.inj h).1
    rw [List.cons_append]
    rw [hend] at h ⊢
    exact passes_skipNumberEnd h hne more

theorem passes_skipNumber : Passes skipNumber skipNumber := by
  intro cs rest h hne more
  rcases cs with _ | ⟨c, cs⟩
  · cases h
  by_cases hzero : c = '0'
  · subst hzero
    simp only [skipNumber, List.cons_append] at h ⊢
    have hcs : cs ≠ [] := by
      rintro rfl
      cases h
      exact hne rfl
    rw [head_append hcs]
    split_ifs at h ⊢
    exact passes_skipFraction h hne more
  · have hdigits : ∀ cs, skipNumber (c :: cs) =
        if isDigit c then skipFraction (cs.dropWhile isDigit)
        else .error (.at .invalidNumber (c :: cs)) := by
      intro cs
      rw [skipNumber]
      exact hzero
    rw [List.cons_append]
    rw [hdigits] at h ⊢
    split_ifs at h ⊢
    have hspan : cs.dropWhile isDigit ≠ [] := by
      intro hnil
      rw [hnil] at h
      cases h
      exact hne rfl
    rw [dropWhile_append hspan]
    exact passes_skipFraction h hne more

end Skip

end LaunchDist.Json
