import LaunchDist.Proofs.Json.Scalar
/-!
# Reading numbers

A number is read as a whole one if it is written in digits alone and fits a word of 64 bits, and never
otherwise. One that is passed over may be written in any way.
-/
namespace LaunchDist.Json

theorem isDigit_eq (c : Char) : isDigit c = c.isDigit := by
  rw [Bool.eq_iff_iff, isDigit, digit?, Char.isDigit, Bool.and_eq_true, decide_eq_true_eq,
    decide_eq_true_eq]
  by_cases h : '0' ≤ c ∧ c ≤ '9'
  · rw [if_pos h]
    exact ⟨fun _ => h, fun _ => rfl⟩
  · rw [if_neg h]
    exact ⟨fun h => absurd h (by decide), fun h' => absurd h' h⟩

private theorem digit?_of_isDigit {c : Char} (h : isDigit c = true) :
    digit? c = some (c.toNat - '0'.toNat) := by
  rw [isDigit, digit?] at h
  split_ifs at h with hc
  · exact if_pos hc
  · cases h

theorem digit?_of_not_isDigit {c : Char} (h : isDigit c = false) : digit? c = none := by
  rwa [isDigit, Option.isSome_eq_false_iff, Option.isNone_iff_eq_none] at h

/-- Whether no digit stands first. -/
def EndsDigits (rest : List Char) : Prop :=
  ∀ c ∈ rest.head?, isDigit c = false

/-- Whether nothing that goes on with a number stands first. -/
def EndsNumber (rest : List Char) : Prop :=
  ∀ c ∈ rest.head?, isDigit c = false ∧ isExponentMark c = false ∧ c ≠ '.'

theorem EndsNumber.endsDigits {rest : List Char} (h : EndsNumber rest) : EndsDigits rest :=
  fun c hc => (h c hc).1

private theorem le_ofDigitChars (ds : List Char) (init : Nat) :
    init ≤ Nat.ofDigitChars 10 ds init := by
  induction ds generalizing init with
  | nil => exact Nat.le_refl _
  | cons d ds ih =>
    rw [Nat.ofDigitChars_cons]
    exact Nat.le_trans (by omega) (ih _)

private theorem absorb_cons (bound value : Nat) {d : Char} (hd : isDigit d = true) (cs : List Char) :
    absorb bound value (d :: cs) =
      if value * 10 + (d.toNat - '0'.toNat) ≤ bound then
        absorb bound (value * 10 + (d.toNat - '0'.toNat)) cs
      else (value, d :: cs) := by
  rw [absorb, digit?_of_isDigit hd]

theorem EndsDigits.head {tail : List Char} (ht : EndsDigits tail) :
    (tail.head?.map isDigit).getD false = false := by
  cases tail with
  | nil => rfl
  | cons c tail => exact ht c rfl

theorem EndsDigits.span {tail : List Char} (ht : EndsDigits tail) :
    tail.takeWhile isDigit = [] ∧ tail.dropWhile isDigit = tail := by
  cases tail with
  | nil => exact ⟨rfl, rfl⟩
  | cons c tail =>
    have hc := ht c rfl
    exact ⟨List.takeWhile_cons_of_neg (by simp [hc]), List.dropWhile_cons_of_neg (by simp [hc])⟩

section Digits

variable {ds : List Char} (hd : ∀ c ∈ ds, isDigit c = true) {tail : List Char}

include hd

theorem dropWhile_digits (ht : EndsDigits tail) : (ds ++ tail).dropWhile isDigit = tail := by
  rw [List.dropWhile_append_of_pos hd, ht.span.2]

private theorem absorb_fits (ht : EndsDigits tail) (bound value : Nat)
    (hb : Nat.ofDigitChars 10 ds value ≤ bound) :
    absorb bound value (ds ++ tail) = (Nat.ofDigitChars 10 ds value, tail) := by
  induction ds generalizing value with
  | nil =>
    rw [List.nil_append, Nat.ofDigitChars_nil]
    cases tail with
    | nil => rfl
    | cons c tail => rw [absorb, digit?_of_not_isDigit (ht c rfl)]
  | cons d ds ih =>
    rw [Nat.ofDigitChars_cons, Nat.mul_comm] at hb ⊢
    have hle := le_ofDigitChars ds (value * 10 + (d.toNat - '0'.toNat))
    rw [List.cons_append, absorb_cons _ _ (hd d List.mem_cons_self), if_pos (Nat.le_trans hle hb)]
    exact ih (fun c hc => hd c (List.mem_cons_of_mem _ hc)) _ hb

private theorem absorb_stops (tail : List Char) (bound value : Nat) (hv : value ≤ bound)
    (hb : bound < Nat.ofDigitChars 10 ds value) :
    ∃ v d rest, absorb bound value (ds ++ tail) = (v, d :: (rest ++ tail)) ∧
      ∀ c ∈ d :: rest, isDigit c = true := by
  induction ds generalizing value with
  | nil => exact absurd hb (Nat.not_lt.mpr hv)
  | cons d ds ih =>
    rw [Nat.ofDigitChars_cons, Nat.mul_comm] at hb
    rw [List.cons_append, absorb_cons _ _ (hd d List.mem_cons_self)]
    by_cases hfits : value * 10 + (d.toNat - '0'.toNat) ≤ bound
    · rw [if_pos hfits]
      exact ih (fun c hc => hd c (List.mem_cons_of_mem _ hc)) _ hfits hb
    · rw [if_neg hfits]
      exact ⟨value, d, ds, rfl, hd⟩

end Digits

private theorem head_toDigits (n : Nat) (h : 0 < n) : (Nat.toDigits 10 n).head? ≠ some '0' := by
  induction n using Nat.strongRecOn with
  | _ n ih =>
    by_cases hn : n < 10
    · rw [Nat.toDigits_of_lt_base hn]
      have : ∀ m < 10, 0 < m → [Nat.digitChar m].head? ≠ some '0' := by decide
      exact this n hn h
    · rw [Nat.toDigits_of_base_le (by decide) (by omega), List.head?_append]
      have hne : (Nat.toDigits 10 (n / 10)).head? ≠ none := by
        simp [Nat.toDigits_ne_nil]
      obtain ⟨c, hc⟩ := Option.ne_none_iff_exists'.mp hne
      rw [hc, Option.some_or, ← hc]
      exact ih (n / 10) (by omega) (by omega)

theorem toDigits_eq_cons (n : Nat) :
    ∃ d ds, Nat.toDigits 10 n = d :: ds ∧ ∀ c ∈ d :: ds, isDigit c = true := by
  obtain ⟨d, ds, h⟩ := List.exists_cons_of_ne_nil (Nat.toDigits_ne_nil (n := n) (b := 10))
  refine ⟨d, ds, h, ?_⟩
  rw [← h]
  intro c hc
  rw [isDigit_eq]
  exact Nat.isDigit_of_mem_toDigits (by decide) (by decide) hc

theorem isSpace_of_isDigit {c : Char} (h : isDigit c = true) : isSpace c = false := by
  rw [isDigit_eq, Char.isDigit_iff_toNat] at h
  have hn : ∀ d : Char, d.toNat < 48 → c ≠ d := by
    rintro d hd rfl
    have := h.1
    simp at this
    omega
  simp [isSpace, hn]

section Whole

variable {isNegative : Bool} {n : Nat} {tail : List Char}

theorem readNumber_cons {d : Char} (hd : isDigit d = true) (h0 : d ≠ '0') {cs rest : List Char}
    {v : Nat} (h : absorb Number.maxUnsigned (d.toNat - '0'.toNat) cs = (v, rest)) :
    readNumber isNegative (d :: cs) = readNumberEnd isNegative v
      (if rest.takeWhile isDigit = [] then none else some (rest.takeWhile isDigit).length)
      (rest.dropWhile isDigit) := by
  rw [readNumber]
  · rw [digit?_of_isDigit hd]
    simp only [h]
  · rintro rfl
    exact h0 rfl

private theorem toDigits_of_pos (hn : 0 < n) :
    ∃ d ds, Nat.toDigits 10 n = d :: ds ∧ (∀ c ∈ d :: ds, isDigit c = true) ∧ d ≠ '0' ∧
      Nat.ofDigitChars 10 ds (d.toNat - '0'.toNat) = n := by
  obtain ⟨d, ds, heq, hall⟩ := toDigits_eq_cons n
  have hhead := head_toDigits n hn
  have hval : Nat.ofDigitChars 10 (Nat.toDigits 10 n) 0 = n := Nat.ofDigitChars_ten_toDigits
  rw [heq] at hhead hval
  rw [Nat.ofDigitChars_cons, Nat.mul_zero, Nat.zero_add] at hval
  refine ⟨d, ds, heq, hall, ?_, hval⟩
  rintro rfl
  exact hhead rfl

theorem readNumber_fits (hn : n ≤ Number.maxUnsigned) (ht : EndsDigits tail) :
    readNumber isNegative (Nat.toDigits 10 n ++ tail) = readNumberEnd isNegative n none tail := by
  rcases Nat.eq_zero_or_pos n with rfl | hpos
  · rw [Nat.toDigits_zero, List.singleton_append, readNumber, ht.head, if_neg (by decide)]
  · obtain ⟨d, ds, heq, hall, h0, hval⟩ := toDigits_of_pos hpos
    obtain ⟨hd, hds⟩ := List.forall_mem_cons.mp hall
    have habsorb := absorb_fits hds ht Number.maxUnsigned (d.toNat - '0'.toNat)
      (Nat.le_trans (Nat.le_of_eq hval) hn)
    rw [heq, List.cons_append, readNumber_cons hd h0 habsorb, ht.span.1, ht.span.2, if_pos rfl, hval]

private theorem toNat_le_of_isDigit {d : Char} (hd : isDigit d = true) : d.toNat - '0'.toNat ≤ 9 := by
  rw [isDigit_eq, Char.isDigit_iff_toNat] at hd
  have : '0'.toNat = 48 := rfl
  have : '9'.toNat = 57 := rfl
  omega

theorem readNumber_exceeds (isNegative : Bool) (hn : Number.maxUnsigned < n) (ht : EndsDigits tail) :
    ∃ v k, readNumber isNegative (Nat.toDigits 10 n ++ tail) =
      readNumberEnd isNegative v (some k) tail := by
  obtain ⟨d, ds, heq, hall, h0, hval⟩ := toDigits_of_pos (Nat.zero_lt_of_lt hn)
  obtain ⟨hd, hds⟩ := List.forall_mem_cons.mp hall
  have hle : d.toNat - '0'.toNat ≤ Number.maxUnsigned := Nat.le_trans (toNat_le_of_isDigit hd) (by decide)
  obtain ⟨v, e, rest, habsorb, hrest⟩ := absorb_stops hds tail Number.maxUnsigned _ hle (hval.symm ▸ hn)
  rw [heq, List.cons_append, readNumber_cons hd h0 habsorb]
  have he : isDigit e = true := hrest e List.mem_cons_self
  rw [← List.cons_append, dropWhile_digits hrest ht, List.cons_append, List.takeWhile_cons_of_pos he,
    if_neg (List.cons_ne_nil _ _)]
  exact ⟨_, _, rfl⟩

end Whole

/-- Whether a reading yields no whole number without a sign. -/
private def NeverUnsigned (reading : Reading Number) : Prop :=
  ∀ u rest, reading ≠ .ok (.unsigned u, rest)

private theorem neverUnsigned_floatAt (isNegative : Bool) (digits : Nat) (exponent : Int)
    (rest : List Char) : NeverUnsigned (floatAt isNegative digits exponent rest) := by
  intro u rest' h
  rw [floatAt] at h
  split at h
  · cases h
  · cases h

private theorem neverUnsigned_readExponent (isNegative : Bool) (digits : Nat) (exponent : Int)
    (cs : List Char) : NeverUnsigned (readExponent isNegative digits exponent cs) := by
  intro u rest h
  unfold readExponent at h
  simp only at h
  repeat' split at h
  all_goals first
    | cases h
    | exact neverUnsigned_floatAt _ _ _ _ u rest h

private theorem neverUnsigned_readFloatEnd (isNegative : Bool) (digits : Nat) (exponent : Int)
    (cs : List Char) : NeverUnsigned (readFloatEnd isNegative digits exponent cs) := by
  intro u rest h
  unfold readFloatEnd at h
  split at h
  · exact neverUnsigned_floatAt _ _ _ _ u rest h
  · split at h
    · exact neverUnsigned_readExponent _ _ _ _ u rest h
    · exact neverUnsigned_floatAt _ _ _ _ u rest h

private theorem neverUnsigned_readFraction (isNegative : Bool) (digits : Nat) (exponent : Int)
    (cs : List Char) : NeverUnsigned (readFraction isNegative digits exponent cs) := by
  intro u rest h
  unfold readFraction at h
  simp only at h
  split at h
  · exact neverUnsigned_readFloatEnd _ _ _ _ u rest h
  · split at h
    · cases h
    · exact neverUnsigned_readFloatEnd _ _ _ _ u rest h

theorem readNumberEnd_unsigned {isNegative : Bool} {digits u : Nat} {beyond : Option Nat}
    {cs rest : List Char} (h : readNumberEnd isNegative digits beyond cs = .ok (.unsigned u, rest)) :
    isNegative = false ∧ beyond = none ∧ ∀ c ∈ cs.head?, c ≠ '.' ∧ isExponentMark c = false := by
  unfold readNumberEnd at h
  split at h
  · exact absurd h (neverUnsigned_readFraction _ _ _ _ u rest)
  · rename_i hpoint
    split at h
    · rename_i hmark
      refine ⟨?_, rfl, ?_⟩
      · cases isNegative with
        | false => rfl
        | true =>
          simp only [Number.ofDigits, Bool.not_true, Bool.false_eq_true, if_false, Except.ok.injEq,
            Prod.mk.injEq] at h
          split at h
          · cases h.1
          · cases h.1
      · intro c hc
        cases cs with
        | nil => cases hc
        | cons c' cs =>
          obtain rfl := Option.some.inj hc
          refine ⟨?_, hmark⟩
          rintro rfl
          exact hpoint cs rfl
    · exact absurd h (neverUnsigned_readFloatEnd _ _ _ _ u rest)

theorem readNumberEnd_whole (n : Nat) (rest : List Char) (h : EndsNumber rest) :
    readNumberEnd false n none rest = .ok (.unsigned n, rest) := by
  cases rest with
  | nil => rfl
  | cons c rest =>
    obtain ⟨_, he, hp⟩ := h c rfl
    rw [readNumberEnd.eq_def]
    split
    · rename_i heq
      exact absurd (List.cons.inj heq).1 hp
    · rw [List.head?_cons, Option.map_some, he]
      rfl

section Numerals

variable {rest : List Char}

private theorem exponentMark (e : Exponent) : isExponentMark e.mark = true := by
  rcases e.mark_eq with h | h
  · rw [h]
    rfl
  · rw [h]
    rfl

private theorem not_isDigit_of_mark {c : Char} (h : isExponentMark c = true) : isDigit c = false := by
  rw [isExponentMark, Bool.or_eq_true, decide_eq_true_eq, decide_eq_true_eq] at h
  rcases h with rfl | rfl
  · rfl
  · rfl

private theorem endsDigits_exponent (e? : Option Exponent) (h : EndsNumber rest) :
    EndsDigits (Numeral.exponentChars e? ++ rest) := by
  cases e? with
  | none => exact h.endsDigits
  | some e =>
    intro c hc
    obtain rfl := Option.some.inj hc
    exact not_isDigit_of_mark (exponentMark e)

private theorem endsDigits_tail (n : Numeral) (h : EndsNumber rest) : EndsDigits (n.tail ++ rest) := by
  rw [Numeral.tail, List.append_assoc]
  cases n.fraction? with
  | none => exact endsDigits_exponent n.exponent? h
  | some digits =>
    intro c hc
    obtain rfl := Option.some.inj hc
    rfl

private theorem tail_cases (n : Numeral) :
    n.fraction? = none ∧ n.exponent? = none ∨
      ∃ c cs, n.tail = c :: cs ∧ (c = '.' ∨ isExponentMark c = true) := by
  rw [Numeral.tail]
  cases hf : n.fraction? with
  | some digits => exact .inr ⟨'.', _, rfl, .inl rfl⟩
  | none =>
    cases he : n.exponent? with
    | some e => exact .inr ⟨e.mark, _, rfl, .inr (exponentMark e)⟩
    | none => exact .inl ⟨rfl, rfl⟩

/-- The word of 32 bits that a numeral stands for, if it is written in digits alone. -/
def Numeral.word? : Numeral → Option UInt32
  | ⟨false, n, none, none⟩ => if n < UInt32.size then some (UInt32.ofNat n) else none
  | _ => none

theorem Numeral.word?_eq_some_iff {n : Numeral} {v : UInt32} :
    n.word? = some v ↔ n = natural v.toNat := by
  constructor
  · intro h
    unfold Numeral.word? at h
    split at h
    · split at h
      · rename_i hlt
        obtain rfl := Option.some.inj h
        rw [UInt32.toNat_ofNat_of_lt' hlt]
        rfl
      · cases h
    · cases h
  · rintro rfl
    have hlt : v.toNat < UInt32.size := v.toNat_lt
    rw [natural, Numeral.word?, if_pos hlt, UInt32.ofNat_toNat]

private theorem toWord_eq_none {reading : Reading Number} (h : NeverUnsigned reading) :
    (toWord reading).toOption = none := by
  unfold toWord
  split
  · rfl
  · exact absurd rfl (h _ _)
  · rfl
  · rfl

/-- A sign, a fraction, an exponent or too many digits do not make a word. -/
private theorem neverUnsigned_readNumber (isNegative : Bool) (n : Numeral) (h : EndsNumber rest)
    (hn : isNegative = true ∨ ¬ (n.fraction? = none ∧ n.exponent? = none) ∨
      Number.maxUnsigned < n.whole) :
    NeverUnsigned (readNumber isNegative (n.magnitude ++ rest)) := by
  intro u rest' hread
  have ht := endsDigits_tail n h
  rw [Numeral.magnitude, List.append_assoc] at hread
  have hend : ∃ v beyond, readNumberEnd isNegative v beyond (n.tail ++ rest) = .ok (.unsigned u, rest') ∧
      (Number.maxUnsigned < n.whole → beyond ≠ none) := by
    by_cases hfits : n.whole ≤ Number.maxUnsigned
    · rw [readNumber_fits hfits ht] at hread
      exact ⟨_, _, hread, fun hlt => absurd hfits (Nat.not_le.mpr hlt)⟩
    · obtain ⟨v, k, heq⟩ := readNumber_exceeds isNegative (Nat.lt_of_not_le hfits) ht
      rw [heq] at hread
      exact ⟨v, some k, hread, fun _ => Option.some_ne_none k⟩
  obtain ⟨v, beyond, hend, hbeyond⟩ := hend
  obtain ⟨hsign, hnone, hhead⟩ := readNumberEnd_unsigned hend
  rcases hn with hneg | htail | hlt
  · rw [hsign] at hneg
    cases hneg
  · obtain ⟨c, cs, hcs, hc⟩ := (tail_cases n).resolve_left htail
    obtain ⟨hpoint, hmark⟩ := hhead c (by rw [hcs]; rfl)
    rcases hc with rfl | hc
    · exact hpoint rfl
    · rw [hmark] at hc
      cases hc
  · exact hbeyond hlt hnone

theorem magnitude_eq_cons (n : Numeral) :
    ∃ d ds, n.magnitude = d :: ds ∧ isDigit d = true := by
  obtain ⟨d, ds, heq, hall⟩ := toDigits_eq_cons n.whole
  exact ⟨d, ds ++ n.tail, by rw [Numeral.magnitude, heq]; rfl, hall d List.mem_cons_self⟩

private theorem readWord_eq (n : Numeral) {cs : List Char} (hcs : skipSpace cs = n.chars ++ rest) :
    readWord cs = toWord (readNumber n.isNegative (n.magnitude ++ rest)) := by
  rw [readWord, hcs, Numeral.chars]
  cases n.isNegative with
  | true => rfl
  | false =>
    obtain ⟨d, ds, heq, hd⟩ := magnitude_eq_cons n
    rw [if_neg (by decide), heq, List.cons_append]
    split
    · rename_i hm
      rw [(List.cons.inj hm).1] at hd
      cases hd
    · exact if_pos hd

theorem readWord_numeral (n : Numeral) (h : EndsNumber rest) {cs : List Char}
    (hcs : skipSpace cs = n.chars ++ rest) :
    (readWord cs).toOption = n.word?.map (·, rest) := by
  rw [readWord_eq n hcs]
  by_cases hn : n.isNegative = true ∨ ¬ (n.fraction? = none ∧ n.exponent? = none) ∨
      Number.maxUnsigned < n.whole
  · rw [toWord_eq_none (neverUnsigned_readNumber _ n h hn)]
    cases hw : n.word? with
    | none => rfl
    | some v =>
      obtain rfl := Numeral.word?_eq_some_iff.mp hw
      have hlt : v.toNat < UInt32.size := v.toNat_lt
      simp [Numeral.natural, Number.maxUnsigned, UInt32.size, UInt64.size] at hn hlt
      omega
  · rw [not_or, not_or, not_not, Bool.not_eq_true] at hn
    obtain ⟨isNegative, whole, fraction?, exponent?⟩ := n
    obtain ⟨rfl, ⟨rfl, rfl⟩, hfits⟩ := hn
    have hmagnitude : Numeral.magnitude ⟨false, whole, none, none⟩ ++ rest =
        Nat.toDigits 10 whole ++ rest := by simp [Numeral.magnitude, Numeral.tail,
          Numeral.fractionChars, Numeral.exponentChars]
    rw [hmagnitude, readNumber_fits (Nat.le_of_not_lt hfits) h.endsDigits, readNumberEnd_whole _ _ h,
      toWord, Numeral.word?]
    split
    · rfl
    · rfl

private theorem isDigit_digits (digits : Digits) : ∀ c ∈ digits.chars, isDigit c = true := by
  intro c hc
  rw [isDigit_eq]
  exact digits.isDigit c hc

theorem skipExponent_digit {d : Char} (hd : isDigit d = true) (cs : List Char) :
    skipExponent (d :: cs) = .ok (cs.dropWhile isDigit) := by
  have hplus : d ≠ '+' := by
    rintro rfl
    cases hd
  have hminus : d ≠ '-' := by
    rintro rfl
    cases hd
  unfold skipExponent
  simp [hplus, hminus, hd]

private theorem skipExponent_chars (e : Exponent) (h : EndsNumber rest) :
    skipExponent (e.sign ++ (e.digits.chars ++ rest)) = .ok rest := by
  obtain ⟨d, ds, heq⟩ := List.exists_cons_of_ne_nil e.digits.ne_nil
  have hall := isDigit_digits e.digits
  rw [heq] at hall ⊢
  obtain ⟨hd, hds⟩ := List.forall_mem_cons.mp hall
  have hskip : skipExponent (d :: (ds ++ rest)) = .ok rest := by
    rw [skipExponent_digit hd, dropWhile_digits hds h.endsDigits]
  rcases e.sign_eq with hs | hs | hs
  · rw [hs]
    exact hskip
  · rw [hs]
    change (if isDigit d then Except.ok ((ds ++ rest).dropWhile isDigit) else _) = _
    rw [if_pos hd, dropWhile_digits hds h.endsDigits]
  · rw [hs]
    change (if isDigit d then Except.ok ((ds ++ rest).dropWhile isDigit) else _) = _
    rw [if_pos hd, dropWhile_digits hds h.endsDigits]

private theorem skipNumberEnd_chars (e? : Option Exponent) (h : EndsNumber rest) :
    skipNumberEnd (Numeral.exponentChars e? ++ rest) = .ok rest := by
  cases e? with
  | none =>
    rw [Numeral.exponentChars, List.nil_append]
    cases rest with
    | nil => rfl
    | cons c rest => rw [skipNumberEnd, (h c rfl).2.1, if_neg (by decide)]
  | some e =>
    rw [Numeral.exponentChars, List.cons_append, skipNumberEnd, if_pos (exponentMark e),
      List.append_assoc, skipExponent_chars e h]

private theorem skipFraction_tail (n : Numeral) (h : EndsNumber rest) :
    skipFraction (n.tail ++ rest) = .ok rest := by
  have hend := skipNumberEnd_chars n.exponent? h
  rw [Numeral.tail, List.append_assoc]
  cases n.fraction? with
  | none =>
    rw [Numeral.fractionChars, List.nil_append]
    have hpoint : ∀ cs, Numeral.exponentChars n.exponent? ++ rest ≠ '.' :: cs := by
      intro cs heq
      cases he : n.exponent? with
      | none =>
        rw [he] at heq
        rw [show rest = '.' :: cs from heq] at h
        exact (h '.' rfl).2.2 rfl
      | some e =>
        rw [he] at heq
        have hmark := exponentMark e
        rw [(List.cons.inj heq).1] at hmark
        cases hmark
    unfold skipFraction
    split
    · rename_i heq
      exact absurd heq (hpoint _)
    · exact hend
  | some digits =>
    obtain ⟨d, ds, heq⟩ := List.exists_cons_of_ne_nil digits.ne_nil
    have hall := isDigit_digits digits
    rw [Numeral.fractionChars, List.cons_append, skipFraction,
      dropWhile_digits hall (endsDigits_exponent n.exponent? h), hend, if_pos]
    rw [heq] at hall ⊢
    exact hall d List.mem_cons_self

theorem skipNumber_magnitude (n : Numeral) (h : EndsNumber rest) :
    skipNumber (n.magnitude ++ rest) = .ok rest := by
  have ht := endsDigits_tail n h
  have htail := skipFraction_tail n h
  rw [Numeral.magnitude, List.append_assoc]
  rcases Nat.eq_zero_or_pos n.whole with hzero | hpos
  · rw [hzero, Nat.toDigits_zero, List.singleton_append, skipNumber, ht.head, if_neg (by decide), htail]
  · obtain ⟨d, ds, heq, hall, h0, _⟩ := toDigits_of_pos hpos
    obtain ⟨hd, hds⟩ := List.forall_mem_cons.mp hall
    rw [heq, List.cons_append, skipNumber]
    · rw [if_pos hd, dropWhile_digits hds ht, htail]
    · rintro rfl
      exact h0 rfl

end Numerals

end LaunchDist.Json
