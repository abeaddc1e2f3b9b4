import LaunchDist.Proofs.Json.Numeral
/-!
# Passing over values

A value that is written by the grammar is passed over up to its last character, however deep it nests,
as long as nothing follows that would go on with a number.
-/
namespace LaunchDist.Json

theorem isSpace_iff {c : Char} : isSpace c = true ↔ c = ' ' ∨ c = '\n' ∨ c = '\r' ∨ c = '\t' := by
  simp only [isSpace, Bool.or_eq_true, decide_eq_true_eq, or_assoc]
  exact or_congr_right (or_congr_right or_comm)

theorem skipSpace_blank {blank : List Char} (h : Blank blank) (cs : List Char) :
    skipSpace (blank ++ cs) = skipSpace cs := by
  induction blank with
  | nil => rfl
  | cons c blank ih =>
    rw [List.cons_append, skipSpace_cons_of_space (isSpace_iff.mpr (h c List.mem_cons_self))]
    exact ih fun d hd => h d (List.mem_cons_of_mem _ hd)

theorem skipSpace_skipSpace (cs : List Char) : skipSpace (skipSpace cs) = skipSpace cs := by
  induction cs with
  | nil => rfl
  | cons c cs ih =>
    cases hc : isSpace c with
    | true => rw [skipSpace_cons_of_space hc, ih]
    | false => rw [skipSpace_cons_of_not hc, skipSpace_cons_of_not hc]

theorem length_skipSpace_le (cs : List Char) : (skipSpace cs).length ≤ cs.length :=
  (List.dropWhile_sublist _).length_le

theorem endsNumber_blank {blank rest : List Char} (h : Blank blank) (hrest : EndsNumber rest) :
    EndsNumber (blank ++ rest) := by
  cases blank with
  | nil => exact hrest
  | cons c blank =>
    intro d hd
    obtain rfl := Option.some.inj hd
    rcases h c List.mem_cons_self with rfl | rfl | rfl | rfl
    all_goals exact ⟨by decide, by decide, by decide⟩

theorem endsNumber_cons {c : Char} (h : c ∈ [',', ']', '\x7d']) (rest : List Char) :
    EndsNumber (c :: rest) := by
  intro d hd
  obtain rfl := Option.some.inj hd
  simp only [List.mem_cons, List.not_mem_nil, or_false] at h
  rcases h with rfl | rfl | rfl
  all_goals exact ⟨by decide, by decide, by decide⟩

/-- Whether a value may be written with this character first. -/
def Opens : Value → Char → Prop
  | .null, c => c = 'n'
  | .boolean b, c => c = if b then 't' else 'f'
  | .number _, c => c = '-' ∨ isDigit c = true
  | .text _, c => c = '"'
  | .list _, c => c = '['
  | .object _, c => c = '\x7b'

theorem opens_of_written {v : Value} {cs : List Char} (h : Written (.value v) cs) :
    ∃ c rest, cs = c :: rest ∧ Opens v c := by
  cases h with
  | null => exact ⟨_, _, rfl, rfl⟩
  | true => exact ⟨_, _, rfl, rfl⟩
  | false => exact ⟨_, _, rfl, rfl⟩
  | number n =>
    rw [Numeral.chars]
    obtain ⟨d, ds, heq, hd⟩ := magnitude_eq_cons n
    split
    · exact ⟨_, _, rfl, .inl rfl⟩
    · exact ⟨d, ds, heq, .inr hd⟩
  | text h =>
    cases h
    exact ⟨_, _, rfl, rfl⟩
  | emptyList => exact ⟨_, _, rfl, rfl⟩
  | list => exact ⟨_, _, rfl, rfl⟩
  | emptyObject => exact ⟨_, _, rfl, rfl⟩
  | object => exact ⟨_, _, rfl, rfl⟩

theorem Opens.not_space {v : Value} {c : Char} (h : Opens v c) : isSpace c = false ∧ c ≠ ']' := by
  cases v with
  | null =>
    obtain rfl : c = 'n' := h
    exact ⟨rfl, by decide⟩
  | boolean b =>
    obtain rfl : c = if b then 't' else 'f' := h
    cases b <;> exact ⟨rfl, by decide⟩
  | number n =>
    rcases h with rfl | hd
    · exact ⟨rfl, by decide⟩
    · refine ⟨isSpace_of_isDigit hd, ?_⟩
      rintro rfl
      cases hd
  | text s =>
    obtain rfl : c = '"' := h
    exact ⟨rfl, by decide⟩
  | list vs =>
    obtain rfl : c = '[' := h
    exact ⟨rfl, by decide⟩
  | object ms =>
    obtain rfl : c = '\x7b' := h
    exact ⟨rfl, by decide⟩

theorem skipSpace_value {v : Value} {cs : List Char} (h : Written (.value v) cs) (rest : List Char) :
    skipSpace (cs ++ rest) = cs ++ rest := by
  obtain ⟨c, cs', rfl, hc⟩ := opens_of_written h
  exact skipSpace_cons_of_not hc.not_space.1 _

theorem skipSpace_quotes {s : String} {cs : List Char} (h : Quotes s cs) (rest : List Char) :
    skipSpace (cs ++ rest) = cs ++ rest := by
  cases h
  exact skipSpace_cons_of_not (by decide) _

theorem elements_cases {vs : List Value} {cs : List Char} (h : Written (.elements vs) cs) :
    ∃ v later before value after tail, vs = v :: later ∧ cs = before ++ (value ++ (after ++ tail)) ∧
      Blank before ∧ Written (.value v) value ∧ Blank after ∧
      (later = [] ∧ tail = [] ∨ ∃ ds, tail = ',' :: ds ∧ Written (.elements later) ds) := by
  cases h with
  | @lastElement v _ h =>
    cases h with
    | @element _ before value after hbefore h hafter =>
      exact ⟨v, [], before, value, after, [], rfl, by simp, hbefore, h, hafter, .inl ⟨rfl, rfl⟩⟩
  | @elements v vs _ ds h hrest =>
    cases h with
    | @element _ before value after hbefore h hafter =>
      exact ⟨v, vs, before, value, after, ',' :: ds, rfl, by simp, hbefore, h, hafter,
        .inr ⟨ds, rfl, hrest⟩⟩

theorem members_cases {ms : List (String × Value)} {cs : List Char} (h : Written (.members ms) cs) :
    ∃ key v later before quoted middle value after tail, ms = (key, v) :: later ∧
      cs = before ++ (quoted ++ (middle ++ (value ++ (after ++ tail)))) ∧ Blank before ∧
      Quotes key quoted ∧ (∃ gap gap', Blank gap ∧ Blank gap' ∧ middle = gap ++ ':' :: gap') ∧
      Written (.value v) value ∧ Blank after ∧
      (later = [] ∧ tail = [] ∨ ∃ ds, tail = ',' :: ds ∧ Written (.members later) ds) := by
  have hmember : ∀ {key v cs}, Written (.member key v) cs → ∃ before quoted middle value after,
      cs = before ++ (quoted ++ (middle ++ (value ++ after))) ∧ Blank before ∧ Quotes key quoted ∧
      (∃ gap gap', Blank gap ∧ Blank gap' ∧ middle = gap ++ ':' :: gap') ∧
      Written (.value v) value ∧ Blank after := by
    intro key v cs h
    cases h with
    | @member _ _ before quoted gap _ hbefore hkey hgap h =>
      cases h with
      | @element _ gap' value after hgap' h hafter =>
        exact ⟨before, quoted, gap ++ ':' :: gap', value, after, by simp, hbefore, hkey,
          ⟨gap, gap', hgap, hgap', rfl⟩, h, hafter⟩
  cases h with
  | @lastMember key v _ h =>
    obtain ⟨before, quoted, middle, value, after, rfl, hbefore, hkey, hmiddle, hvalue, hafter⟩ :=
      hmember h
    exact ⟨key, v, [], before, quoted, middle, value, after, [], rfl, by simp, hbefore, hkey, hmiddle,
      hvalue, hafter, .inl ⟨rfl, rfl⟩⟩
  | @members key v ms _ ds h hrest =>
    obtain ⟨before, quoted, middle, value, after, rfl, hbefore, hkey, hmiddle, hvalue, hafter⟩ :=
      hmember h
    exact ⟨key, v, ms, before, quoted, middle, value, after, ',' :: ds, rfl, by simp, hbefore, hkey,
      hmiddle, hvalue, hafter, .inr ⟨ds, rfl, hrest⟩⟩

theorem skipSpace_elements {vs : List Value} {cs : List Char} (h : Written (.elements vs) cs)
    (rest : List Char) : ∃ c u, skipSpace (cs ++ rest) = c :: u ∧ c ≠ ']' := by
  obtain ⟨v, _, before, value, after, tail, _, rfl, hbefore, hvalue, _, _⟩ := elements_cases h
  obtain ⟨c, cs, rfl, hc⟩ := opens_of_written hvalue
  refine ⟨c, cs ++ (after ++ tail) ++ rest, ?_, hc.not_space.2⟩
  rw [List.append_assoc, skipSpace_blank hbefore]
  exact skipSpace_cons_of_not hc.not_space.1 _

theorem skipSpace_members {ms : List (String × Value)} {cs : List Char}
    (h : Written (.members ms) cs) (rest : List Char) : ∃ u, skipSpace (cs ++ rest) = '"' :: u := by
  obtain ⟨_, _, _, before, quoted, middle, value, after, tail, _, rfl, hbefore, hkey, _⟩ :=
    members_cases h
  cases hkey with
  | @mk xs _ =>
    refine ⟨xs ++ ['"'] ++ (middle ++ (value ++ (after ++ tail))) ++ rest, ?_⟩
    rw [List.append_assoc, skipSpace_blank hbefore]
    exact skipSpace_cons_of_not (by decide) _

/-- How the texts of phrases are passed over, given their length as fuel. -/
private def Skips : Phrase → List Char → Prop
  | .value _, cs => ∀ depth t rest, skipSpace t = cs ++ rest → cs.length ≤ depth →
    EndsNumber rest → skipNested (depth + 1) t = .ok rest
  | .element _, cs => ∀ depth t rest, skipSpace t = skipSpace (cs ++ rest) → cs.length ≤ depth →
    EndsNumber rest → ∃ left, skipNested (depth + 1) t = .ok left ∧ skipSpace left = skipSpace rest
  | .elements _, cs => ∀ depth limit t rest, skipSpace t = skipSpace (cs ++ ']' :: rest) →
    cs.length ≤ depth → cs.length ≤ limit → skipItems (skipNested (depth + 1)) (limit + 1) t = .ok rest
  | .member _ _, cs => ∀ depth t rest, skipSpace t = skipSpace (cs ++ rest) → cs.length ≤ depth →
    EndsNumber rest → ∃ u left, skipKey t = .ok u ∧ skipNested (depth + 1) u = .ok left ∧
      skipSpace left = skipSpace rest
  | .members _, cs => ∀ depth limit t rest, skipSpace t = skipSpace (cs ++ '\x7d' :: rest) →
    cs.length ≤ depth → cs.length ≤ limit →
    skipMembers (skipNested (depth + 1)) (limit + 1) t = .ok rest

section Nested

variable {depth : Nat} {cs left items : List Char} {c : Char}

theorem skipNested_digit (hcs : skipSpace cs = c :: left) (hc : isDigit c = true) :
    skipNested (depth + 1) cs = skipNumber (c :: left) := by
  have hne : ∀ d, isDigit d = false → c ≠ d := by
    rintro d hd rfl
    rw [hc] at hd
    cases hd
  rw [skipNested, hcs]
  split
  case h_9 h =>
    obtain ⟨rfl, rfl⟩ := List.cons.inj h
    exact if_pos hc
  case h_1 h => cases h
  all_goals
    rename_i h
    exact absurd (List.cons.inj h).1 (hne _ rfl)

theorem skipNested_list (hcs : skipSpace cs = '[' :: left) (hleft : skipSpace left = c :: items)
    (hc : c ≠ ']') :
    skipNested (depth + 1) cs = skipItems (skipNested depth) depth (c :: items) := by
  rw [skipNested, hcs]
  simp only [hleft]
  split
  · contradiction
  · rename_i h
    exact absurd (List.cons.inj h).1 hc
  · rfl

theorem skipNested_object (hcs : skipSpace cs = '\x7b' :: left)
    (hleft : skipSpace left = c :: items) (hc : c ≠ '\x7d') :
    skipNested (depth + 1) cs = skipMembers (skipNested depth) depth (c :: items) := by
  rw [skipNested, hcs]
  simp only [hleft]
  split
  · contradiction
  · rename_i h
    exact absurd (List.cons.inj h).1 hc
  · rfl

end Nested

private theorem skipNested_number {n : Numeral} {t rest : List Char} (depth : Nat)
    (ht : skipSpace t = n.chars ++ rest) (hrest : EndsNumber rest) :
    skipNested (depth + 1) t = .ok rest := by
  have hskip := skipNumber_magnitude n hrest
  rw [Numeral.chars] at ht
  split_ifs at ht with hn
  · rw [skipNested, ht]
    exact hskip
  · obtain ⟨d, ds, heq, hd⟩ := magnitude_eq_cons n
    rw [heq, List.cons_append] at hskip ht
    rw [skipNested_digit ht hd, hskip]

section Step

variable {skipItem : List Char → Except Fault (List Char)} {t u left rest : List Char} (limit : Nat)

private theorem skipItems_more (h : skipItem t = .ok left) (hleft : skipSpace left = ',' :: u) :
    skipItems skipItem (limit + 1) t = skipItems skipItem limit u := by
  rw [skipItems, h]
  simp only [hleft]

private theorem skipItems_end (h : skipItem t = .ok left) (hleft : skipSpace left = ']' :: rest) :
    skipItems skipItem (limit + 1) t = .ok rest := by
  rw [skipItems, h]
  simp only [hleft]

private theorem skipMembers_more {key : List Char} (hkey : skipKey t = .ok key)
    (h : skipItem key = .ok left) (hleft : skipSpace left = ',' :: u) :
    skipMembers skipItem (limit + 1) t = skipMembers skipItem limit u := by
  rw [skipMembers, hkey]
  simp only [h, hleft]

private theorem skipMembers_end {key : List Char} (hkey : skipKey t = .ok key)
    (h : skipItem key = .ok left) (hleft : skipSpace left = '\x7d' :: rest) :
    skipMembers skipItem (limit + 1) t = .ok rest := by
  rw [skipMembers, hkey]
  simp only [h, hleft]

end Step

theorem skipKey_quotes {key : String} {quoted gap t u : List Char} (hkey : Quotes key quoted)
    (hgap : Blank gap) (ht : skipSpace t = quoted ++ (gap ++ ':' :: u)) : skipKey t = .ok u := by
  cases hkey with
  | mk hs =>
    rw [skipKey, ht]
    simp only [List.cons_append, List.append_assoc, List.nil_append, skipString_of_spellsAll hs]
    rw [skipColon, skipSpace_blank hgap, skipSpace_cons_of_not (by decide)]
    rfl

private theorem skips_of_written {phrase : Phrase} {cs : List Char} (h : Written phrase cs) :
    Skips phrase cs := by
  induction h with
  | null | true | false =>
    intro depth t rest ht _ _
    rw [skipNested, ht]
    rfl
  | number n =>
    intro depth t rest ht _ hrest
    exact skipNested_number depth ht hrest
  | text h =>
    intro depth t rest ht _ _
    cases h with
    | mk hs =>
      rw [skipNested, ht]
      simpa using skipString_of_spellsAll hs rest
  | @emptyList blank hblank =>
    intro depth t rest ht _ _
    have hskip : skipSpace (blank ++ ']' :: rest) = ']' :: rest := by
      rw [skipSpace_blank hblank, skipSpace_cons_of_not (by decide)]
    rw [skipNested, ht]
    simp only [List.cons_append, List.append_assoc, List.nil_append, hskip]
  | @list vs cs h ih =>
    intro depth t rest ht hlen _
    rw [List.length_cons, List.length_append, List.length_singleton] at hlen
    obtain ⟨depth, rfl⟩ : ∃ d, depth = d + 1 := ⟨depth - 1, by omega⟩
    obtain ⟨c, u, hskip, hc⟩ := skipSpace_elements h (']' :: rest)
    have hitems := ih depth depth (c :: u) rest (by rw [← hskip, skipSpace_skipSpace]) (by omega)
      (by omega)
    rw [List.cons_append, List.append_assoc, List.singleton_append] at ht
    rw [skipNested_list ht hskip hc, hitems]
  | @emptyObject blank hblank =>
    intro depth t rest ht _ _
    have hskip : skipSpace (blank ++ '\x7d' :: rest) = '\x7d' :: rest := by
      rw [skipSpace_blank hblank, skipSpace_cons_of_not (by decide)]
    rw [skipNested, ht]
    simp only [List.cons_append, List.append_assoc, List.nil_append, hskip]
  | @object ms cs h ih =>
    intro depth t rest ht hlen _
    rw [List.length_cons, List.length_append, List.length_singleton] at hlen
    obtain ⟨depth, rfl⟩ : ∃ d, depth = d + 1 := ⟨depth - 1, by omega⟩
    obtain ⟨u, hskip⟩ := skipSpace_members h ('\x7d' :: rest)
    have hmembers := ih depth depth ('"' :: u) rest (by rw [← hskip, skipSpace_skipSpace]) (by omega)
      (by omega)
    rw [List.cons_append, List.append_assoc, List.singleton_append] at ht
    rw [skipNested_object ht hskip (by decide), hmembers]
  | @element v before value after hbefore h hafter ih =>
    intro depth t rest ht hlen hrest
    have hvalue : skipSpace t = value ++ (after ++ rest) := by
      rw [ht, List.append_assoc, skipSpace_blank hbefore, List.append_assoc, skipSpace_value h]
    have hle : value.length ≤ depth := by
      simp only [List.length_append] at hlen
      omega
    exact ⟨after ++ rest, ih depth t _ hvalue hle (endsNumber_blank hafter hrest),
      skipSpace_blank hafter rest⟩
  | lastElement h ih =>
    intro depth limit t rest ht hlen _
    obtain ⟨left, hskip, hleft⟩ := ih depth t _ ht hlen (endsNumber_cons (by decide) rest)
    rw [skipSpace_cons_of_not (by decide)] at hleft
    exact skipItems_end limit hskip hleft
  | @elements v vs cs ds h hrest ih ihrest =>
    intro depth limit t rest ht hlen hlimit
    rw [List.length_append, List.length_cons] at hlen hlimit
    obtain ⟨limit, rfl⟩ : ∃ k, limit = k + 1 := ⟨limit - 1, by omega⟩
    rw [List.append_assoc, List.cons_append] at ht
    obtain ⟨left, hskip, hleft⟩ := ih depth t _ ht (by omega) (endsNumber_cons (by decide) _)
    rw [skipSpace_cons_of_not (by decide)] at hleft
    rw [skipItems_more (limit + 1) hskip hleft]
    exact ihrest depth limit _ rest rfl (by omega) (by omega)
  | @member key v before quoted gap cs hbefore hkey hgap h ih =>
    intro depth t rest ht hlen hrest
    have hquoted : skipSpace t = quoted ++ (gap ++ ':' :: (cs ++ rest)) := by
      rw [ht, List.append_assoc, skipSpace_blank hbefore, List.append_assoc, skipSpace_quotes hkey,
        List.append_assoc, List.cons_append]
    simp only [List.length_append, List.length_cons] at hlen
    obtain ⟨left, hskip, hleft⟩ := ih depth (cs ++ rest) rest rfl (by omega) hrest
    exact ⟨_, left, skipKey_quotes hkey hgap hquoted, hskip, hleft⟩
  | lastMember h ih =>
    intro depth limit t rest ht hlen _
    obtain ⟨u, left, hkey, hskip, hleft⟩ := ih depth t _ ht hlen (endsNumber_cons (by decide) rest)
    rw [skipSpace_cons_of_not (by decide)] at hleft
    exact skipMembers_end limit hkey hskip hleft
  | @members key v ms cs ds h hrest ih ihrest =>
    intro depth limit t rest ht hlen hlimit
    rw [List.length_append, List.length_cons] at hlen hlimit
    obtain ⟨limit, rfl⟩ : ∃ k, limit = k + 1 := ⟨limit - 1, by omega⟩
    rw [List.append_assoc, List.cons_append] at ht
    obtain ⟨u, left, hkey, hskip, hleft⟩ := ih depth t _ ht (by omega) (endsNumber_cons (by decide) _)
    rw [skipSpace_cons_of_not (by decide)] at hleft
    rw [skipMembers_more (limit + 1) hkey hskip hleft]
    exact ihrest depth limit _ rest rfl (by omega) (by omega)

theorem skipValue_of_written {v : Value} {cs t rest : List Char} (h : Written (.value v) cs)
    (ht : skipSpace t = cs ++ rest) (hrest : EndsNumber rest) : skipValue t = .ok rest := by
  have hle : (cs ++ rest).length ≤ t.length := ht ▸ length_skipSpace_le t
  rw [List.length_append] at hle
  exact skips_of_written h t.length t rest ht (by omega) hrest

end LaunchDist.Json
