import LaunchDist.Proofs.Json.Read
import LaunchDist.Proofs.Json.Settled
/-!
# Closed values

A list, an object or a record is closed by its last mark: it is read of every longer text, up to the same
mark. The length of a text bounds how far a reader goes, so this needs that a greater bound does no harm.
-/
namespace LaunchDist.Json

theorem skipColon_append {cs rest : List Char} (h : skipColon cs = .ok rest) (more : List Char) :
    skipColon (cs ++ more) = .ok (rest ++ more) := by
  rw [skipColon] at h ⊢
  split at h
  · cases h
  · rename_i hcs
    cases h
    rw [skipSpace_append_cons hcs]
    rfl
  · cases h

theorem skipKey_append {cs rest : List Char} (h : skipKey cs = .ok rest) (more : List Char) :
    skipKey (cs ++ more) = .ok (rest ++ more) := by
  rw [skipKey] at h ⊢
  split at h
  · cases h
  · rename_i left hcs
    rw [skipSpace_append_cons hcs]
    cases hkey : skipString left with
    | error fault =>
      rw [hkey] at h
      cases h
    | ok left' =>
      rw [hkey] at h
      simp only [skipString_append hkey]
      exact skipColon_append h more
  · cases h

section Items

variable {skipItem skipItem' : List Char → Except Fault (List Char)}
  (hitem : Passes skipItem skipItem') {limit limit' : Nat} {cs rest : List Char}

include hitem

theorem skipItems_append (h : skipItems skipItem limit cs = .ok rest) (hle : limit ≤ limit')
    (more : List Char) : skipItems skipItem' limit' (cs ++ more) = .ok (rest ++ more) := by
  induction limit generalizing limit' cs with
  | zero => cases h
  | succ limit ih =>
    obtain ⟨limit', rfl⟩ : ∃ k, limit' = k + 1 := ⟨limit' - 1, by omega⟩
    rw [skipItems] at h ⊢
    cases hskip : skipItem cs with
    | error fault =>
      rw [hskip] at h
      cases h
    | ok left =>
      rw [hskip] at h
      simp only at h
      have hleft : skipSpace left ≠ [] := by
        intro hnil
        rw [hnil] at h
        cases h
      rw [hitem hskip (by rintro rfl; exact hleft rfl)]
      simp only [skipSpace_append hleft]
      split at h
      · cases h
      · rename_i heq
        rw [heq]
        exact ih h (by omega)
      · rename_i heq
        cases h
        rw [heq]
        rfl
      · cases h

theorem skipMembers_append (h : skipMembers skipItem limit cs = .ok rest) (hle : limit ≤ limit')
    (more : List Char) : skipMembers skipItem' limit' (cs ++ more) = .ok (rest ++ more) := by
  induction limit generalizing limit' cs with
  | zero => cases h
  | succ limit ih =>
    obtain ⟨limit', rfl⟩ : ∃ k, limit' = k + 1 := ⟨limit' - 1, by omega⟩
    rw [skipMembers] at h ⊢
    cases hkey : skipKey cs with
    | error fault =>
      rw [hkey] at h
      cases h
    | ok value =>
      rw [hkey] at h
      simp only [skipKey_append hkey] at h ⊢
      cases hskip : skipItem value with
      | error fault =>
        rw [hskip] at h
        cases h
      | ok left =>
        rw [hskip] at h
        simp only at h
        have hleft : skipSpace left ≠ [] := by
          intro hnil
          rw [hnil] at h
          cases h
        rw [hitem hskip (by rintro rfl; exact hleft rfl)]
        simp only [skipSpace_append hleft]
        split at h
        · cases h
        · rename_i heq
          rw [heq]
          exact ih h (by omega)
        · rename_i heq
          cases h
          rw [heq]
          rfl
        · cases h

end Items

theorem passes_skipNested {depth depth' : Nat} (hle : depth ≤ depth') :
    Passes (skipNested depth) (skipNested depth') := by
  induction depth generalizing depth' with
  | zero =>
    intro cs rest h
    cases h
  | succ depth ih =>
    obtain ⟨depth', rfl⟩ : ∃ k, depth' = k + 1 := ⟨depth' - 1, by omega⟩
    have hdepth : depth ≤ depth' := by omega
    intro cs rest h hne more
    rw [skipNested] at h
    split at h
    case h_1 => cases h
    case h_2 hcs | h_3 hcs | h_4 hcs =>
      rw [skipNested, skipSpace_append_cons hcs]
      exact skipWord_append h more
    case h_5 hcs =>
      rw [skipNested, skipSpace_append_cons hcs]
      exact skipString_append h more
    case h_6 hcs =>
      rw [skipNested, skipSpace_append_cons hcs]
      exact passes_skipNumber h hne more
    case h_7 list hcs =>
      split at h
      · cases h
      · rename_i hend
        cases h
        rw [skipNested, skipSpace_append_cons hcs]
        simp only [skipSpace_append_cons hend]
      · rename_i hnil hend
        obtain ⟨c, items, hitems⟩ := List.exists_cons_of_ne_nil hnil
        have hc : c ≠ ']' := by
          rintro rfl
          exact hend _ hitems
        rw [hitems] at h
        rw [skipNested_list (skipSpace_append_cons hcs more) (skipSpace_append_cons hitems more) hc]
        exact skipItems_append (ih hdepth) h hdepth more
    case h_8 members hcs =>
      split at h
      · cases h
      · rename_i hend
        cases h
        rw [skipNested, skipSpace_append_cons hcs]
        simp only [skipSpace_append_cons hend]
      · rename_i hnil hend
        obtain ⟨c, items, hitems⟩ := List.exists_cons_of_ne_nil hnil
        have hc : c ≠ '\x7d' := by
          rintro rfl
          exact hend _ hitems
        rw [hitems] at h
        rw [skipNested_object (skipSpace_append_cons hcs more) (skipSpace_append_cons hitems more) hc]
        exact skipMembers_append (ih hdepth) h hdepth more
    case h_9 hcs =>
      split_ifs at h with hc
      rw [skipNested_digit (skipSpace_append_cons hcs more) hc]
      exact passes_skipNumber h hne more

theorem passes_skipValue : Passes skipValue skipValue := by
  intro cs rest h hne more
  exact passes_skipNested (by simp) h hne more

theorem closed_readText : Closed readText := by
  intro cs rest text h more
  rw [readText] at h ⊢
  split at h
  · rename_i hcs
    obtain ⟨chars, left, hstring, heq⟩ := andThen_eq_ok.mp h
    cases heq
    rw [skipSpace_append_cons hcs]
    simp only [closed_readString hstring]
    rfl
  · cases h

private theorem toWord_ok {reading : Reading Number} {word : UInt32} {rest : List Char}
    (h : toWord reading = .ok (word, rest)) :
    ∃ n, reading = .ok (n, rest) ∧ ∀ rest', toWord (.ok (n, rest')) = .ok (word, rest') := by
  unfold toWord at h
  split at h
  · cases h
  · split_ifs at h with hn
    cases h
    exact ⟨_, rfl, fun _ => if_pos hn⟩
  · cases h
  · cases h

private theorem settled_toWord {isNegative : Bool} :
    Settled fun cs => toWord (readNumber isNegative cs) := by
  intro cs rest word h hne more
  obtain ⟨n, hn, hword⟩ := toWord_ok h
  simp only [settled_readNumber hn hne more, hword]

private theorem readWord_unsigned {cs left : List Char} {c : Char} (hcs : skipSpace cs = c :: left)
    (hc : c ≠ '-') : readWord cs = if isDigit c then toWord (readNumber false (c :: left))
      else .error (mismatch "u32" (c :: left)) := by
  rw [readWord, hcs]
  split
  · rename_i h
    exact absurd (List.cons.inj h).1 hc
  · rfl

theorem settled_readWord : Settled readWord := by
  intro cs rest word h hne more
  rcases hcs : skipSpace cs with _ | ⟨c, left⟩
  · rw [readWord, hcs] at h
    cases h
  have hcs' := skipSpace_append_cons hcs more
  by_cases hc : c = '-'
  · subst hc
    rw [readWord, hcs] at h
    rw [readWord, hcs']
    exact settled_toWord h hne more
  · rw [readWord_unsigned hcs hc] at h
    rw [readWord_unsigned hcs' hc]
    split_ifs at h ⊢
    exact settled_toWord h hne more

section List

variable {α : Type} {readItem : List Char → Reading α} {limit limit' : Nat} {cs rest : List Char}
  {items : List α}

theorem readItems_cases (h : readItems readItem (limit + 1) cs = .ok (items, rest)) :
    ∃ a left, readItem cs = .ok (a, left) ∧ (skipSpace left = ']' :: rest ∧ items = [a] ∨
      ∃ u c next later, skipSpace left = ',' :: u ∧ skipSpace u = c :: next ∧ c ≠ ']' ∧
        readItems readItem limit (c :: next) = .ok (later, rest) ∧ items = a :: later) := by
  rw [readItems] at h
  obtain ⟨a, left, hread, h⟩ := andThen_eq_ok.mp h
  refine ⟨a, left, hread, ?_⟩
  split at h
  · cases h
  · rename_i hleft
    cases h
    exact .inl ⟨hleft, rfl⟩
  · rename_i u hleft
    split at h
    · cases h
    · cases h
    · rename_i hnil hend
      obtain ⟨later, _, hlater, heq⟩ := andThen_eq_ok.mp h
      cases heq
      obtain ⟨c, next, hu⟩ := List.exists_cons_of_ne_nil hnil
      refine .inr ⟨u, c, next, later, hleft, hu, ?_, hu ▸ hlater, rfl⟩
      rintro rfl
      exact hend _ hu
  · cases h

variable (hitem : Settled readItem)

include hitem

theorem readItems_append (h : readItems readItem limit cs = .ok (items, rest)) (hle : limit ≤ limit')
    (more : List Char) : readItems readItem limit' (cs ++ more) = .ok (items, rest ++ more) := by
  induction limit generalizing limit' cs items with
  | zero => cases h
  | succ limit ih =>
    obtain ⟨limit', rfl⟩ : ∃ k, limit' = k + 1 := ⟨limit' - 1, by omega⟩
    obtain ⟨a, left, hread, hcases⟩ := readItems_cases h
    have hleft : left ≠ [] := by
      rintro rfl
      rcases hcases with ⟨h, _⟩ | ⟨_, _, _, _, h, _⟩ <;> cases h
    have hread' := hitem hread hleft more
    rcases hcases with ⟨hend, rfl⟩ | ⟨u, c, next, later, hcomma, hu, hc, hlater, rfl⟩
    · exact readItems_end limit' hread' (skipSpace_append_cons hend more)
    · rw [readItems_more limit' hread' (skipSpace_append_cons hcomma more)
        (skipSpace_append_cons hu more) hc, ← List.cons_append, ih hlater (by omega)]
      rfl

theorem closed_readList : Closed (readList readItem) := by
  intro cs rest items h more
  rw [readList] at h
  split at h
  · rename_i left hcs
    have hcs' := skipSpace_append_cons hcs more
    split at h
    · cases h
    · rename_i hend
      cases h
      rw [readList, hcs']
      simp only [skipSpace_append_cons hend]
    · rename_i hnil hend
      obtain ⟨c, next, hleft⟩ := List.exists_cons_of_ne_nil hnil
      have hc : c ≠ ']' := by
        rintro rfl
        exact hend _ hleft
      rw [hleft] at h
      rw [readList_items hcs' (skipSpace_append_cons hleft more) hc]
      exact readItems_append hitem h (by simp) more
  · cases h

end List

section Members

variable {σ : Type} {member : σ → String → List Char → Reading σ}
  (hmember : ∀ state key, Settled (member state key)) {state state' : σ} {cs rest : List Char}

include hmember

theorem readMembers_append {limit limit' : Nat}
    (h : readMembers member limit state cs = .ok (state', rest)) (hle : limit ≤ limit')
    (more : List Char) : readMembers member limit' state (cs ++ more) = .ok (state', rest ++ more) := by
  induction limit generalizing limit' state cs with
  | zero => cases h
  | succ limit ih =>
    obtain ⟨limit', rfl⟩ : ∃ k, limit' = k + 1 := ⟨limit' - 1, by omega⟩
    rw [readMembers] at h ⊢
    obtain ⟨key, after, hkey, h⟩ := andThen_eq_ok.mp h
    obtain ⟨state, left, hread, h⟩ := andThen_eq_ok.mp h
    have hleft : skipSpace left ≠ [] := by
      intro hnil
      rw [hnil] at h
      cases h
    rw [closed_readString hkey]
    simp only [Reading.andThen]
    rw [hmember _ _ hread (by rintro rfl; exact hleft rfl)]
    simp only [skipSpace_append hleft]
    split at h
    · cases h
    · rename_i hend
      cases h
      rw [hend]
      rfl
    · rename_i next hcomma
      rw [hcomma]
      simp only [List.cons_append]
      split at h
      · cases h
      · rename_i hnext
        rw [skipSpace_append_cons hnext]
        exact ih h (by omega)
      · cases h
      · cases h
    · cases h

theorem closed_readObject : Closed (readObject member state) := by
  intro cs rest state' h more
  rw [readObject] at h ⊢
  split at h
  · cases h
  · rename_i hcs
    cases h
    rw [skipSpace_append_cons hcs]
    rfl
  · rename_i hcs
    rw [skipSpace_append_cons hcs]
    exact readMembers_append hmember h (by simp) more
  · cases h

end Members

section Fields

variable {α : Type} {readItem : List Char → Reading α} {expected : String} {position : Nat}
  {cs left next : List Char} {c : Char}

private theorem readField_first (hcs : skipSpace cs = c :: left) (hc : c ≠ ']') :
    readField 0 expected readItem cs = readItem (c :: left) := by
  rw [readField, hcs]
  split
  · contradiction
  · rename_i h
    exact absurd (List.cons.inj h).1 hc
  · rename_i h
    cases h
    exact if_pos rfl

private theorem readField_later (hposition : position ≠ 0) (hcs : skipSpace cs = ',' :: left)
    (hleft : skipSpace left = c :: next) (hc : c ≠ ']') :
    readField position expected readItem cs = readItem (c :: next) := by
  rw [readField, hcs]
  change (if position = 0 then _ else if ',' = ',' then _ else _) = _
  rw [if_neg hposition, if_pos rfl, hleft]
  split
  · contradiction
  · rename_i h
    exact absurd (List.cons.inj h).1 hc
  · rfl

theorem settled_readField (hitem : Settled readItem) :
    Settled (readField position expected readItem) := by
  intro cs rest a h hne more
  rw [readField] at h
  split at h
  · cases h
  · cases h
  rename_i c left hend hcs
  have hcs' := skipSpace_append_cons hcs more
  by_cases hposition : position = 0
  · rw [if_pos hposition] at h
    rw [hposition, readField_first hcs' hend]
    exact hitem h hne more
  rw [if_neg hposition] at h
  split_ifs at h with hcomma
  subst hcomma
  split at h
  · cases h
  · cases h
  · rename_i hnil hend
    obtain ⟨c, next, hleft⟩ := List.exists_cons_of_ne_nil hnil
    have hc : c ≠ ']' := by
      rintro rfl
      exact hend _ hleft
    rw [hleft] at h
    rw [readField_later hposition hcs' (skipSpace_append_cons hleft more) hc]
    exact hitem h hne more

theorem skipFieldsEnd_append {cs rest : List Char} (h : skipFieldsEnd cs = .ok rest)
    (more : List Char) : skipFieldsEnd (cs ++ more) = .ok (rest ++ more) := by
  rw [skipFieldsEnd] at h
  split at h
  · cases h
  · rename_i hcs
    cases h
    rw [skipFieldsEnd, skipSpace_append_cons hcs]
    rfl
  · split at h <;> cases h
  · cases h

end Fields

/-- A record is closed, in both ways to write it, if its members and its fields are settled. -/
theorem closed_readRecord {σ α : Type} {record : Record σ α}
    (hmember : ∀ state key, Settled (record.member state key)) (hfields : Settled record.fields) :
    Closed (readRecord record) := by
  intro cs rest a h more
  rw [readRecord] at h ⊢
  split at h
  · rename_i hcs
    obtain ⟨state, left, hobject, h⟩ := andThen_eq_ok.mp h
    rw [skipSpace_append_cons hcs]
    simp only [closed_readObject hmember hobject, Reading.andThen]
    split at h
    · cases h
      rfl
    · cases h
  · rename_i hcs
    obtain ⟨value, left, hvalue, h⟩ := andThen_eq_ok.mp h
    split at h
    · rename_i hend
      cases h
      have hleft : left ≠ [] := by
        rintro rfl
        cases hend
      rw [skipSpace_append_cons hcs]
      simp only [hfields hvalue hleft more, Reading.andThen, skipFieldsEnd_append hend]
    · cases h
  · cases h

end LaunchDist.Json
