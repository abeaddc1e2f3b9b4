import LaunchDist.Proofs.Json.Skip
/-!
# Reading values of a known type

A reader takes a written value for what it means, however it is written, and refuses one that means
nothing to it. The members of an object are taken one after the other, in the order of the text.
-/
namespace LaunchDist.Json

theorem toOption_andThen {α β : Type} (reading : Reading α) (next : α → List Char → Reading β) :
    (reading.andThen next).toOption = reading.toOption.bind fun x => (next x.1 x.2).toOption := by
  cases reading with
  | error fault => rfl
  | ok x => rfl

theorem toOption_bind {ε α β : Type} (x : Except ε α) (f : α → Except ε β) :
    (x >>= f).toOption = x.toOption.bind fun a => (f a).toOption := by
  cases x with
  | error e => rfl
  | ok a => rfl

@[simp] theorem toOption_map {ε α β : Type} (x : Except ε α) (f : α → β) :
    (f <$> x).toOption = x.toOption.map f := by
  cases x with
  | error e => rfl
  | ok a => rfl

theorem toOption_eq_some {ε α : Type} {x : Except ε α} {a : α} : x.toOption = some a ↔ x = .ok a := by
  cases x with
  | error e => simp [Except.toOption]
  | ok b => simp [Except.toOption]

/-- Whether a reader takes a value for what it means, and for nothing else. -/
def Reads {α : Type} (reader : List Char → Reading α) (meaning : Value → Option α) (v : Value) : Prop :=
  ∀ ⦃t cs rest : List Char⦄, Written (.value v) cs → skipSpace t = cs ++ rest → EndsNumber rest →
    (reader t).toOption = (meaning v).map (·, rest)

def Value.text? : Value → Option String
  | .text s => some s
  | _ => none

def Value.word? : Value → Option UInt32
  | .number n => n.word?
  | _ => none

theorem Opens.eq_text {v : Value} (h : Opens v '"') : ∃ s, v = .text s := by
  cases v with
  | text s => exact ⟨s, rfl⟩
  | boolean b => cases b <;> simp [Opens] at h
  | _ => simp [Opens, isDigit, digit?] at h

theorem Opens.eq_list {v : Value} (h : Opens v '[') : ∃ vs, v = .list vs := by
  cases v with
  | list vs => exact ⟨vs, rfl⟩
  | boolean b => cases b <;> simp [Opens] at h
  | _ => simp [Opens, isDigit, digit?] at h

theorem Opens.eq_number {v : Value} {c : Char} (h : Opens v c) (hc : c = '-' ∨ isDigit c = true) :
    ∃ n, v = .number n := by
  cases v with
  | number n => exact ⟨n, rfl⟩
  | boolean b =>
    obtain rfl : c = if b then 't' else 'f' := h
    cases b <;> simp [isDigit, digit?] at hc
  | _ =>
    simp only [Opens] at h
    subst h
    simp [isDigit, digit?] at hc

theorem reads_text (v : Value) : Reads readText Value.text? v := by
  intro t cs rest h ht hrest
  by_cases hv : ∃ s, v = .text s
  · obtain ⟨s, rfl⟩ := hv
    cases h with
    | text h =>
      rw [readText_of_quotes h ht]
      rfl
  · obtain ⟨c, cs, rfl, hc⟩ := opens_of_written h
    have hmeaning : v.text? = none := by
      unfold Value.text?
      split
      · exact absurd ⟨_, rfl⟩ hv
      · rfl
    rw [hmeaning, readText, ht, List.cons_append]
    split
    · rename_i heq
      rw [(List.cons.inj heq).1] at hc
      exact absurd hc.eq_text hv
    · rfl

theorem reads_word (v : Value) : Reads readWord Value.word? v := by
  intro t cs rest h ht hrest
  by_cases hv : ∃ n, v = .number n
  · obtain ⟨n, rfl⟩ := hv
    cases h with
    | number => exact readWord_numeral n hrest ht
  · obtain ⟨c, cs, rfl, hc⟩ := opens_of_written h
    have hmeaning : v.word? = none := by
      unfold Value.word?
      split
      · exact absurd ⟨_, rfl⟩ hv
      · rfl
    rw [hmeaning, readWord, ht, List.cons_append]
    split
    · rename_i heq
      exact absurd (hc.eq_number (.inl (List.cons.inj heq).1)) hv
    · split
      · rename_i hd
        exact absurd (hc.eq_number (.inr hd)) hv
      · rfl

/-- What a list means if each of its items means something. -/
def Value.list? {α : Type} (meaning : Value → Option α) : Value → Option (List α)
  | .list vs => vs.mapM meaning
  | _ => none

section Items

variable {α : Type} {readItem : List Char → Reading α} {meaning : Value → Option α}
  {t u left rest : List Char} {a : α} (limit : Nat)

theorem readItems_end (h : readItem t = .ok (a, left)) (hleft : skipSpace left = ']' :: rest) :
    readItems readItem (limit + 1) t = .ok ([a], rest) := by
  rw [readItems, h, Reading.andThen]
  simp only [hleft]

theorem readItems_more {c : Char} (h : readItem t = .ok (a, left))
    (hleft : skipSpace left = ',' :: u) (hu : skipSpace u = c :: rest) (hc : c ≠ ']') :
    readItems readItem (limit + 1) t = (readItems readItem limit (c :: rest)).andThen
      fun items rest => .ok (a :: items, rest) := by
  rw [readItems, h, Reading.andThen]
  simp only [hleft, hu]
  split
  · contradiction
  · rename_i heq
    exact absurd (List.cons.inj heq).1 hc
  · rfl

theorem readList_items {c : Char} (ht : skipSpace t = '[' :: u) (hu : skipSpace u = c :: left)
    (hc : c ≠ ']') : readList readItem t = readItems readItem (c :: left).length (c :: left) := by
  rw [readList, ht]
  simp only [hu]
  split
  · contradiction
  · rename_i heq
    exact absurd (List.cons.inj heq).1 hc
  · rfl

variable (hread : ∀ v, Reads readItem meaning v)

include hread

private theorem readItems_of_written {vs : List Value} {cs : List Char} (h : Written (.elements vs) cs)
    (limit : Nat) (t rest : List Char) (ht : skipSpace t = skipSpace (cs ++ ']' :: rest))
    (hlimit : t.length ≤ limit) :
    (readItems readItem limit t).toOption = (vs.mapM meaning).map (·, rest) := by
  induction vs generalizing cs limit t with
  | nil =>
    obtain ⟨_, _, _, _, _, _, hvs, _⟩ := elements_cases h
    cases hvs
  | cons v vs ih =>
    obtain ⟨_, _, before, value, after, tail, hvs, rfl, hbefore, hvalue, hafter, htail⟩ :=
      elements_cases h
    obtain ⟨rfl, rfl⟩ := List.cons.inj hvs
    rw [List.append_assoc, skipSpace_blank hbefore, List.append_assoc, skipSpace_value hvalue,
      List.append_assoc] at ht
    have hlength : (value ++ (after ++ (tail ++ ']' :: rest))).length ≤ limit :=
      Nat.le_trans (ht ▸ length_skipSpace_le t) hlimit
    obtain ⟨c, value, rfl, _⟩ := opens_of_written hvalue
    simp only [List.length_append, List.length_cons] at hlength
    obtain ⟨limit, rfl⟩ : ∃ k, limit = k + 1 := ⟨limit - 1, by omega⟩
    have hends : EndsNumber (after ++ (tail ++ ']' :: rest)) := by
      apply endsNumber_blank hafter
      rcases htail with ⟨_, rfl⟩ | ⟨ds, rfl, _⟩
      · exact endsNumber_cons (by decide) _
      · exact endsNumber_cons (by decide) _
    have hitem := hread v hvalue ht hends
    rw [List.mapM_cons]
    cases hv : meaning v with
    | none =>
      rw [readItems, toOption_andThen, hitem, hv]
      rfl
    | some a =>
      rw [hv] at hitem
      have hok := toOption_eq_some.mp hitem
      have hleft := skipSpace_blank hafter (tail ++ ']' :: rest)
      rcases htail with ⟨rfl, rfl⟩ | ⟨ds, rfl, hds⟩
      · rw [readItems_end limit hok (hleft.trans (skipSpace_cons_of_not (by decide) _))]
        rfl
      · obtain ⟨d, u, hnext, hd⟩ := skipSpace_elements hds (']' :: rest)
        have hle := hnext ▸ length_skipSpace_le (ds ++ ']' :: rest)
        simp only [List.length_append, List.length_cons] at hle hlength
        have hitems := ih hds limit (d :: u) (by rw [← hnext, skipSpace_skipSpace])
          (by rw [List.length_cons]; omega)
        rw [readItems_more limit hok (hleft.trans (skipSpace_cons_of_not (by decide) _)) hnext hd,
          toOption_andThen, hitems]
        cases vs.mapM meaning with
        | none => rfl
        | some items => rfl

theorem reads_list (v : Value) : Reads (readList readItem) (Value.list? meaning) v := by
  intro t cs rest h ht hrest
  by_cases hv : ∃ vs, v = .list vs
  · obtain ⟨vs, rfl⟩ := hv
    cases h with
    | @emptyList blank hblank =>
      have hskip : skipSpace (blank ++ ']' :: rest) = ']' :: rest := by
        rw [skipSpace_blank hblank, skipSpace_cons_of_not (by decide)]
      rw [readList, ht]
      simp only [List.cons_append, List.append_assoc, List.nil_append, hskip]
      rfl
    | @list _ cs h =>
      obtain ⟨c, u, hskip, hc⟩ := skipSpace_elements h (']' :: rest)
      have hitems := readItems_of_written hread h (c :: u).length (c :: u) rest
        (by rw [← hskip, skipSpace_skipSpace]) (Nat.le_refl _)
      rw [List.cons_append, List.append_assoc, List.singleton_append] at ht
      rw [readList_items ht hskip hc, hitems]
      rfl
  · obtain ⟨c, cs, rfl, hc⟩ := opens_of_written h
    have hmeaning : v.list? meaning = none := by
      unfold Value.list?
      split
      · exact absurd ⟨_, rfl⟩ hv
      · rfl
    rw [hmeaning, readList, ht, List.cons_append]
    split
    · rename_i heq
      rw [(List.cons.inj heq).1] at hc
      exact absurd hc.eq_list hv
    · rfl

end Items

section Members

variable {σ : Type} {member : σ → String → List Char → Reading σ} {step : σ → String → Value → Option σ}

/-- Whether what a reader of members makes of one is known, however it is written. -/
def ReadsMember (member : σ → String → List Char → Reading σ) (step : σ → String → Value → Option σ)
    (key : String) (v : Value) : Prop :=
  ∀ ⦃state : σ⦄ ⦃t u cs rest : List Char⦄, Written (.value v) cs → skipSpace t = ':' :: u →
    skipSpace u = cs ++ rest → EndsNumber rest →
    (member state key t).toOption = (step state key v).map (·, rest)

/-- What comes of the members of an object in their order. -/
def takeMembers (step : σ → String → Value → Option σ) (state : σ) (ms : List (String × Value)) :
    Option σ :=
  ms.foldlM (fun state m => step state m.1 m.2) state

section Step

variable {state state' : σ} {key : String} {v : Value} {t u after left rest : List Char} (limit : Nat)

private theorem member_of_written (state : σ) (hread : ReadsMember member step key v)
    {gap gap' value : List Char} (hgap : Blank gap) (hgap' : Blank gap')
    (hvalue : Written (.value v) value) (hends : EndsNumber left) :
    (member state key (gap ++ ':' :: (gap' ++ (value ++ left)))).toOption =
      (step state key v).map (·, left) := by
  have hcolon : skipSpace (gap ++ ':' :: (gap' ++ (value ++ left))) =
      ':' :: (gap' ++ (value ++ left)) := by
    rw [skipSpace_blank hgap, skipSpace_cons_of_not (by decide)]
  have hstart : skipSpace (gap' ++ (value ++ left)) = value ++ left := by
    rw [skipSpace_blank hgap', skipSpace_value hvalue]
  exact hread hvalue hcolon hstart hends

private theorem readMembers_end (hkey : readString t = .ok (key.toList, after))
    (h : member state key after = .ok (state', left)) (hleft : skipSpace left = '\x7d' :: rest) :
    readMembers member (limit + 1) state t = .ok (state', rest) := by
  rw [readMembers, hkey, Reading.andThen]
  simp only [String.ofList_toList, h, Reading.andThen, hleft]

private theorem readMembers_more (hkey : readString t = .ok (key.toList, after))
    (h : member state key after = .ok (state', left)) (hleft : skipSpace left = ',' :: u)
    (hu : skipSpace u = '"' :: rest) :
    readMembers member (limit + 1) state t = readMembers member limit state' rest := by
  rw [readMembers, hkey, Reading.andThen]
  simp only [String.ofList_toList, h, Reading.andThen, hleft, hu]

end Step

private theorem readMembers_of_written {ms : List (String × Value)}
    (hread : ∀ m ∈ ms, ReadsMember member step m.1 m.2) {cs : List Char}
    (h : Written (.members ms) cs) (limit : Nat) (state : σ) (t rest : List Char)
    (ht : skipSpace (cs ++ '\x7d' :: rest) = '"' :: t) (hlimit : t.length < limit) :
    (readMembers member limit state t).toOption = (takeMembers step state ms).map (·, rest) := by
  induction ms generalizing cs limit state t with
  | nil =>
    obtain ⟨_, _, _, _, _, _, _, _, _, hms, _⟩ := members_cases h
    cases hms
  | cons m ms ih =>
    obtain ⟨key, v, _, before, quoted, middle, value, after, tail, hms, rfl, hbefore, hkey,
      ⟨gap, gap', hgap, hgap', rfl⟩, hvalue, hafter, htail⟩ := members_cases h
    obtain ⟨rfl, rfl⟩ := List.cons.inj hms
    obtain ⟨hfirst, hlater⟩ := List.forall_mem_cons.mp hread
    obtain ⟨limit, rfl⟩ : ∃ k, limit = k + 1 := ⟨limit - 1, by omega⟩
    obtain ⟨hs⟩ := hkey
    rw [List.append_assoc, skipSpace_blank hbefore] at ht
    simp only [List.append_assoc, List.cons_append, List.nil_append] at ht
    rw [skipSpace_cons_of_not (by decide)] at ht
    obtain rfl := (List.cons.inj ht).2
    have hstring := readString_of_spellsAll hs
      (gap ++ ':' :: (gap' ++ (value ++ (after ++ (tail ++ '\x7d' :: rest)))))
    have hends : EndsNumber (after ++ (tail ++ '\x7d' :: rest)) := by
      apply endsNumber_blank hafter
      rcases htail with ⟨_, rfl⟩ | ⟨ds, rfl, _⟩
      · exact endsNumber_cons (by decide) _
      · exact endsNumber_cons (by decide) _
    have hmember := member_of_written state hfirst hgap hgap' hvalue hends
    rw [takeMembers, List.foldlM_cons]
    cases hv : step state key v with
    | none =>
      rw [readMembers, hstring, Reading.andThen]
      simp only [String.ofList_toList]
      rw [toOption_andThen, hmember, hv]
      rfl
    | some state' =>
      rw [hv] at hmember
      have hok := toOption_eq_some.mp hmember
      have hleft := skipSpace_blank hafter (tail ++ '\x7d' :: rest)
      rcases htail with ⟨rfl, rfl⟩ | ⟨ds, rfl, hds⟩
      · rw [readMembers_end limit hstring hok (hleft.trans (skipSpace_cons_of_not (by decide) _))]
        rfl
      · obtain ⟨next, hnext⟩ := skipSpace_members hds ('\x7d' :: rest)
        have hle := hnext ▸ length_skipSpace_le (ds ++ '\x7d' :: rest)
        simp only [List.length_append, List.length_cons] at hle hlimit
        rw [readMembers_more limit hstring hok (hleft.trans (skipSpace_cons_of_not (by decide) _))
          hnext]
        exact ih hlater hds limit state' next hnext (by omega)

/-- A record is read from an object member by member, and then filled. -/
theorem readRecord_object {α : Type} (record : Record σ α) {ms : List (String × Value)}
    (hread : ∀ m ∈ ms, ReadsMember record.member step m.1 m.2) :
    Reads (readRecord record) (fun _ => (takeMembers step record.start ms).bind
      fun state => (record.finish state).toOption) (.object ms) := by
  intro t cs rest h ht hrest
  have hobject : ∀ tail, skipSpace t = '\x7b' :: tail →
      (readObject record.member record.start tail).toOption =
        (takeMembers step record.start ms).map (·, rest) →
      (readRecord record t).toOption = ((takeMembers step record.start ms).bind
        fun state => (record.finish state).toOption).map (·, rest) := by
    intro tail htail hread
    rw [readRecord, htail]
    simp only
    rw [toOption_andThen, hread]
    cases takeMembers step record.start ms with
    | none => rfl
    | some state =>
      simp only [Option.map_some, Option.bind_some]
      cases record.finish state with
      | error cause => rfl
      | ok value => rfl
  cases h with
  | @emptyObject blank hblank =>
    have hskip : skipSpace (blank ++ '\x7d' :: rest) = '\x7d' :: rest := by
      rw [skipSpace_blank hblank, skipSpace_cons_of_not (by decide)]
    apply hobject (blank ++ '\x7d' :: rest) (by simpa using ht)
    rw [readObject, hskip]
    rfl
  | @object _ cs h =>
    obtain ⟨u, hskip⟩ := skipSpace_members h ('\x7d' :: rest)
    apply hobject (cs ++ '\x7d' :: rest) (by simpa using ht)
    rw [readObject, hskip]
    exact readMembers_of_written hread h (u.length + 1) record.start u rest hskip (by omega)

end Members

end LaunchDist.Json
