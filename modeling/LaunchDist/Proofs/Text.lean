import LaunchDist.Text
import Mathlib.Data.List.Basic
import Mathlib.Data.List.DropRight
import Mathlib.Tactic.Basic
/-!
# Text and its octets

Writing a text as octets and scanning them gives the text back, and octets that can be read as a
text are those that the text is written as. Of a trimmed text only blanks are gone.
-/
namespace LaunchDist.Utf8

private theorem octet_toNat (n : Nat) (h : n < 256) : (UInt8.ofNat n).toNat = n := by
  rw [UInt8.toNat_ofNat', Nat.mod_eq_of_lt h]

private theorem octet_lt_iff (n : Nat) (h : n < 256) : UInt8.ofNat n < 0x80 ↔ n < 0x80 := by
  rw [UInt8.lt_iff_toNat_lt, octet_toNat n h]
  rfl

private theorem scanFrom_opening (n : Nat) (h : n < 256) (h' : 0x80 ≤ n) (p : Pending)
    (hp : opening? n = some p) (rest : Bytes) :
    scanFrom none (UInt8.ofNat n :: rest) = scanFrom (some p) rest := by
  rw [scanFrom, if_neg (by rw [octet_lt_iff n h]; omega), octet_toNat n h, hp]

private theorem scanFrom_more (p : Pending) (n : Nat) (h : n < 256) (hl : p.low ≤ n) (hh : n ≤ p.high)
    (hd : 1 < p.due) (rest : Bytes) :
    scanFrom (some p) (UInt8.ofNat n :: rest) =
      scanFrom (some ⟨p.bits * 64 + (n - 0x80), p.due - 1, 0x80, 0xBF⟩) rest := by
  rw [scanFrom, octet_toNat n h, if_pos ⟨hl, hh⟩]
  exact if_neg (by omega)

private theorem scanFrom_last (p : Pending) (n : Nat) (h : n < 256) (hl : p.low ≤ n) (hh : n ≤ p.high)
    (hd : p.due ≤ 1) (c : Char) (hc : p.bits * 64 + (n - 0x80) = c.toNat) (rest : Bytes) :
    scanFrom (some p) (UInt8.ofNat n :: rest) = some c :: scanFrom none rest := by
  rw [scanFrom, octet_toNat n h, if_pos ⟨hl, hh⟩, hc]
  exact (if_pos hd).trans (by rw [Char.ofNat_toNat])

private theorem opening_two (v : Nat) (h : 0x7f < v) (h' : v ≤ 0x7ff) :
    ∃ p, opening? (v / 64 % 0x20 + 0xc0) = some p ∧ p.bits = v / 64 ∧ p.due = 1 ∧
      p.low ≤ v % 0x40 + 0x80 ∧ v % 0x40 + 0x80 ≤ p.high := by
  unfold opening?
  rw [if_pos (by omega)]
  exact ⟨_, rfl, by simp only; omega, rfl, by simp only; omega, by simp only; omega⟩

private theorem opening_three (v : Nat) (h : 0x7ff < v) (h' : v ≤ 0xffff)
    (hv : v < 0xD800 ∨ 0xDFFF < v) :
    ∃ p, opening? (v / 4096 % 0x10 + 0xe0) = some p ∧ p.bits = v / 4096 ∧ p.due = 2 ∧
      p.low ≤ v / 64 % 0x40 + 0x80 ∧ v / 64 % 0x40 + 0x80 ≤ p.high := by
  unfold opening?
  rw [if_neg (by omega)]
  split
  · exact ⟨_, rfl, by simp only; omega, rfl, by simp only; omega, by simp only; omega⟩
  split
  · exact ⟨_, rfl, by simp only; omega, rfl, by simp only; omega, by simp only; omega⟩
  rw [if_pos (by omega)]
  exact ⟨_, rfl, by simp only; omega, rfl, by simp only; omega, by simp only; omega⟩

private theorem opening_four (v : Nat) (h : 0xffff < v) (hv : v < 0x110000) :
    ∃ p, opening? (v / 262144 % 0x08 + 0xf0) = some p ∧ p.bits = v / 262144 ∧ p.due = 3 ∧
      p.low ≤ v / 4096 % 0x40 + 0x80 ∧ v / 4096 % 0x40 + 0x80 ≤ p.high := by
  unfold opening?
  rw [if_neg (by omega), if_neg (by omega), if_neg (by omega), if_neg (by omega)]
  split
  · exact ⟨_, rfl, by simp only; omega, rfl, by simp only; omega, by simp only; omega⟩
  split
  · exact ⟨_, rfl, by simp only; omega, rfl, by simp only; omega, by simp only; omega⟩
  rw [if_pos (by omega)]
  exact ⟨_, rfl, by simp only; omega, rfl, by simp only; omega, by simp only; omega⟩

theorem scanFrom_utf8EncodeChar (c : Char) (rest : Bytes) :
    scanFrom none (String.utf8EncodeChar c ++ rest) = some c :: scanFrom none rest := by
  have hr : c.toNat < 0xD800 ∨ (0xDFFF < c.toNat ∧ c.toNat < 0x110000) := c.valid
  have hv : c.val.toNat = c.toNat := rfl
  unfold String.utf8EncodeChar
  simp only [hv]
  split
  · rw [List.cons_append, List.nil_append, scanFrom, if_pos (by rw [octet_lt_iff _ (by omega)]; omega),
      octet_toNat _ (by omega), Char.ofNat_toNat]
  split
  · obtain ⟨p, hp, hb, hd, hl, hh⟩ := opening_two c.toNat (by omega) (by omega)
    simp only [List.cons_append, List.nil_append]
    rw [scanFrom_opening _ (by omega) (by omega) p hp]
    exact scanFrom_last p _ (by omega) hl hh (by omega) c (by omega) rest
  split
  · obtain ⟨p, hp, hb, hd, hl, hh⟩ := opening_three c.toNat (by omega) (by omega) (by omega)
    simp only [List.cons_append, List.nil_append]
    rw [scanFrom_opening _ (by omega) (by omega) p hp, scanFrom_more p _ (by omega) hl hh (by omega)]
    exact scanFrom_last _ _ (by omega) (by simp only; omega) (by simp only; omega)
      (by simp only; omega) c (by simp only; omega) rest
  · obtain ⟨p, hp, hb, hd, hl, hh⟩ := opening_four c.toNat (by omega) (by omega)
    simp only [List.cons_append, List.nil_append]
    rw [scanFrom_opening _ (by omega) (by omega) p hp, scanFrom_more p _ (by omega) hl hh (by omega),
      scanFrom_more _ _ (by omega) (by simp only; omega) (by simp only; omega) (by simp only; omega)]
    exact scanFrom_last _ _ (by omega) (by simp only; omega) (by simp only; omega)
      (by simp only; omega) c (by simp only; omega) rest

theorem eq_slash_of_mem {c : Char} (h : '/'.toUInt8 ∈ String.utf8EncodeChar c) : c = '/' := by
  have hv : c.val.toNat = c.toNat := rfl
  have hslash : ∀ n, '/'.toUInt8 = UInt8.ofNat n → n < 256 → n = 47 := by
    intro n heq hn
    rw [← octet_toNat n hn, ← heq]
    rfl
  unfold String.utf8EncodeChar at h
  simp only [hv] at h
  split at h
  · have heq := hslash _ (List.mem_singleton.mp h) (by omega)
    rw [← Char.ofNat_toNat c, heq]
  -- The octets of any other character are greater.
  have hgreater : ∀ n, 47 < n → n < 256 → '/'.toUInt8 ≠ UInt8.ofNat n := by
    intro n hn hlt heq
    have := hslash n heq hlt
    omega
  exfalso
  split at h
  · rcases List.mem_pair.mp h with h | h <;> exact hgreater _ (by omega) (by omega) h
  split at h
  · simp only [List.mem_cons, List.not_mem_nil, or_false] at h
    rcases h with h | h | h <;> exact hgreater _ (by omega) (by omega) h
  · simp only [List.mem_cons, List.not_mem_nil, or_false] at h
    rcases h with h | h | h | h <;> exact hgreater _ (by omega) (by omega) h

theorem scan_encode_append (s : String) (bytes : Bytes) :
    scan (encode s ++ bytes) = s.toList.map some ++ scan bytes := by
  unfold scan encode
  induction s.toList with
  | nil => rfl
  | cons c cs ih =>
    rw [List.flatMap_cons, List.append_assoc, scanFrom_utf8EncodeChar, ih, List.map_cons,
      List.cons_append]

theorem scan_encode (s : String) : scan (encode s) = s.toList.map some := by
  have h := scan_encode_append s []
  rwa [List.append_nil, show scan [] = [] from rfl, List.append_nil] at h

theorem decode?_encode_append (s : String) (bytes : Bytes) :
    decode? (encode s ++ bytes) = (decode? bytes).map (s ++ ·) := by
  have h : ∀ cs : List Char, (cs.map some ++ scan bytes).mapM id =
      ((scan bytes).mapM id).map (cs ++ ·) := by
    intro cs
    induction cs with
    | nil => simp
    | cons c cs ih =>
      rw [List.map_cons, List.cons_append, List.mapM_cons, ih]
      cases (scan bytes).mapM id <;> rfl
  rw [decode?, decode?, scan_encode_append, h, Option.map_map, Option.map_map]
  congr 1
  funext cs
  rw [Function.comp, Function.comp, String.ofList_append, String.ofList_toList]

theorem decode?_encode (s : String) : decode? (encode s) = some s := by
  have h := decode?_encode_append s []
  rwa [List.append_nil, show decode? [] = some "" from rfl, Option.map_some, String.append_empty] at h

theorem decodeLossy_encode (s : String) : decodeLossy (encode s) = s := by
  rw [decodeLossy, scan_encode, List.map_map,
    show (fun c : Option Char => c.getD '\ufffd') ∘ some = id from rfl, List.map_id,
    String.ofList_toList]

theorem encode_injective : Function.Injective encode := by
  intro s t h
  have hs := decode?_encode s
  rw [h, decode?_encode] at hs
  exact (Option.some.inj hs).symm

private theorem octet_ofNat (b : UInt8) (n : Nat) (h : b.toNat = n) : UInt8.ofNat n = b := by
  rw [← h, UInt8.ofNat_toNat]

private theorem char_toNat (v : Nat) (h : v < 0xD800 ∨ (0xDFFF < v ∧ v < 0x110000)) :
    (Char.ofNat v).toNat = v := by
  rw [Char.ofNat, dif_pos (by exact h)]
  rfl

private theorem scanFrom_pending (p : Pending) (bytes : Bytes) (cs : List Char)
    (h : scanFrom (some p) bytes = cs.map some) :
    ∃ b rest, bytes = b :: rest ∧ p.low ≤ b.toNat ∧ b.toNat ≤ p.high ∧
      (if p.due ≤ 1 then
        some (Char.ofNat (p.bits * 64 + (b.toNat - 0x80))) :: scanFrom none rest
      else scanFrom (some ⟨p.bits * 64 + (b.toNat - 0x80), p.due - 1, 0x80, 0xBF⟩) rest) =
        cs.map some := by
  have hn : none ∉ cs.map some := by simp
  rw [← h] at hn
  cases bytes with
  | nil => exact absurd (List.mem_singleton_self none) hn
  | cons b rest =>
    rw [scanFrom] at h hn
    split at h
    · rename_i hr
      exact ⟨b, rest, rfl, hr.1, hr.2, h⟩
    · rename_i hr
      rw [if_neg hr] at hn
      split at hn
      · exact absurd (List.mem_cons_self) hn
      split at hn <;> exact absurd (List.mem_cons_self) hn

private theorem scanFrom_pending_last (p : Pending) (bytes : Bytes) (cs : List Char)
    (h : scanFrom (some p) bytes = cs.map some) (hd : p.due = 1) :
    ∃ b rest cs', bytes = b :: rest ∧ p.low ≤ b.toNat ∧ b.toNat ≤ p.high ∧
      cs = Char.ofNat (p.bits * 64 + (b.toNat - 0x80)) :: cs' ∧ scanFrom none rest = cs'.map some := by
  obtain ⟨b, rest, rfl, hl, hh, h⟩ := scanFrom_pending p bytes cs h
  rw [if_pos (by omega)] at h
  cases cs with
  | nil => cases h
  | cons c cs =>
    rw [List.map_cons, List.cons.injEq] at h
    exact ⟨b, rest, cs, rfl, hl, hh, by rw [Option.some.inj h.1], h.2⟩

private theorem scanFrom_pending_more (p : Pending) (bytes : Bytes) (cs : List Char)
    (h : scanFrom (some p) bytes = cs.map some) (hd : 1 < p.due) :
    ∃ b rest, bytes = b :: rest ∧ p.low ≤ b.toNat ∧ b.toNat ≤ p.high ∧
      scanFrom (some ⟨p.bits * 64 + (b.toNat - 0x80), p.due - 1, 0x80, 0xBF⟩) rest = cs.map some := by
  obtain ⟨b, rest, rfl, hl, hh, h⟩ := scanFrom_pending p bytes cs h
  rw [if_neg (by omega)] at h
  exact ⟨b, rest, rfl, hl, hh, h⟩

/-- What an octet may open: two, three or four octets, and what the second of them makes sure of. -/
private theorem opening?_cases (n : Nat) (p : Pending) (h : opening? n = some p) :
    (p.due = 1 ∧ 0xC2 ≤ n ∧ n ≤ 0xDF ∧ p.bits = n - 0xC0 ∧ p.low = 0x80 ∧ p.high = 0xBF) ∨
    (p.due = 2 ∧ 0xE0 ≤ n ∧ n ≤ 0xEF ∧ p.bits = n - 0xE0 ∧ 0x80 ≤ p.low ∧ p.high ≤ 0xBF ∧
      (n ≠ 0xE0 ∨ 0xA0 ≤ p.low) ∧ (n ≠ 0xED ∨ p.high ≤ 0x9F)) ∨
    (p.due = 3 ∧ 0xF0 ≤ n ∧ n ≤ 0xF4 ∧ p.bits = n - 0xF0 ∧ 0x80 ≤ p.low ∧ p.high ≤ 0xBF ∧
      (n ≠ 0xF0 ∨ 0x90 ≤ p.low) ∧ (n ≠ 0xF4 ∨ p.high ≤ 0x8F)) := by
  unfold opening? at h
  split at h
  · obtain rfl := Option.some.inj h
    exact Or.inl ⟨rfl, by omega, by omega, rfl, rfl, rfl⟩
  split at h
  · obtain rfl := Option.some.inj h
    exact Or.inr (Or.inl ⟨rfl, by omega, by omega, by simp only; omega, by decide, by decide,
      Or.inr (by decide), Or.inl (by omega)⟩)
  split at h
  · obtain rfl := Option.some.inj h
    exact Or.inr (Or.inl ⟨rfl, by omega, by omega, by simp only; omega, by decide, by decide,
      Or.inl (by omega), Or.inr (by decide)⟩)
  split at h
  · obtain rfl := Option.some.inj h
    exact Or.inr (Or.inl ⟨rfl, by omega, by omega, rfl, Nat.le_refl _, Nat.le_refl _,
      Or.inl (by omega), Or.inl (by omega)⟩)
  split at h
  · obtain rfl := Option.some.inj h
    exact Or.inr (Or.inr ⟨rfl, by omega, by omega, by simp only; omega, by decide, by decide,
      Or.inr (by decide), Or.inl (by omega)⟩)
  split at h
  · obtain rfl := Option.some.inj h
    exact Or.inr (Or.inr ⟨rfl, by omega, by omega, rfl, Nat.le_refl _, Nat.le_refl _,
      Or.inl (by omega), Or.inl (by omega)⟩)
  split at h
  · obtain rfl := Option.some.inj h
    exact Or.inr (Or.inr ⟨rfl, by omega, by omega, by simp only; omega, by decide, by decide,
      Or.inl (by omega), Or.inr (by decide)⟩)
  · cases h

private theorem utf8EncodeChar_ofNat_two (v : Nat) (h : 0x7f < v) (h' : v ≤ 0x7ff) (a b : UInt8)
    (ha : a.toNat = v / 64 + 0xc0) (hb : b.toNat = v % 64 + 0x80) :
    String.utf8EncodeChar (Char.ofNat v) = [a, b] := by
  have hv : (Char.ofNat v).val.toNat = v := char_toNat v (by omega)
  simp only [String.utf8EncodeChar, hv]
  rw [if_neg (by omega), if_pos (by omega), octet_ofNat a _ (by omega), octet_ofNat b _ (by omega)]

private theorem utf8EncodeChar_ofNat_three (v : Nat) (h : 0x7ff < v) (h' : v ≤ 0xffff)
    (hs : v < 0xD800 ∨ 0xDFFF < v) (a b c : UInt8) (ha : a.toNat = v / 4096 + 0xe0)
    (hb : b.toNat = v / 64 % 64 + 0x80) (hc : c.toNat = v % 64 + 0x80) :
    String.utf8EncodeChar (Char.ofNat v) = [a, b, c] := by
  have hv : (Char.ofNat v).val.toNat = v := char_toNat v (by omega)
  simp only [String.utf8EncodeChar, hv]
  rw [if_neg (by omega), if_neg (by omega), if_pos (by omega), octet_ofNat a _ (by omega),
    octet_ofNat b _ (by omega), octet_ofNat c _ (by omega)]

private theorem utf8EncodeChar_ofNat_four (v : Nat) (h : 0xffff < v) (h' : v < 0x110000)
    (a b c d : UInt8) (ha : a.toNat = v / 262144 + 0xf0) (hb : b.toNat = v / 4096 % 64 + 0x80)
    (hc : c.toNat = v / 64 % 64 + 0x80) (hd : d.toNat = v % 64 + 0x80) :
    String.utf8EncodeChar (Char.ofNat v) = [a, b, c, d] := by
  have hv : (Char.ofNat v).val.toNat = v := char_toNat v (by omega)
  simp only [String.utf8EncodeChar, hv]
  rw [if_neg (by omega), if_neg (by omega), if_neg (by omega), octet_ofNat a _ (by omega),
    octet_ofNat b _ (by omega), octet_ofNat c _ (by omega), octet_ofNat d _ (by omega)]

private theorem scanFrom_none_cons (b : UInt8) (rest : Bytes) (cs : List Char)
    (h : scanFrom none (b :: rest) = cs.map some) :
    ∃ c cs' tail, cs = c :: cs' ∧ b :: rest = String.utf8EncodeChar c ++ tail ∧
      scanFrom none tail = cs'.map some := by
  rw [scanFrom] at h
  split at h
  · rename_i hb
    rw [UInt8.lt_iff_toNat_lt] at hb
    have hb' : b.toNat < 128 := hb
    cases cs with
    | nil => cases h
    | cons c cs =>
      rw [List.map_cons, List.cons.injEq] at h
      refine ⟨c, cs, rest, rfl, ?_, h.2⟩
      rw [← Option.some.inj h.1]
      have hv : (Char.ofNat b.toNat).val.toNat = b.toNat := char_toNat _ (by omega)
      simp only [String.utf8EncodeChar, hv]
      rw [if_pos (by omega), UInt8.ofNat_toNat]
      rfl
  split at h
  · cases cs <;> cases h
  rename_i p hp
  rcases opening?_cases _ _ hp with ⟨hd, h1, h2, hb, hl, hh⟩ | ⟨hd, h1, h2, hb, hl, hh, h3, h4⟩ |
    ⟨hd, h1, h2, hb, hl, hh, h3, h4⟩
  · obtain ⟨t, rest, cs', rfl, ht, ht', rfl, hr⟩ := scanFrom_pending_last p rest cs h hd
    refine ⟨_, cs', rest, rfl, ?_, hr⟩
    rw [utf8EncodeChar_ofNat_two _ (by omega) (by omega) b t (by omega) (by omega)]
    rfl
  · obtain ⟨t, rest, rfl, ht, ht', h⟩ := scanFrom_pending_more p rest cs h (by omega)
    obtain ⟨u, rest, cs', rfl, hu, hu', rfl, hr⟩ :=
      scanFrom_pending_last _ rest cs h (by simp only; omega)
    simp only at hu hu'
    refine ⟨_, cs', rest, rfl, ?_, hr⟩
    rw [utf8EncodeChar_ofNat_three _ (by simp only; omega) (by simp only; omega) (by simp only; omega)
      b t u (by simp only; omega) (by simp only; omega) (by simp only; omega)]
    rfl
  · obtain ⟨t, rest, rfl, ht, ht', h⟩ := scanFrom_pending_more p rest cs h (by omega)
    obtain ⟨u, rest, rfl, hu, hu', h⟩ := scanFrom_pending_more _ rest cs h (by simp only; omega)
    obtain ⟨w, rest, cs', rfl, hw, hw', rfl, hr⟩ :=
      scanFrom_pending_last _ rest cs h (by simp only; omega)
    simp only at hu hu' hw hw'
    refine ⟨_, cs', rest, rfl, ?_, hr⟩
    rw [utf8EncodeChar_ofNat_four _ (by simp only; omega) (by simp only; omega) b t u w
      (by simp only; omega) (by simp only; omega) (by simp only; omega) (by simp only; omega)]
    rfl

private theorem flatMap_of_scanFrom (cs : List Char) (bytes : Bytes)
    (h : scanFrom none bytes = cs.map some) : bytes = cs.flatMap String.utf8EncodeChar := by
  induction cs generalizing bytes with
  | nil =>
    cases bytes with
    | nil => rfl
    | cons b rest =>
      obtain ⟨c, cs', tail, hc, _⟩ := scanFrom_none_cons b rest [] h
      cases hc
  | cons c cs ih =>
    cases bytes with
    | nil => cases h
    | cons b rest =>
      obtain ⟨c', cs', tail, hc, hb, ht⟩ := scanFrom_none_cons b rest (c :: cs) h
      cases hc
      rw [hb, List.flatMap_cons, ← ih tail ht]

theorem decode?_eq_some_iff (bytes : Bytes) (s : String) :
    decode? bytes = some s ↔ encode s = bytes := by
  constructor
  · intro h
    rw [decode?, Option.map_eq_some_iff] at h
    obtain ⟨cs, hcs, rfl⟩ := h
    have hs : scan bytes = cs.map some := by
      generalize scan bytes = found at hcs
      induction found generalizing cs with
      | nil => cases hcs; rfl
      | cons c found ih =>
        rw [List.mapM_cons] at hcs
        cases c with
        | none => cases hcs
        | some c =>
          obtain ⟨cs', hcs', rfl⟩ : ∃ cs', found.mapM id = some cs' ∧ cs = c :: cs' := by
            cases hm : found.mapM id with
            | none => simp [hm] at hcs
            | some cs' => exact ⟨cs', rfl, by simpa [hm] using hcs.symm⟩
          rw [List.map_cons, ih cs' hcs']
    rw [encode, String.toList_ofList, flatMap_of_scanFrom cs bytes hs]
  · rintro rfl
    exact decode?_encode s

theorem eq_encode_of_decodeLossy {bytes : Bytes} {s : String} (h : decodeLossy bytes = s)
    (hs : '\ufffd' ∉ s.toList) : bytes = encode s := by
  have hlist : (scan bytes).map (·.getD '\ufffd') = s.toList := by
    rw [← h, decodeLossy, String.toList_ofList]
  have hscan : scan bytes = s.toList.map some := by
    rw [← hlist, List.map_map]
    conv_lhs => rw [← List.map_id (scan bytes)]
    refine List.map_congr_left fun c hc => ?_
    cases c with
    | some c => rfl
    | none =>
      refine absurd ?_ hs
      rw [← hlist]
      exact List.mem_map.mpr ⟨none, hc, rfl⟩
  exact flatMap_of_scanFrom s.toList bytes hscan

end LaunchDist.Utf8

namespace LaunchDist.Text

theorem toList_trim (s : String) :
    (trim s).toList = (s.toList.dropWhile isBlank).rdropWhile isBlank := by
  rw [trim, String.toList_ofList]
  rfl

/-- Only blanks are trimmed away. -/
theorem trim_eq_empty_iff (s : String) : trim s = "" ↔ ∀ c ∈ s.toList, isBlank c := by
  rw [← String.toList_eq_nil_iff, toList_trim, List.rdropWhile_eq_nil_iff]
  constructor
  · intro h
    by_contra hno
    have hne : s.toList.dropWhile isBlank ≠ [] := fun hnil => hno (List.dropWhile_eq_nil_iff.mp hnil)
    have hhead := List.head_dropWhile_not isBlank hne
    rw [h _ (List.head_mem hne)] at hhead
    cases hhead
  · intro h c hc
    exact h c ((List.dropWhile_suffix isBlank).subset hc)

/-- Whether a text neither starts nor ends with a blank. -/
def IsTrimmed (s : String) : Prop :=
  (∀ c ∈ s.toList.head?, ¬ isBlank c) ∧ ∀ c ∈ s.toList.getLast?, ¬ isBlank c

theorem trim_eq_self_iff (s : String) : trim s = s ↔ IsTrimmed s := by
  have hstart : s.toList.dropWhile isBlank = s.toList ↔ ∀ c ∈ s.toList.head?, ¬ isBlank c := by
    cases s.toList with
    | nil => simp
    | cons c cs => rw [List.dropWhile_eq_self_iff]; simp
  have hend : s.toList.rdropWhile isBlank = s.toList ↔ ∀ c ∈ s.toList.getLast?, ¬ isBlank c := by
    rw [List.rdropWhile_eq_self_iff]
    constructor
    · intro h c hc
      have hne : s.toList ≠ [] := List.ne_nil_of_mem (List.mem_of_getLast? hc)
      rw [List.getLast?_eq_some_getLast hne] at hc
      obtain rfl := Option.some.inj hc
      exact h hne
    · intro h hne
      exact h _ (List.getLast?_eq_some_getLast hne)
  rw [IsTrimmed, ← hstart, ← hend, ← String.toList_inj, toList_trim]
  constructor
  · intro h
    -- Neither end may have lost anything.
    have hlength := congrArg List.length h
    have hdrop := (List.dropWhile_suffix (l := s.toList) isBlank).sublist
    have hrdrop := (List.rdropWhile_prefix isBlank (s.toList.dropWhile isBlank)).sublist
    have hfirst : s.toList.dropWhile isBlank = s.toList :=
      hdrop.eq_of_length_le (by rw [← hlength]; exact hrdrop.length_le)
    rw [hfirst] at h
    exact ⟨hfirst, h⟩
  · rintro ⟨hfirst, hlast⟩
    rw [hfirst, hlast]

theorem trim_trim_ne_empty {s : String} (h : trim s ≠ "") : trim (trim s) ≠ "" := by
  rw [ne_eq, trim_eq_empty_iff]
  intro hblank
  have hne : (s.toList.dropWhile isBlank).rdropWhile isBlank ≠ [] := by
    rw [← toList_trim]
    exact fun hnil => h (String.toList_eq_nil_iff.mp hnil)
  apply List.rdropWhile_last_not isBlank _ hne
  apply hblank
  rw [toList_trim]
  exact List.getLast_mem hne

end LaunchDist.Text
