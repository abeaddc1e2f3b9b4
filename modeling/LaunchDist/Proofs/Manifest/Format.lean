import LaunchDist.Manifest.File
import LaunchDist.Proofs.Json.Read
/-!
# The format of manifests

An object describes a manifest if it has each of the three members once, and its inner object each of
two; members of other keys do not count, and neither does the order. Just such objects are read.
-/
namespace LaunchDist.Manifest

open Json

/-- The values that an object has for a key. -/
def valuesOf (key : String) (ms : List (String × Value)) : List Value :=
  (ms.filter (·.1 = key)).map (·.2)

/-- Whether the members of an object are those of a manifest, others apart. -/
structure Describes (ms : List (String × Value)) (m : Manifest) : Prop where
  programType : valuesOf "program_type" ms = [.text m.programType]
  entrypoint : valuesOf "entrypoint" ms = [.text m.entrypoint]
  java : ∃ inner, valuesOf "java_configuration" ms = [.object inner] ∧
    valuesOf "java_version" inner = [.number (.natural m.javaVersion.toNat)] ∧
    valuesOf "classpath" inner = [.list (m.classpath.map .text)]

theorem valuesOf_cons (key : String) (k : String) (v : Value) (ms : List (String × Value)) :
    valuesOf key ((k, v) :: ms) = if k = key then v :: valuesOf key ms else valuesOf key ms := by
  by_cases h : k = key
  · simp [valuesOf, h]
  · simp [valuesOf, h]

/-- What comes of a member that may be there once. -/
def takeKnown {α σ : Type} (old : Option α) (meaning : Value → Option α) (store : α → σ) (v : Value) :
    Option σ :=
  if old.isSome then none else (meaning v).map store

section Member

variable {σ : Type} {v : Value} {t u cs rest : List Char} (hvalue : Written (.value v) cs)
  (ht : skipSpace t = ':' :: u) (hu : skipSpace u = cs ++ rest) (hrest : EndsNumber rest)

include hvalue ht hu hrest

theorem readMember_of_written {α : Type} {old : Option α} {key : String}
    {readItem : List Char → Reading α} {meaning : Value → Option α} {store : α → σ}
    (hread : Reads readItem meaning v) :
    (readMember old key readItem store t).toOption = (takeKnown old meaning store v).map (·, rest) := by
  have hcolon : skipColon t = .ok u := by
    rw [skipColon, ht]
    rfl
  rw [readMember, skipFreshColon, takeKnown]
  cases old with
  | some a => rfl
  | none =>
    simp only [Option.isSome_none, Bool.false_eq_true, if_false, hcolon]
    rw [toOption_andThen, hread hvalue hu hrest]
    cases meaning v with
    | none => rfl
    | some a => rfl

theorem skipMember_of_written (state : σ) : skipMember state t = .ok (state, rest) := by
  have hcolon : skipColon t = .ok u := by
    rw [skipColon, ht]
    rfl
  rw [skipMember, hcolon]
  simp only [skipValue_of_written hvalue hu hrest]

end Member

/-- What the inner object has after one more member. -/
def JavaMembers.take (state : JavaMembers) (key : String) (v : Value) : Option JavaMembers :=
  if key = "java_version" then
    takeKnown state.version? Value.word? (fun version => { state with version? := some version }) v
  else if key = "classpath" then
    takeKnown state.classpath? (Value.list? Value.text?)
      (fun classpath => { state with classpath? := some classpath }) v
  else some state

/-- What an inner object means. -/
def configuration? : Value → Option (UInt32 × List String)
  | .object ms => (takeMembers JavaMembers.take javaRecord.start ms).bind
    fun state => (javaRecord.finish state).toOption
  | _ => none

/-- What the outer object has after one more member. -/
def Members.take (state : Members) (key : String) (v : Value) : Option Members :=
  if key = "program_type" then
    takeKnown state.programType? Value.text? (fun text => { state with programType? := some text }) v
  else if key = "entrypoint" then
    takeKnown state.entrypoint? Value.text? (fun text => { state with entrypoint? := some text }) v
  else if key = "java_configuration" then
    takeKnown state.java? configuration? (fun java => { state with java? := some java }) v
  else some state

theorem readsMember_java (key : String) (v : Value) :
    ReadsMember javaRecord.member JavaMembers.take key v := by
  intro state t u cs rest hvalue ht hu hrest
  unfold JavaMembers.take
  simp only [javaRecord]
  split_ifs with hversion hclasspath
  · exact readMember_of_written hvalue ht hu hrest (reads_word v)
  · exact readMember_of_written hvalue ht hu hrest (reads_list reads_text v)
  · rw [skipMember_of_written hvalue ht hu hrest state]
    rfl

theorem readsMember_record (key : String) (v : Value)
    (hjava : key = "java_configuration" → ∃ ms, v = .object ms) :
    ReadsMember record.member Members.take key v := by
  intro state t u cs rest hvalue ht hu hrest
  unfold Members.take
  simp only [record]
  split_ifs with htype hentry hkey
  · exact readMember_of_written hvalue ht hu hrest (reads_text v)
  · exact readMember_of_written hvalue ht hu hrest (reads_text v)
  · obtain ⟨ms, rfl⟩ := hjava hkey
    have hobject : Reads (readRecord javaRecord) configuration? (.object ms) :=
      readRecord_object javaRecord fun m _ => readsMember_java m.1 m.2
    exact readMember_of_written hvalue ht hu hrest hobject
  · rw [skipMember_of_written hvalue ht hu hrest state]
    rfl

/-- What comes of the values of one key, of which there may be one at most. -/
def gather {α : Type} (meaning : Value → Option α) : Option α → List Value → Option (Option α)
  | old, [] => some old
  | some _, _ :: _ => none
  | none, v :: vs => (meaning v).bind fun a => gather meaning (some a) vs

theorem gather_eq_some_iff {α : Type} {meaning : Value → Option α} {vs : List Value} {a : α} :
    gather meaning none vs = some (some a) ↔ ∃ v, vs = [v] ∧ meaning v = some a := by
  cases vs with
  | nil => simp [gather]
  | cons v vs =>
    cases vs with
    | nil => cases hv : meaning v <;> simp [gather, hv]
    | cons v' vs => cases hv : meaning v <;> simp [gather, hv]

theorem takeMembers_java (state : JavaMembers) (ms : List (String × Value)) :
    takeMembers JavaMembers.take state ms =
      (gather Value.word? state.version? (valuesOf "java_version" ms)).bind fun version? =>
        (gather (Value.list? Value.text?) state.classpath? (valuesOf "classpath" ms)).bind
          fun classpath? => some ⟨version?, classpath?⟩ := by
  induction ms generalizing state with
  | nil => rfl
  | cons m ms ih =>
    obtain ⟨key, v⟩ := m
    obtain ⟨version?, classpath?⟩ := state
    have hrest : takeMembers JavaMembers.take ⟨version?, classpath?⟩ ((key, v) :: ms) =
        (JavaMembers.take ⟨version?, classpath?⟩ key v).bind fun state =>
          takeMembers JavaMembers.take state ms := List.foldlM_cons
    rw [hrest, valuesOf_cons, valuesOf_cons, JavaMembers.take]
    by_cases hversion : key = "java_version"
    · subst hversion
      cases version? with
      | some version => simp [takeKnown, gather]
      | none => cases hv : v.word? <;> simp [takeKnown, gather, ih, hv]
    · by_cases hclasspath : key = "classpath"
      · subst hclasspath
        cases classpath? with
        | some classpath => simp [takeKnown, gather]
        | none => cases hv : v.list? Value.text? <;> simp [takeKnown, gather, ih, hv]
      · simp [hversion, hclasspath, ih]

theorem takeMembers_record (state : Members) (ms : List (String × Value)) :
    takeMembers Members.take state ms =
      (gather Value.text? state.programType? (valuesOf "program_type" ms)).bind fun programType? =>
        (gather Value.text? state.entrypoint? (valuesOf "entrypoint" ms)).bind fun entrypoint? =>
          (gather configuration? state.java? (valuesOf "java_configuration" ms)).bind
            fun java? => some ⟨programType?, entrypoint?, java?⟩ := by
  induction ms generalizing state with
  | nil => rfl
  | cons m ms ih =>
    obtain ⟨key, v⟩ := m
    obtain ⟨programType?, entrypoint?, java?⟩ := state
    have hrest : takeMembers Members.take ⟨programType?, entrypoint?, java?⟩ ((key, v) :: ms) =
        (Members.take ⟨programType?, entrypoint?, java?⟩ key v).bind fun state =>
          takeMembers Members.take state ms := List.foldlM_cons
    rw [hrest, valuesOf_cons, valuesOf_cons, valuesOf_cons, Members.take]
    by_cases htype : key = "program_type"
    · subst htype
      cases programType? with
      | some text => simp [takeKnown, gather]
      | none => cases hv : v.text? <;> simp [takeKnown, gather, ih, hv]
    · by_cases hentry : key = "entrypoint"
      · subst hentry
        cases entrypoint? with
        | some text => simp [takeKnown, gather]
        | none => cases hv : v.text? <;> simp [takeKnown, gather, ih, hv]
      · by_cases hjava : key = "java_configuration"
        · subst hjava
          cases java? with
          | some java => simp [takeKnown, gather]
          | none => cases hv : configuration? v <;> simp [takeKnown, gather, ih, hv]
        · simp [htype, hentry, hjava, ih]

theorem text?_eq_some_iff {v : Value} {s : String} : v.text? = some s ↔ v = .text s := by
  cases v <;> simp [Value.text?]

theorem word?_eq_some_iff {v : Value} {word : UInt32} :
    v.word? = some word ↔ v = .number (.natural word.toNat) := by
  cases v <;> simp [Value.word?, Numeral.word?_eq_some_iff]

private theorem mapM_text? (vs : List Value) (texts : List String) :
    vs.mapM Value.text? = some texts ↔ vs = texts.map .text := by
  induction vs generalizing texts with
  | nil => cases texts <;> simp
  | cons v vs ih =>
    rw [List.mapM_cons]
    constructor
    · intro h
      obtain ⟨s, hs, h⟩ := Option.bind_eq_some_iff.mp h
      obtain ⟨later, hlater, h⟩ := Option.bind_eq_some_iff.mp h
      cases h
      rw [text?_eq_some_iff.mp hs, (ih later).mp hlater, List.map_cons]
    · intro h
      cases texts with
      | nil => cases h
      | cons s later =>
        obtain ⟨rfl, hvs⟩ := List.cons.inj h
        rw [(ih later).mpr hvs]
        rfl

theorem list?_eq_some_iff {v : Value} {texts : List String} :
    v.list? Value.text? = some texts ↔ v = .list (texts.map .text) := by
  cases v <;> simp [Value.list?, mapM_text?]

@[simp] theorem toOption_require {α : Type} (name : String) (value? : Option α) :
    (require name value?).toOption = value? := by
  cases value? with
  | none => rfl
  | some value => rfl

theorem finish_java {state : JavaMembers} {version : UInt32} {classpath : List String} :
    (javaRecord.finish state).toOption = some (version, classpath) ↔
      state = ⟨some version, some classpath⟩ := by
  obtain ⟨version?, classpath?⟩ := state
  simp [javaRecord, toOption_bind, Option.bind_eq_some_iff]

theorem finish_record {state : Members} {m : Manifest} :
    (record.finish state).toOption = some m ↔
      state = ⟨some m.programType, some m.entrypoint, some (m.javaVersion, m.classpath)⟩ := by
  obtain ⟨programType?, entrypoint?, java?⟩ := state
  obtain ⟨programType, entrypoint, version, classpath⟩ := m
  simp [record, toOption_bind, Option.bind_eq_some_iff]

private theorem gathered_iff {α : Type} {meaning : Value → Option α} {vs : List Value} {a : α} {w : Value}
    (hw : ∀ v, meaning v = some a ↔ v = w) : gather meaning none vs = some (some a) ↔ vs = [w] := by
  rw [gather_eq_some_iff]
  constructor
  · rintro ⟨v, rfl, hv⟩
    rw [(hw v).mp hv]
  · intro h
    exact ⟨w, h, (hw w).mpr rfl⟩

theorem configuration?_eq_some_iff {v : Value} {version : UInt32} {classpath : List String} :
    configuration? v = some (version, classpath) ↔ ∃ ms, v = .object ms ∧
      valuesOf "java_version" ms = [.number (.natural version.toNat)] ∧
      valuesOf "classpath" ms = [.list (classpath.map .text)] := by
  cases v with
  | object ms =>
    have hstart : takeMembers JavaMembers.take javaRecord.start ms = _ := takeMembers_java {} ms
    rw [configuration?, hstart]
    constructor
    · intro h
      obtain ⟨state, hstate, hfinish⟩ := Option.bind_eq_some_iff.mp h
      obtain rfl := finish_java.mp hfinish
      obtain ⟨version?, hversion, hstate⟩ := Option.bind_eq_some_iff.mp hstate
      obtain ⟨classpath?, hclasspath, hstate⟩ := Option.bind_eq_some_iff.mp hstate
      cases hstate
      exact ⟨ms, rfl, (gathered_iff fun _ => word?_eq_some_iff).mp hversion,
        (gathered_iff fun _ => list?_eq_some_iff).mp hclasspath⟩
    · rintro ⟨_, heq, hversion, hclasspath⟩
      cases heq
      rw [(gathered_iff fun _ => word?_eq_some_iff).mpr hversion,
        (gathered_iff fun _ => list?_eq_some_iff).mpr hclasspath]
      exact finish_java.mpr rfl
  | _ => simp [configuration?]

theorem readRecord_iff {ms : List (String × Value)} {m : Manifest} :
    ((takeMembers Members.take record.start ms).bind fun state => (record.finish state).toOption) =
      some m ↔ Describes ms m := by
  have hstart : takeMembers Members.take record.start ms = _ := takeMembers_record {} ms
  rw [hstart]
  constructor
  · intro h
    obtain ⟨state, hstate, hfinish⟩ := Option.bind_eq_some_iff.mp h
    obtain rfl := finish_record.mp hfinish
    obtain ⟨programType?, htype, hstate⟩ := Option.bind_eq_some_iff.mp hstate
    obtain ⟨entrypoint?, hentry, hstate⟩ := Option.bind_eq_some_iff.mp hstate
    obtain ⟨java?, hjava, hstate⟩ := Option.bind_eq_some_iff.mp hstate
    cases hstate
    obtain ⟨v, hv, hmeaning⟩ := gather_eq_some_iff.mp hjava
    obtain ⟨inner, rfl, hversion, hclasspath⟩ := configuration?_eq_some_iff.mp hmeaning
    exact ⟨(gathered_iff fun _ => text?_eq_some_iff).mp htype,
      (gathered_iff fun _ => text?_eq_some_iff).mp hentry, inner, hv, hversion, hclasspath⟩
  · intro h
    obtain ⟨inner, hv, hversion, hclasspath⟩ := h.java
    have hjava : gather configuration? none (valuesOf "java_configuration" ms) =
        some (some (m.javaVersion, m.classpath)) :=
      gather_eq_some_iff.mpr
        ⟨_, hv, configuration?_eq_some_iff.mpr ⟨inner, rfl, hversion, hclasspath⟩⟩
    rw [(gathered_iff fun _ => text?_eq_some_iff).mpr h.programType,
      (gathered_iff fun _ => text?_eq_some_iff).mpr h.entrypoint, hjava]
    exact finish_record.mpr rfl

/-- Just those texts of an object are read that describe a manifest, and as that manifest. -/
theorem parse_written_iff {text : String} {ms : List (String × Value)}
    (h : Written (.element (.object ms)) text.toList)
    (hjava : ∀ v, ("java_configuration", v) ∈ ms → ∃ inner, v = .object inner) (m : Manifest) :
    parse text = .ok m ↔ Describes ms m := by
  have hread : Reads (readRecord record) _ (.object ms) := readRecord_object record fun x hx =>
    readsMember_record x.1 x.2 fun hkey => hjava x.2 (hkey ▸ hx)
  rw [← readRecord_iff, parse, readDocument]
  generalize text.toList = cs at h ⊢
  cases h with
  | @element _ before value after hbefore hvalue hafter =>
    have hstart : skipSpace (before ++ (value ++ after)) = value ++ after := by
      rw [skipSpace_blank hbefore, skipSpace_value hvalue]
    have hends : EndsNumber after := by
      rw [← List.append_nil after]
      exact endsNumber_blank hafter fun c hc => nomatch hc
    have hspace : skipSpace after = [] := by
      rw [← List.append_nil after]
      exact skipSpace_blank hafter []
    have hrecord := hread hvalue hstart hends
    cases hx : (takeMembers Members.take record.start ms).bind
        fun state => (record.finish state).toOption with
    | none =>
      rw [hx] at hrecord
      cases hr : readRecord record (before ++ (value ++ after)) with
      | error fault => simp
      | ok x => simp [hr, Except.toOption] at hrecord
    | some m' =>
      rw [hx] at hrecord
      rw [toOption_eq_some.mp hrecord]
      simp [hspace]

end LaunchDist.Manifest
