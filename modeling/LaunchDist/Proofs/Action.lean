import LaunchDist.Action
/-!
# What an action has done

An action that ends with a value is taken apart into its parts, each of which has ended with one. One
that fails has stopped at one of its parts, in the state that this part has left.
-/
namespace LaunchDist

namespace Action

section Monad

variable {ε σ α β : Type} {x : EStateM ε σ α} {f : α → EStateM ε σ β} {a a' : α} {b : β}
  {s s' : σ}

theorem bind_ok_iff :
    (x >>= f) s = .ok b s' ↔ ∃ a t, x s = .ok a t ∧ f a t = .ok b s' := by
  change EStateM.bind x f s = _ ↔ _
  rw [EStateM.bind]
  cases hx : x s with
  | ok a t =>
    constructor
    · intro h
      exact ⟨a, t, rfl, h⟩
    · rintro ⟨a', t', heq, h⟩
      cases heq
      exact h
  | error e t =>
    constructor
    · intro h
      cases h
    · rintro ⟨a', t', heq, _⟩
      cases heq

theorem bind_of_ok {t : σ} (h : x s = .ok a t) : (x >>= f) s = f a t := by
  change EStateM.bind x f s = _
  rw [EStateM.bind, h]

theorem bind_error_iff {e : ε} :
    (x >>= f) s = .error e s' ↔ x s = .error e s' ∨ ∃ a t, x s = .ok a t ∧ f a t = .error e s' := by
  change EStateM.bind x f s = _ ↔ _
  rw [EStateM.bind]
  cases hx : x s with
  | ok a t =>
    constructor
    · intro h
      exact .inr ⟨a, t, rfl, h⟩
    · rintro (h | ⟨a', t', heq, h⟩)
      · cases h
      · cases heq
        exact h
  | error e' t =>
    constructor
    · intro h
      cases h
      exact .inl rfl
    · rintro (h | ⟨a', t', heq, _⟩)
      · cases h
        rfl
      · cases heq

theorem pure_ne_error {e : ε} : (pure a : EStateM ε σ α) s ≠ .error e s' := by
  intro h
  cases h

theorem pure_ok_iff : (pure a : EStateM ε σ α) s = .ok a' s' ↔ a' = a ∧ s' = s := by
  change EStateM.Result.ok a s = _ ↔ _
  constructor
  · intro h
    cases h
    exact ⟨rfl, rfl⟩
  · rintro ⟨rfl, rfl⟩
    rfl

end Monad

/-- Whether an action ends with a value. -/
def succeeds {ε σ α : Type} : EStateM.Result ε σ α → Bool
  | .ok _ _ => true
  | .error _ _ => false

theorem exists_of_succeeds {ε σ α : Type} {r : EStateM.Result ε σ α} (h : succeeds r = true) :
    ∃ a s, r = .ok a s := by
  cases r with
  | ok a s => exact ⟨a, s, rfl⟩
  | error e s => cases h

theorem exists_of_not_succeeds {ε σ α : Type} {r : EStateM.Result ε σ α} (h : succeeds r = false) :
    ∃ e s, r = .error e s := by
  cases r with
  | ok a s => cases h
  | error e s => exact ⟨e, s, rfl⟩

/-- The state in which an action ends, with a value or not. -/
def stateAfter {ε σ α : Type} : EStateM.Result ε σ α → σ
  | .ok _ s => s
  | .error _ s => s

/-- With what an action ends, a value or a failure. -/
def outcome {ε σ α : Type} : EStateM.Result ε σ α → Except ε α
  | .ok a _ => .ok a
  | .error e _ => .error e

theorem stateAfter_bind {ε σ α β : Type} {x : EStateM ε σ α} {f : α → EStateM ε σ β} {s : σ}
    {P : σ → Prop} (herror : ∀ e t, x s = .error e t → P t)
    (hok : ∀ a t, x s = .ok a t → P (stateAfter (f a t))) : P (stateAfter ((x >>= f) s)) := by
  cases h : x s with
  | ok a t =>
    rw [bind_of_ok h]
    exact hok a t h
  | error e t =>
    rw [bind_error_iff.mpr (.inl h)]
    exact herror e t h

/-- Whether an action ends with a value, in a state that passes a test. -/
def endsIn {ε σ α : Type} (test : σ → Bool) : EStateM.Result ε σ α → Bool
  | .ok _ s => test s
  | .error _ _ => false

theorem exists_of_endsIn {ε σ α : Type} {test : σ → Bool} {r : EStateM.Result ε σ α}
    (h : endsIn test r = true) : ∃ a s, r = .ok a s ∧ test s = true := by
  cases r with
  | ok a s => exact ⟨a, s, rfl, h⟩
  | error e s => cases h

/-- With what an action fails, if it does. -/
def failure? {ε σ α : Type} : EStateM.Result ε σ α → Option ε
  | .ok _ _ => none
  | .error e _ => some e

theorem eq_error_of_failure? {ε σ α : Type} {e : ε} {r : EStateM.Result ε σ α}
    (h : failure? r = some e) : r = .error e (stateAfter r) := by
  cases r with
  | ok a s => cases h
  | error e' s =>
    obtain rfl := Option.some.inj h
    rfl

section Workspace

variable {α : Type} {w w' : Workspace} {a : α} {u : Unit} {p : Path}

theorem report_ok_iff {e : Event} :
    report e w = .ok u w' ↔ w' = { w with log := w.log ++ [e] } := by
  change EStateM.Result.ok () _ = _ ↔ _
  constructor
  · intro h
    cases h
    rfl
  · rintro rfl
    rfl

theorem ofExcept_ok_iff {r : Except Failure α} : ofExcept r w = .ok a w' ↔ r = .ok a ∧ w' = w := by
  cases r with
  | error e =>
    constructor
    · intro h
      cases h
    · rintro ⟨h, _⟩
      cases h
  | ok b =>
    rw [Except.ok.injEq, eq_comm (a := b)]
    exact pure_ok_iff

theorem query_ok_iff {question : FileSystem → Except Failure α} :
    query question w = .ok a w' ↔ question w.files = .ok a ∧ w' = w :=
  ofExcept_ok_iff

theorem changeAt_ok_iff {change : FileSystem.Change Unit} :
    changeAt p change w = .ok u w' ↔
      ∃ files, change w.files = .ok () files ∧ w' = { w with files } := by
  rw [changeAt]
  cases hc : change w.files with
  | ok v files =>
    constructor
    · intro h
      cases h
      exact ⟨files, rfl, rfl⟩
    · rintro ⟨files', heq, rfl⟩
      cases heq
      rfl
  | error e files =>
    constructor
    · intro h
      cases h
    · rintro ⟨files', heq, _⟩
      cases heq

theorem atomic_ok_iff {change : FileSystem → Except FileFailure FileSystem} {fs fs' : FileSystem} :
    FileSystem.Change.atomic change fs = .ok u fs' ↔ change fs = .ok fs' := by
  rw [FileSystem.Change.atomic]
  cases change fs with
  | ok files =>
    constructor
    · intro h
      cases h
      rfl
    · intro h
      cases h
      rfl
  | error e =>
    constructor
    · intro h
      cases h
    · intro h
      cases h

theorem report_ne_error {e : Event} {failure : Failure} : report e w ≠ .error failure w' := by
  intro h
  cases h

theorem ofExcept_error_iff {r : Except Failure α} {failure : Failure} :
    ofExcept r w = .error failure w' ↔ r = .error failure ∧ w' = w := by
  cases r with
  | error e =>
    constructor
    · intro h
      cases h
      exact ⟨rfl, rfl⟩
    · rintro ⟨h, rfl⟩
      cases h
      rfl
  | ok b =>
    constructor
    · intro h
      cases h
    · rintro ⟨h, _⟩
      cases h

theorem query_error_iff {question : FileSystem → Except Failure α} {failure : Failure} :
    query question w = .error failure w' ↔ question w.files = .error failure ∧ w' = w :=
  ofExcept_error_iff

theorem outcome_query {question : FileSystem → Except Failure α} :
    outcome (query question w) = question w.files := by
  cases hq : question w.files with
  | ok a => rw [query_ok_iff.mpr ⟨hq, rfl⟩, outcome]
  | error failure => rw [query_error_iff.mpr ⟨hq, rfl⟩, outcome]

theorem changeAt_error {change : FileSystem.Change Unit} {failure : Failure}
    (h : changeAt p change w = .error failure w') :
    ∃ e files, failure = .io p e ∧ change w.files = .error e files ∧ w' = { w with files } := by
  rw [changeAt] at h
  cases hc : change w.files with
  | ok v files => rw [hc] at h; cases h
  | error e files =>
    rw [hc] at h
    cases h
    exact ⟨e, files, rfl, rfl, rfl⟩

theorem atomic_error {change : FileSystem → Except FileFailure FileSystem} {fs fs' : FileSystem}
    {e : FileFailure} (h : FileSystem.Change.atomic change fs = .error e fs') : fs' = fs := by
  rw [FileSystem.Change.atomic] at h
  cases hc : change fs with
  | ok files => rw [hc] at h; cases h
  | error e' =>
    rw [hc] at h
    cases h
    rfl

theorem files_changeAt (p : Path) (change : FileSystem.Change Unit) (w : Workspace) :
    (stateAfter (changeAt p change w)).files = stateAfter (change w.files) := by
  rw [changeAt]
  cases change w.files <;> rfl

theorem copyFile_error {source dest : Path} {failure : Failure}
    (h : copyFile source dest w = .error failure w') :
    w' = w ∧ ∃ e, failure = .io e.1 e.2 ∧ w.files.copyFile source dest = .error e := by
  rw [copyFile, bind_error_iff] at h
  rcases h with hq | ⟨files, w1, _, h⟩
  · obtain ⟨hq, rfl⟩ := query_error_iff.mp hq
    refine ⟨rfl, ?_⟩
    cases hc : w'.files.copyFile source dest with
    | ok fs => rw [hc] at hq; cases hq
    | error e =>
      rw [hc] at hq
      exact ⟨e, (Except.error.inj hq).symm, rfl⟩
  · rcases bind_error_iff.mp h with hm | ⟨_, w2, _, h⟩
    · cases hm
    · exact absurd h report_ne_error

theorem copyFile_of_error {source dest : Path} {e : Path × FileFailure}
    (h : w.files.copyFile source dest = .error e) :
    copyFile source dest w = .error (.io e.1 e.2) w := by
  refine bind_error_iff.mpr (.inl (query_error_iff.mpr ⟨?_, rfl⟩))
  rw [h]
  rfl

theorem copyFile_of_ok {source dest : Path} {files : FileSystem}
    (h : w.files.copyFile source dest = .ok files) :
    copyFile source dest w = .ok () ⟨files, w.log ++ [.copiedFile source dest]⟩ := by
  rw [copyFile]
  refine (bind_of_ok (query_ok_iff.mpr ⟨?_, rfl⟩)).trans rfl
  rw [h]
  rfl

theorem copyFile_ok {source dest : Path} (h : copyFile source dest w = .ok u w') :
    ∃ files, w.files.copyFile source dest = .ok files ∧
      w' = ⟨files, w.log ++ [.copiedFile source dest]⟩ := by
  rw [copyFile, bind_ok_iff] at h
  obtain ⟨files, w1, hq, h⟩ := h
  obtain ⟨hq, rfl⟩ := query_ok_iff.mp hq
  obtain ⟨_, w2, hm, h⟩ := bind_ok_iff.mp h
  rw [report_ok_iff] at h
  cases hm
  refine ⟨files, ?_, h⟩
  cases hc : w1.files.copyFile source dest with
  | error e => rw [hc] at hq; cases hq
  | ok fs => rw [hc] at hq; cases hq; rfl

end Workspace

/-- Whether an action keeps what is known of the files, with whatever it ends. -/
def Preserves {α : Type} (I : FileSystem → Prop) (x : Action α) : Prop :=
  ∀ w, I w.files → I (stateAfter (x w)).files

namespace Preserves

variable {α β : Type} {I : FileSystem → Prop} {x : Action α} {f : α → Action β}

theorem bind (hx : Preserves I x) (hf : ∀ a, Preserves I (f a)) : Preserves I (x >>= f) := by
  intro w hI
  have h := hx w hI
  apply stateAfter_bind (P := fun w' : Workspace => I w'.files)
  · intro e w' hw'
    rwa [hw'] at h
  · intro a w' hw'
    rw [hw'] at h
    exact hf a w' h

theorem of_same (h : ∀ w, (stateAfter (x w)).files = w.files) : Preserves I x := by
  intro w hI
  rwa [h w]

theorem copyFile {source dest : Path}
    (h : ∀ fs fs', I fs → fs.copyFile source dest = .ok fs' → I fs') :
    Preserves I (Action.copyFile source dest) := by
  intro w hI
  cases hcopy : Action.copyFile source dest w with
  | ok u w' =>
    obtain ⟨files, hfiles, rfl⟩ := copyFile_ok hcopy
    exact h _ _ hI hfiles
  | error e w' =>
    rw [(copyFile_error hcopy).1]
    exact hI

end Preserves

/-- Whether an action fails only for a path on which an operation has failed. -/
def FailsAtPaths {α : Type} (x : Action α) : Prop :=
  ∀ w failure w', x w = .error failure w' → ∃ p e, failure = .io p e

namespace FailsAtPaths

variable {α β : Type} {x : Action α} {f : α → Action β}

theorem bind (hx : FailsAtPaths x) (hf : ∀ a, FailsAtPaths (f a)) : FailsAtPaths (x >>= f) := by
  intro w failure w' h
  rcases bind_error_iff.mp h with h | ⟨a, w1, _, h⟩
  · exact hx _ _ _ h
  · exact hf a _ _ _ h

theorem of_never (h : ∀ w failure w', x w ≠ .error failure w') : FailsAtPaths x :=
  fun w failure w' heq => absurd heq (h w failure w')

theorem changeAt (p : Path) (change : FileSystem.Change Unit) :
    FailsAtPaths (Action.changeAt p change) := by
  intro w failure w' h
  obtain ⟨e, _, heq, _⟩ := changeAt_error h
  exact ⟨p, e, heq⟩

theorem copyFile (source dest : Path) : FailsAtPaths (Action.copyFile source dest) := by
  intro w failure w' h
  obtain ⟨_, ⟨p, e⟩, heq, _⟩ := copyFile_error h
  exact ⟨p, e, heq⟩

end FailsAtPaths

end Action

end LaunchDist
