import Mathlib

/-!
Running `EStateM` computations: the value and final state of a result, how `bind` composes, a rule
for properties of the state that every step of a computation keeps, including the steps that end in
an exception, and runs of calls on a state with the states they reach.
-/

namespace EStateM

variable {ε σ α β : Type}

namespace Result

/-- The returned value, `none` when the computation threw. -/
def value? : Result ε σ α → Option α
  | .ok a _ => some a
  | .error _ _ => none

/-- The state the computation ended in, whether it returned or threw. -/
def state : Result ε σ α → σ
  | .ok _ s => s
  | .error _ s => s

@[simp] theorem value?_ok (a : α) (s : σ) : (Result.ok a s : Result ε σ α).value? = some a := rfl

@[simp] theorem value?_error (e : ε) (s : σ) : (Result.error e s : Result ε σ α).value? = none :=
  rfl

@[simp] theorem state_ok (a : α) (s : σ) : (Result.ok a s : Result ε σ α).state = s := rfl

@[simp] theorem state_error (e : ε) (s : σ) : (Result.error e s : Result ε σ α).state = s := rfl

/-- A result that returned `a` is `ok a` in its final state. -/
theorem eq_ok_of_value? {r : Result ε σ α} {a : α} (returned : r.value? = some a) :
    r = .ok a r.state := by
  cases r with
  | ok b s => cases returned; rfl
  | error e s => cases returned

end Result

/-- A computation that returns passes through a returning first half. -/
theorem run_bind_eq_ok {x : EStateM ε σ α} {f : α → EStateM ε σ β} {s s'' : σ} {b : β} :
    (x >>= f).run s = .ok b s'' ↔ ∃ a s', x.run s = .ok a s' ∧ (f a).run s' = .ok b s'' := by
  rw [run_bind]
  cases x.run s with
  | ok a s' =>
    constructor
    · intro run
      exact ⟨a, s', rfl, run⟩
    · rintro ⟨a', s'', returned, run⟩
      cases returned
      exact run
  | error e s' => simp

/-- Setting the state discards the one before. -/
theorem run_set_bind {s s' : σ} {f : PUnit → EStateM ε σ α} :
    (MonadStateOf.set s' >>= f).run s = (f PUnit.unit).run s' :=
  rfl

/-- A handler is not run when the computation returns. -/
theorem run_tryCatch_of_ok {x : EStateM ε σ α} {handle : ε → EStateM ε σ α} {s s' : σ} {a : α}
    (returns : x.run s = .ok a s') : (tryCatch x handle).run s = .ok a s' := by
  show EStateM.tryCatch x handle s = _
  simp only [EStateM.tryCatch, show x s = .ok a s' from returns]

/-- A handler runs from the state the exception left. -/
theorem run_tryCatch_of_error {x : EStateM ε σ α} {handle : ε → EStateM ε σ α} {s s' : σ} {e : ε}
    (throws : x.run s = .error e s') : (tryCatch x handle).run s = (handle e).run s' := by
  show EStateM.tryCatch x handle s = _
  simp only [EStateM.tryCatch, show x s = .error e s' from throws]
  rfl

/-- `x` keeps `P`: from a state satisfying `P`, `x` ends, returning or throwing, in such a state. -/
def Keeps (P : σ → Prop) (x : EStateM ε σ α) : Prop :=
  ∀ s, P s → P (x.run s).state

namespace Keeps

variable {P : σ → Prop}

theorem pure (a : α) : Keeps P (Pure.pure a : EStateM ε σ α) := fun _ holds => holds

theorem get : Keeps P (MonadState.get : EStateM ε σ σ) := fun _ holds => holds

theorem throw (e : ε) : Keeps P (MonadExcept.throw e : EStateM ε σ α) := fun _ holds => holds

theorem set {s' : σ} (holds : P s') : Keeps P (MonadState.set s' : EStateM ε σ PUnit) :=
  fun _ _ => holds

theorem modify {f : σ → σ} (step : ∀ s, P s → P (f s)) :
    Keeps P (modify f : EStateM ε σ PUnit) :=
  fun s holds => step s holds

theorem ite {c : Prop} [Decidable c] {x y : EStateM ε σ α} (onTrue : Keeps P x)
    (onFalse : Keeps P y) : Keeps P (if c then x else y) := by
  by_cases holds : c
  · rw [if_pos holds]; exact onTrue
  · rw [if_neg holds]; exact onFalse

theorem bind {x : EStateM ε σ α} {f : α → EStateM ε σ β} (first : Keeps P x)
    (rest : ∀ a, Keeps P (f a)) : Keeps P (x >>= f) := by
  intro s holds
  have afterFirst := first s holds
  rw [run_bind]
  cases h : x.run s with
  | ok a s' =>
    rw [h] at afterFirst
    exact rest a s' afterFirst
  | error e s' =>
    rw [h] at afterFirst
    exact afterFirst

/-- What a computation does after reading the state need keep `P` only from that state. -/
theorem get_bind {f : σ → EStateM ε σ α} (rest : ∀ s, P s → Keeps P (f s)) :
    Keeps P (MonadState.get >>= f) :=
  fun s holds => rest s holds s holds

theorem map {x : EStateM ε σ α} (f : α → β) (keeps : Keeps P x) : Keeps P (f <$> x) := by
  intro s holds
  have after : P (x s).state := keeps s holds
  show P (EStateM.map f x s).state
  unfold EStateM.map
  cases h : x s with
  | ok a s' => rw [h] at after; exact after
  | error e s' => rw [h] at after; exact after

/-- A handler that keeps `P` starts from the state the exception left, which `P` holds of. -/
theorem tryCatch {x : EStateM ε σ α} {handle : ε → EStateM ε σ α} (body : Keeps P x)
    (handler : ∀ e, Keeps P (handle e)) : Keeps P (MonadExcept.tryCatch x handle) := by
  intro s holds
  have after : P (x s).state := body s holds
  show P (EStateM.tryCatch x handle s).state
  unfold EStateM.tryCatch
  cases h : x s with
  | ok a s' => rw [h] at after; exact after
  | error e s' =>
    rw [h] at after
    exact handler e _ after

/-- A property a computation keeps holds of the state it throws in. -/
theorem of_run_error {x : EStateM ε σ α} (keeps : Keeps P x) {s s' : σ} {e : ε} (holds : P s)
    (run : x.run s = .error e s') : P s' := by
  have after := keeps s holds
  rw [run] at after
  exact after

/-- A property a computation keeps holds of the state it returns in. -/
theorem of_run_ok {x : EStateM ε σ α} (keeps : Keeps P x) {s s' : σ} {a : α} (holds : P s)
    (run : x.run s = .ok a s') : P s' := by
  have after := keeps s holds
  rw [run] at after
  exact after

/-- Running a computation on each element of a list keeps what each run keeps. -/
theorem mapM {f : α → EStateM ε σ β} (each : ∀ a, Keeps P (f a)) :
    ∀ as : List α, Keeps P (as.mapM f)
  | [] => by
    rw [List.mapM_nil]
    exact pure _
  | a :: as => by
    rw [List.mapM_cons]
    exact bind (each a) fun _ => bind (mapM each as) fun _ => pure _

end Keeps

section Calls

/-! ### Runs of calls

A system driven by calls on its state: each call of type `κ` runs as a computation, and a state is
reachable when calls that return lead to it. A run is a list of calls, each chosen from the state it
is made in, so that it can be evaluated. -/

variable {κ : Type} (run : κ → EStateM ε σ Unit)

/-- One call that returns. -/
def Returns (s s' : σ) : Prop := ∃ call, (run call).run s = .ok () s'

/-- Make the calls in order, each chosen from the state it is made in; `none` when one throws. -/
def runCalls : List (σ → κ) → σ → Option σ
  | [], s => some s
  | call :: rest, s =>
    match (run (call s)).run s with
    | .ok () s' => runCalls rest s'
    | .error _ _ => none

/-- A run of calls that all return is a path of returning calls. -/
theorem reflTransGen_of_runCalls :
    ∀ {calls : List (σ → κ)} {s s' : σ}, runCalls run calls s = some s' →
      Relation.ReflTransGen (Returns run) s s'
  | [], s, s', ran => by
    cases ran
    exact Relation.ReflTransGen.refl
  | call :: rest, s, s', ran => by
    unfold runCalls at ran
    -- The first call returned, or the run would have stopped with `none`.
    cases first : (run (call s)).run s with
    | ok u mid =>
      rw [first] at ran
      exact Relation.ReflTransGen.head ⟨call s, first⟩ (reflTransGen_of_runCalls ran)
    | error e mid =>
      rw [first] at ran
      cases ran

/-- A run from `start` that returns in a state where `holds` is true exhibits a state reachable from
`start` where it is. -/
theorem exists_reflTransGen_of_runCalls (start : σ) (calls : List (σ → κ)) (holds : σ → Bool)
    (ran : (runCalls run calls start).map holds = some true) :
    ∃ s, Relation.ReflTransGen (Returns run) start s ∧ holds s = true := by
  cases ended : runCalls run calls start with
  | none => rw [ended] at ran; cases ran
  | some s =>
    rw [ended] at ran
    exact ⟨s, reflTransGen_of_runCalls run ended, Option.some.inj ran⟩

end Calls

end EStateM
