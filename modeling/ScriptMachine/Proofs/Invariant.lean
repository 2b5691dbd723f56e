set_option autoImplicit false

/- Invariants of actions that carry a state and may stop. An invariant is kept only when it holds
in the state an action leaves however the action ends, because a stopped action keeps its state. -/
namespace ScriptMachine

section Actions

variable {ε σ α β : Type} {inv : σ → Prop}

/-- The state that is left, by a result or by a stop. -/
def stateLeft : EStateM.Result ε σ α → σ
  | .ok _ state => state
  | .error _ state => state

/-- An action that leaves the invariant whenever it finds it. -/
class Keeps (inv : σ → Prop) (action : EStateM ε σ α) : Prop where
  left : ∀ {state : σ}, inv state → inv (stateLeft (action state))

/-- What holds of every result of an action that finds the invariant. -/
def Yields (inv : σ → Prop) (action : EStateM ε σ α) (good : α → Prop) : Prop :=
  ∀ (state after : σ) (result : α), inv state → action state = .ok result after → good result

theorem modifyGet_run (change : σ → α × σ) (state : σ) :
    (modifyGet change : EStateM ε σ α) state = .ok (change state).1 (change state).2 :=
  rfl

instance (value : α) : Keeps inv (pure value : EStateM ε σ α) where
  left holds := holds

instance (stop : ε) : Keeps inv (throw stop : EStateM ε σ α) where
  left holds := holds

instance : Keeps inv (get : EStateM ε σ σ) where
  left holds := holds

theorem Yields.get : Yields inv (get : EStateM ε σ σ) inv := by
  intro state after result holds ran
  cases ran
  exact holds

theorem Yields.pure {good : α → Prop} {value : α} (isGood : good value) :
    Yields inv (pure value : EStateM ε σ α) good := by
  intro state after result _ ran
  cases ran
  exact isGood

theorem keeps_modify {change : σ → σ} (keeps : ∀ state, inv state → inv (change state)) :
    Keeps inv (modify change : EStateM ε σ Unit) where
  left holds := keeps _ holds

theorem keeps_modifyGet {change : σ → α × σ} (keeps : ∀ state, inv state → inv (change state).2) :
    Keeps inv (modifyGet change : EStateM ε σ α) where
  left holds := keeps _ holds

/-- The rest of a sequence may rely on what the results of its beginning are like. -/
theorem Keeps.bind {first : EStateM ε σ β} {rest : β → EStateM ε σ α} {good : β → Prop}
    (begins : Keeps inv first) (yields : Yields inv first good)
    (goesOn : ∀ value, good value → Keeps inv (rest value)) : Keeps inv (first >>= rest) where
  left {state} holds := by
    have between := begins.left holds
    simp only [Bind.bind, EStateM.bind]
    cases ran : first state with
    | error stop after => rwa [ran] at between
    | ok value after =>
      rw [ran] at between
      exact (goesOn value (yields _ _ _ holds ran)).left between

theorem Keeps.andThen {first : EStateM ε σ β} {rest : β → EStateM ε σ α} (begins : Keeps inv first)
    (goesOn : ∀ value, Keeps inv (rest value)) : Keeps inv (first >>= rest) := by
  have anything : Yields inv first fun _ => True := fun _ _ _ _ _ => trivial
  exact begins.bind anything fun value _ => goesOn value

instance (first : EStateM ε σ β) (rest : β → EStateM ε σ α) [begins : Keeps inv first]
    [goesOn : ∀ value, Keeps inv (rest value)] : Keeps inv (first >>= rest) :=
  begins.andThen goesOn

instance (change : α → β) (action : EStateM ε σ α) [keeps : Keeps inv action] :
    Keeps inv (change <$> action) where
  left {state} holds := by
    have between := keeps.left holds
    simp only [Functor.map, EStateM.map]
    cases ran : action state <;> rwa [ran] at between

instance (test : Prop) [Decidable test] (yes no : EStateM ε σ α) [one : Keeps inv yes]
    [other : Keeps inv no] : Keeps inv (if test then yes else no) := by
  split
  · exact one
  · exact other

theorem Yields.bind {first : EStateM ε σ β} {rest : β → EStateM ε σ α} {good : β → Prop}
    {fine : α → Prop} (begins : Keeps inv first) (yields : Yields inv first good)
    (goesOn : ∀ value, good value → Yields inv (rest value) fine) :
    Yields inv (first >>= rest) fine := by
  intro state after result holds ran
  have between := begins.left holds
  simp only [Bind.bind, EStateM.bind] at ran
  cases begun : first state with
  | error stop middle =>
    rw [begun] at ran
    cases ran
  | ok value middle =>
    rw [begun] at ran between
    exact goesOn value (yields _ _ _ holds begun) _ _ _ between ran

end Actions

end ScriptMachine
