import ScriptMachine.Proofs.Twins.Drafts

set_option autoImplicit false

/- Actions of the compiler that keep pace: run in two compilations that agree, they end alike, unless one
of the two finds no room on the heap. -/
namespace ScriptMachine.Compiler

variable {α β γ δ σ : Type} {pairs more most : Pairing} {left right left' right' : State}

section Coupling

/-- How an action ends in two compilations: with results, without progress in both of them, or for
lack of room in one. -/
inductive EndsAlike (done : α → β → State → State → Prop) :
    EStateM.Result Stop State α → EStateM.Result Stop State β → Prop
  | both {a : α} {b : β} {left right : State} : done a b left right →
      EndsAlike done (.ok a left) (.ok b right)
  | diverged {left right : State} : EndsAlike done (.error .diverged left) (.error .diverged right)
  | exhausted {failure : Exhausted} {left : State} {other : EStateM.Result Stop State β} :
      EndsAlike done (.error (.exhausted failure) left) other
  | exhausted' {failure : Exhausted} {right : State} {other : EStateM.Result Stop State α} :
      EndsAlike done other (.error (.exhausted failure) right)

/-- Started in `left` and `right`, the two actions end alike. -/
def Coupled (first : Compile α) (second : Compile β) (left right : State)
    (done : α → β → State → State → Prop) : Prop :=
  EndsAlike done (first left) (second right)

variable {done : α → β → State → State → Prop}

theorem coupled_pure {a : α} {b : β} (holds : done a b left right) :
    Coupled (pure a) (pure b) left right done :=
  .both holds

theorem coupled_bind {begin : Compile γ} {begin' : Compile δ} {first : γ → Compile α}
    {second : δ → Compile β}
    (coupled : Coupled begin begin' left right fun a b left right =>
      Coupled (first a) (second b) left right done) :
    Coupled (begin >>= first) (begin' >>= second) left right done := by
  simp only [Coupled, bind, EStateM.bind] at coupled ⊢
  generalize begin left = one at coupled
  generalize begin' right = other at coupled
  cases coupled with
  | both both => exact both
  | diverged => exact .diverged
  | exhausted => exact .exhausted
  | exhausted' =>
    cases one <;> exact .exhausted'

theorem Coupled.mono {first : Compile α} {second : Compile β}
    {weaker : α → β → State → State → Prop} (coupled : Coupled first second left right done)
    (implies : ∀ a b left right, done a b left right → weaker a b left right) :
    Coupled first second left right weaker := by
  unfold Coupled at coupled ⊢
  generalize first left = one at coupled
  generalize second right = other at coupled
  cases coupled with
  | both both => exact .both (implies _ _ _ _ both)
  | diverged => exact .diverged
  | exhausted => exact .exhausted
  | exhausted' => exact .exhausted'

end Coupling

section Pacing

/-- Two compilations that agree. What they have in use is there, and so is what is held. -/
structure Paced (pairs : Pairing) (held held' : List ObjectId) (left right : State) : Prop where
  twin : State.Twin pairs left right
  backed : Backed held left
  backed' : Backed held' right

/-- Compilations that have gone on alike. What was paired stays paired. -/
structure Proceeds (pairs : Pairing) (left right : State) (more : Pairing) (held held' : List ObjectId)
    (left' right' : State) : Prop where
  goes : Heap.Goes pairs left.heap right.heap more left'.heap right'.heap
  paced : Paced more held held' left' right'

theorem Paced.stays {held held' : List ObjectId} (paced : Paced pairs held held' left right) :
    Proceeds pairs left right pairs held held' left right :=
  ⟨paced.twin.heap.goes, paced⟩

theorem Proceeds.trans {held held' kept kept' : List ObjectId} {left'' right'' : State}
    (one : Proceeds pairs left right more held held' left' right')
    (two : Proceeds more left' right' most kept kept' left'' right'') :
    Proceeds pairs left right most kept kept' left'' right'' :=
  ⟨one.goes.trans two.goes, two.paced⟩

/-- An action with the same result in both compilations. -/
class Even (action : Compile α) : Prop where
  coupled : ∀ {pairs : Pairing} {left right : State}, Paced pairs [] [] left right →
    Coupled action action left right fun a b left' right' =>
      b = a ∧ ∃ more, Proceeds pairs left right more [] [] left' right'

/-- What follows an action that keeps pace. -/
theorem Even.andThen {begin : Compile γ} [even : Even begin] {first : γ → Compile α}
    {second : γ → Compile β} {done : α → β → State → State → Prop}
    (paced : Paced pairs [] [] left right)
    (next : ∀ a more left' right', Proceeds pairs left right more [] [] left' right' →
      Coupled (first a) (second a) left' right' done) :
    Coupled (begin >>= first) (begin >>= second) left right done := by
  refine coupled_bind ((even.coupled paced).mono fun a b left' right' goes => ?_)
  obtain ⟨rfl, more, proceeds⟩ := goes
  exact next b more left' right' proceeds

theorem even_pure_of_proceeds {a : α} (proceeds : Proceeds pairs left right more [] [] left' right') :
    Coupled (pure a) (pure a) left' right' fun (a b : α) left' right' =>
      b = a ∧ ∃ more, Proceeds pairs left right more [] [] left' right' :=
  coupled_pure ⟨rfl, more, proceeds⟩

/-- The last of a sequence of actions. -/
theorem Even.finish {action : Compile α} [even : Even action]
    (proceeds : Proceeds pairs left right more [] [] left' right') :
    Coupled action action left' right' fun a b left' right' =>
      b = a ∧ ∃ more, Proceeds pairs left right more [] [] left' right' := by
  refine (even.coupled proceeds.paced).mono fun a b left'' right'' goes => ?_
  obtain ⟨same, most, next⟩ := goes
  exact ⟨same, most, proceeds.trans next⟩

instance (value : α) : Even (pure value : Compile α) where
  coupled paced := coupled_pure ⟨rfl, _, paced.stays⟩

instance : Even (throw .diverged : Compile α) where
  coupled _ := .diverged

theorem Even.seq {first : Compile β} {rest : β → Compile α} (begins : Even first)
    (goesOn : ∀ value, Even (rest value)) : Even (first >>= rest) where
  coupled paced := Even.andThen paced fun value _ _ _ proceeds => (goesOn value).finish proceeds

instance (first : Compile β) (rest : β → Compile α) [begins : Even first]
    [goesOn : ∀ value, Even (rest value)] : Even (first >>= rest) :=
  begins.seq goesOn

instance (change : α → β) (action : Compile α) [Even action] : Even (change <$> action) := by
  rw [map_eq_pure_bind]
  infer_instance

instance (test : Prop) [Decidable test] (yes no : Compile α) [one : Even yes] [other : Even no] :
    Even (if test then yes else no) := by
  split
  · exact one
  · exact other

instance even_iterate (bound : Nat) (value : σ) (body : σ → Compile (σ × Bool))
    [each : ∀ value, Even (body value)] : Even (iterate bound value body) := by
  induction bound generalizing value with
  | zero =>
    rw [iterate]
    infer_instance
  | succ bound ih =>
    rw [iterate]
    infer_instance

instance (list : List α) (init : σ) (body : α → σ → Compile (ForInStep σ))
    [each : ∀ item value, Even (body item value)] : Even (forIn list init body) := by
  induction list generalizing init with
  | nil =>
    rw [List.forIn_nil]
    infer_instance
  | cons item rest ih =>
    have goesOn : ∀ step : ForInStep σ, Even (match step with
        | .done value => pure value
        | .yield value => forIn rest value body : Compile σ) := by
      intro step
      cases step <;> dsimp only <;> infer_instance
    rw [List.forIn_cons]
    infer_instance

/-- An action that looks at parts of the state that are the same in both compilations. -/
theorem even_get {rest : State → Compile α}
    (same : ∀ {pairs left right}, State.Twin pairs left right → rest right = rest left)
    (goesOn : ∀ state, Even (rest state)) : Even (get >>= rest) where
  coupled {pairs left right} paced := by
    change Coupled (rest left) (rest right) left right _
    rw [same paced.twin]
    exact (goesOn left).coupled paced

theorem even_draft {rest : Draft → Compile α}
    (same : ∀ {pairs} {draft draft' : Draft}, draft.Twin pairs draft' → rest draft' = rest draft)
    (goesOn : ∀ draft, Even (rest draft)) : Even (draft >>= rest) where
  coupled {pairs left right} paced := by
    change Coupled (rest left.draft) (rest right.draft) left right _
    rw [same paced.twin.draft]
    exact (goesOn left.draft).coupled paced

end Pacing

section Changes

/-- A change that touches neither the heap nor what is in use. -/
theorem even_modify {change : State → State}
    (twins : ∀ {pairs left right}, State.Twin pairs left right →
      State.Twin pairs (change left) (change right))
    (heap : ∀ state, (change state).heap = state.heap)
    (registry : ∀ state, (change state).registry = state.registry)
    (outside : ∀ state, (change state).outside = state.outside)
    (roots : ∀ state, (change state).roots = state.roots)
    (drafts : ∀ state, (change state).drafts.map Draft.id = state.drafts.map Draft.id) :
    Even (modify change : Compile Unit) where
  coupled {pairs left right} paced := by
    have same : ∀ {state : State}, Backed [] state → Backed [] (change state) := fun backed =>
      backed.reroot (heap _) (registry _) (outside _) (fun id member => by rwa [roots] at member)
        fun draft member => by
          have inside := List.mem_map_of_mem (f := Draft.id) member
          rw [drafts] at inside
          obtain ⟨old, isOld, same⟩ := List.mem_map.mp inside
          rw [← same]
          exact backed.functions old isOld
    refine .both ⟨rfl, pairs, ?_, twins paced.twin, same paced.backed, same paced.backed'⟩
    rw [heap, heap]
    exact paced.twin.heap.goes

/-- A change of the scopes of a draft, which looks at neither its object nor its code. -/
theorem even_scope {change : Draft → Draft}
    (same : ∀ draft id body, change { draft with id, body } = { change draft with id, body }) :
    Even (modifyDraft change) := by
  refine even_modify (fun twin => { twin with draft := twin.draft.change same }) (fun _ => rfl)
    (fun _ => rfl) (fun _ => rfl) (fun state => ?_) fun state => ?_
  all_goals
    have kept := same state.draft state.draft.id state.draft.body
    simp only [State.roots, Draft.roots, State.drafts, List.map_cons]
    rw [kept]

/-- A change of the code of a draft, which looks at neither its name nor its constants. -/
theorem even_body {change : Prototype → Prototype}
    (same : ∀ body name constants,
      change { body with name, constants } = { change body with name, constants }) :
    Even (modifyBody change) := by
  refine even_modify (fun {pairs left right} twin => ?_) (fun _ => rfl) (fun _ => rfl) (fun _ => rfl)
    (fun state => ?_) fun _ => rfl
  · refine { twin with draft := twin.draft.withBody ?_ }
    have body := twin.draft.body
    have ours := same left.draft.body left.draft.body.name left.draft.body.constants
    have theirs := same left.draft.body right.draft.body.name right.draft.body.constants
    rw [← body.rest] at theirs
    rw [theirs, ours]
    exact ⟨body.name, body.constants, rfl⟩
  · have kept := same state.draft.body state.draft.body.name state.draft.body.constants
    simp only [State.roots, Draft.roots]
    rw [kept]
    rfl

end Changes

end ScriptMachine.Compiler
