import ScriptMachine.Proofs.Compiler.Scopes

set_option autoImplicit false

/- What a name stands for in a quiet compilation: a slot that holds a value, or a variable that
every function in between has captured. -/
namespace ScriptMachine.Compiler

open Prototype (Setting Note Settles Sound Marked)

section Locals

variable {draft : Draft} {name : Text} {slot : Nat} {found : Variable}

theorem findLocal_go {locals : List Variable} (here : Draft.findLocal.go name locals = some (slot, found)) :
    locals.reverse[slot]? = some found := by
  induction locals with
  | nil => cases here
  | cons newest older ih =>
    rw [Draft.findLocal.go] at here
    rw [List.reverse_cons]
    split at here
    · cases here
      simp
    · have inside := ih here
      rw [List.getElem?_append_left (List.getElem?_eq_some_iff.mp inside).1]
      exact inside

theorem name_of_findLocal {locals : List Variable}
    (here : Draft.findLocal.go name locals = some (slot, found)) : found.name = name := by
  induction locals with
  | nil => cases here
  | cons newest older ih =>
    rw [Draft.findLocal.go] at here
    split at here
    · next same =>
      cases here
      exact eq_of_beq same
    · exact ih here

/-- A local that can be read is in the slot that its name is resolved to. -/
theorem visible_of_findLocal
    (settled : ∀ other ∈ draft.locals.tail, other.depth.isSome = true)
    (here : draft.findLocal name = some (slot, found)) (readable : found.depth.isSome = true) :
    draft.visible.reverse[slot]? = some found := by
  have place := findLocal_go here
  unfold Draft.visible
  cases locals : draft.locals with
  | nil => simp [locals] at place
  | cons newest older =>
    rw [locals] at place settled
    have rest : older.filter (fun other => other.depth.isSome) = older :=
      List.filter_eq_self.mpr settled
    rw [List.filter_cons, rest]
    split
    · exact place
    · next unset =>
      -- the newest local is not the one that was found
      rw [List.reverse_cons] at place
      have inside : slot < older.reverse.length := by
        by_contra beyond
        rw [List.getElem?_append_right (by omega)] at place
        have same := List.mem_singleton.mp (List.mem_of_getElem? place)
        exact unset (same ▸ readable)
      rwa [List.getElem?_append_left inside] at place

/-- The locals that can be read are the oldest. -/
theorem visible_prefix (settled : ∀ other ∈ draft.locals.tail, other.depth.isSome = true) :
    draft.visible.reverse <+: draft.locals.reverse := by
  unfold Draft.visible
  cases locals : draft.locals with
  | nil => exact List.prefix_refl _
  | cons newest older =>
    rw [locals] at settled
    have rest : older.filter (fun other => other.depth.isSome) = older :=
      List.filter_eq_self.mpr settled
    rw [List.filter_cons, rest]
    split
    · exact List.prefix_refl _
    · rw [List.reverse_cons]
      exact List.prefix_append _ _

end Locals

section Capturing

variable {inner outer later : Draft} {name : Text} {worded : Prop}

/-- Some local of a draft later on. -/
theorem Draft.Grows.visible_at (grows : outer.Grows 0 later) {slot : Nat} {found : Variable}
    (here : outer.visible.reverse[slot]? = some found) :
    ∃ aged, later.visible.reverse[slot]? = some aged ∧ found.Ages aged := by
  have ages := List.rel_reverse grows.visible_older
  rw [List.drop_zero] at ages
  obtain ⟨inside, same⟩ := List.getElem?_eq_some_iff.mp here
  have there : slot < later.visible.reverse.length := ages.length_eq ▸ inside
  refine ⟨_, List.getElem?_eq_getElem there, ?_⟩
  rw [← same]
  exact (List.forall₂_iff_get.mp ages).2 slot inside there

theorem Draft.CapturesFrom.grown (captures : inner.CapturesFrom worded outer)
    (grows : outer.Grows 0 later) : inner.CapturesFrom worded later := by
  intro capture member
  have before := captures capture member
  split
  · next isLocal =>
    rw [if_pos isLocal] at before
    obtain ⟨found, here, captured, named⟩ := before
    obtain ⟨aged, there, ages⟩ := grows.visible_at here
    exact ⟨aged, there, ages.captured captured, by rw [ages.name]; exact named⟩
  · next isLocal =>
    rw [if_neg isLocal] at before
    have more := grows.captures.length_le
    simp only [Array.length_toList] at more
    omega

theorem ages_modify (list : List Variable) (index : Nat) {change : Variable → Variable}
    (ages : ∀ found : Variable, found.Ages (change found)) :
    List.Forall₂ Variable.Ages list (list.modify index change) := by
  induction list generalizing index with
  | nil => simp
  | cons newest older ih =>
    cases index with
    | zero => exact .cons (ages newest) (ages_refl older)
    | succ index => exact .cons (.refl newest) (ih index)

theorem Draft.waits_modifyLocal (draft : Draft) (slot : Nat) {change : Variable → Variable}
    (ages : ∀ found : Variable, found.Ages (change found)) :
    draft.Waits (draft.modifyLocal slot change) where
  grows :=
    { id := rfl
      kind := rfl
      scopeDepth := rfl
      name := rfl
      arity := rfl
      isMethod := rfl
      constants := List.prefix_refl _
      captures := List.prefix_refl _
      layouts := List.prefix_refl _
      count := Nat.zero_le _
      newer := by simp
      older := ages_modify _ _ ages }
  code := rfl
  lines := rfl
  constants := rfl

/-- The local that a lookup has found is captured from then on. -/
theorem captured_modifyLocal {slot : Nat} {found : Variable} {change : Variable → Variable}
    (settled : ∀ other ∈ outer.locals.tail, other.depth.isSome = true)
    (waits : outer.Waits (outer.modifyLocal slot change))
    (visible : outer.visible.reverse[slot]? = some found)
    (here : outer.locals.reverse[slot]? = some found)
    (captures : ∀ found, (change found).captured = true) :
    ∃ aged, (outer.modifyLocal slot change).visible.reverse[slot]? = some aged ∧
      aged.captured = true ∧ aged.name = found.name := by
  obtain ⟨aged, there, ages⟩ := waits.grows.visible_at visible
  refine ⟨aged, there, ?_, ages.name⟩
  obtain ⟨rest, split⟩ := visible_prefix (waits.grows.settled settled)
  have isAged : (outer.modifyLocal slot change).locals.reverse[slot]? = some aged := by
    rw [← split, List.getElem?_append_left (List.getElem?_eq_some_iff.mp there).1]
    exact there
  have inside : slot < outer.locals.length := by
    simpa using (List.getElem?_eq_some_iff.mp here).1
  rw [List.getElem?_reverse inside] at here
  rw [List.getElem?_reverse (by simpa [Draft.modifyLocal] using inside)] at isAged
  simp only [Draft.modifyLocal, List.length_modify, List.getElem?_modify_eq, here] at isAged
  cases isAged
  exact captures found

section Adding

variable {draft : Draft} {capture : Capture}

/-- Adding a capture changes nothing but the captures. -/
theorem addCapture_eq (draft : Draft) (capture : Capture) :
    ∃ captures, (addCapture draft capture).1 = { draft with body := { draft.body with captures } } ∧
      draft.body.captures.toList <+: captures.toList ∧
      ∀ other ∈ captures, other ∈ draft.body.captures ∨ other = capture := by
  unfold addCapture
  dsimp only
  split
  · exact ⟨_, rfl, List.prefix_refl _, fun _ => Or.inl⟩
  · split
    · exact ⟨_, rfl, List.prefix_refl _, fun _ => Or.inl⟩
    · refine ⟨_, rfl, ?_, fun other member => Array.mem_push.mp member⟩
      rw [Array.toList_push]
      exact List.prefix_append _ _

theorem addCapture_index (fine : (addCapture draft capture).2.2 = []) :
    (addCapture draft capture).2.1 < (addCapture draft capture).1.body.captures.size := by
  unfold addCapture at fine ⊢
  dsimp only at fine ⊢
  split at fine
  · next index found =>
    obtain ⟨place, _, rfl⟩ := Option.map_eq_some_iff.mp found
    exact place.isLt
  · split at fine
    · cases fine
    · next few =>
      rw [if_neg few]
      simp

theorem waits_addCapture (draft : Draft) (capture : Capture) :
    draft.Waits (addCapture draft capture).1 := by
  obtain ⟨captures, same, more, _⟩ := addCapture_eq draft capture
  rw [same]
  exact
    { grows :=
        { id := rfl
          kind := rfl
          scopeDepth := rfl
          name := rfl
          arity := rfl
          isMethod := rfl
          constants := List.prefix_refl _
          captures := more
          layouts := List.prefix_refl _
          count := Nat.zero_le _
          newer := by simp
          older := ages_refl _ }
      code := rfl
      lines := rfl
      constants := rfl }

end Adding

/-- What a lookup in the functions around leaves behind. -/
structure Captured (worded : Prop) (draft : Draft) (enclosing : List Draft) (found : Capturing) :
    Prop where
  draft : draft.Waits found.draft
  enclosing : List.Forall₂ Draft.Waits enclosing found.enclosing
  chain : Draft.Chained worded (found.draft :: found.enclosing)
  index : ∀ index, found.index = some index → index < found.draft.body.captures.size

theorem problems_of_index_none {draft : Draft} {enclosing : List Draft}
    (unknown : (capture name draft enclosing).index = none) :
    (capture name draft enclosing).problems = [] := by
  generalize result : capture name draft enclosing = found at unknown ⊢
  cases enclosing with
  | nil =>
    rw [← result]
    rfl
  | cons outer rest =>
    rw [capture] at result
    dsimp only at result
    split at result
    · rw [← result] at unknown
      cases unknown
    · split at result
      · rw [← result]
      · rw [← result] at unknown
        cases unknown

/-- A capture is added to a function whose other captures are in order. -/
theorem captures_addCapture {draft outer around : Draft} {capture : Capture}
    (captures : draft.CapturesFrom worded outer) (grows : outer.Grows 0 around)
    (new : if capture.isLocal then
        ∃ found, around.visible.reverse[capture.index]? = some found ∧ found.captured = true ∧
          (worded → found.name ≠ [])
      else capture.index < around.body.captures.size) :
    (addCapture draft capture).1.CapturesFrom worded around := by
  obtain ⟨others, same, _, only⟩ := addCapture_eq draft capture
  rw [same]
  intro other member
  rcases only other member with old | rfl
  · exact captures.grown grows other old
  · exact new

theorem captured_capture {draft : Draft} {enclosing : List Draft}
    (settled : ∀ around ∈ enclosing, ∀ found ∈ around.locals.tail, found.depth.isSome = true)
    (chain : Draft.Chained worded (draft :: enclosing)) (named : worded → name ≠ [])
    (fine : (capture name draft enclosing).problems = []) :
    Captured worded draft enclosing (capture name draft enclosing) := by
  induction enclosing generalizing draft with
  | nil => exact ⟨.refl draft, .nil, chain, by rintro _ ⟨⟩⟩
  | cons outer rest ih =>
    rw [capture] at fine ⊢
    dsimp only at fine ⊢
    split at fine
    · next slot found here =>
      obtain ⟨readable, fine⟩ := List.append_eq_nil_iff.mp fine
      have isSet : found.depth.isSome = true := by
        by_contra unset
        rw [if_pos (by simpa using unset)] at readable
        cases readable
      have marks : outer.Waits (outer.modifyLocal slot fun found =>
          { found with captured := true, shape := found.shape.merge .anything }) :=
        outer.waits_modifyLocal slot fun found => ⟨rfl, rfl, fun _ => rfl⟩
      have place := visible_of_findLocal (settled outer List.mem_cons_self) here isSet
      refine ⟨waits_addCapture _ _, .cons marks (List.forall₂_same.mpr fun draft _ => .refl draft),
        ?_, ?_⟩
      · refine ⟨?_, captures_addCapture chain.2.1 marks.grows ?_, ?_⟩
        · rw [(waits_addCapture _ _).grows.kind]
          exact chain.1
        · obtain ⟨aged, there, captured, isName⟩ := captured_modifyLocal
            (settled outer List.mem_cons_self) marks place (findLocal_go here) fun _ => rfl
          refine ⟨aged, there, captured, ?_⟩
          rw [isName, name_of_findLocal here]
          exact named
        · exact @chain_of_captures _ outer _ _ rfl rfl chain.2.2
      · rintro _ ⟨⟩
        exact addCapture_index fine
    · next elsewhere =>
      have around := fun fine => ih (fun draft member => settled draft (List.mem_cons_of_mem _ member))
        chain.2.2 fine
      split at fine
      · next unknown =>
        obtain ⟨waits, rests, chained, _⟩ := around (problems_of_index_none unknown)
        refine ⟨.refl draft, .cons waits rests, ?_, by rintro _ ⟨⟩⟩
        exact ⟨chain.1, chain.2.1.grown waits.grows, chained⟩
      · next index known =>
        obtain ⟨inner, fine⟩ := List.append_eq_nil_iff.mp fine
        obtain ⟨waits, rests, chained, bounded⟩ := around inner
        refine ⟨waits_addCapture _ _, .cons waits rests, ?_, ?_⟩
        · refine ⟨?_, captures_addCapture chain.2.1 waits.grows (bounded index known), chained⟩
          rw [(waits_addCapture _ _).grows.kind]
          exact chain.1
        · rintro _ ⟨⟩
          exact addCapture_index fine

end Capturing

section Resolving

variable {state : State} {name : Text} {done : Option Nat → State → Prop}

/-- A name of the current function stands for a slot that has its value. -/
theorem does_resolveLocal (orderly : Orderly state)
    (known : ∀ slot, slot < state.draft.visible.length → done (some slot) state)
    (unknown : done none state) : Does (resolveLocal name) state done := by
  unfold resolveLocal
  refine does_ran rfl ?_
  split
  · next slot found here =>
    unfold checkReadable
    by_cases unset : found.depth.isNone = true
    · rw [if_pos unset]
      exact does_bind (does_error orderly.calm)
    · rw [if_neg unset]
      have settled := (orderly.each state.draft List.mem_cons_self).settled
      have readable : found.depth.isSome = true :=
        Option.isSome_iff_ne_none.mpr (by simpa using unset)
      have place := visible_of_findLocal settled here readable
      refine does_ran rfl (does_pure (known slot ?_))
      simpa using (List.getElem?_eq_some_iff.mp place).1
  · exact does_pure unknown

/-- A name of a function around stands for a captured variable. -/
theorem does_resolveUpvalue (orderly : Orderly state)
    (named : state.cursor.Worded → name ≠ [])
    (next : ∀ index later, Adds 0 state later [] →
      (∀ place, index = some place → place < later.draft.body.captures.size) →
      done index later) : Does (resolveUpvalue name) state done := by
  let found := capture name state.draft state.enclosing
  let later : State := { state with draft := found.draft, enclosing := found.enclosing }
  have calm : Calm later := orderly.calm
  unfold resolveUpvalue
  refine does_ran rfl (does_ran rfl ?_)
  change Does ((forIn found.problems PUnit.unit fun problem _ => do
    error problem
    pure (ForInStep.yield PUnit.unit)) >>= fun _ => pure found.index) later done
  cases problems : found.problems with
  | cons problem rest =>
    let inv : List Problem → State → Prop := fun list middle => Calm middle ∧ list ≠ []
    have loop : Does (forIn (problem :: rest) PUnit.unit fun problem _ => do
        error problem
        pure (ForInStep.yield PUnit.unit) : Compile PUnit) later fun _ => inv [] :=
      does_for (fun _ _ _ holds => does_error holds.1) _ ⟨calm, by simp⟩
    exact does_bind (loop.mono fun _ _ holds => absurd rfl holds.2)
  | nil =>
    refine does_ran rfl (does_pure ?_)
    have settled : ∀ around ∈ state.enclosing, ∀ found ∈ around.locals.tail,
        found.depth.isSome = true := fun around member =>
      (orderly.each around (List.mem_cons_of_mem _ member)).settled
    obtain ⟨waits, rests, chain, bounded⟩ :=
      captured_capture settled orderly.captures named
        (problems : (capture name _ _).problems = [])
    have grows : Grows 0 state later :=
      ⟨waits.grows, rests, fun _ _ => rfl, fun _ _ known => known, List.prefix_refl _, rfl⟩
    have adds : Adds 0 state later [] := by
      refine ⟨?_, grows, grows.stages rfl fun worded => worded, ?_⟩
      · refine orderly.change calm rfl (fun _ _ known => known) orderly.bare rfl waits.grows.id rests
          chain ?_
          (waits.orderly (orderly.each state.draft List.mem_cons_self))
        intro id member
        refine Or.inl (mem_pool_of_references ?_)
        rwa [Prototype.references, waits.grows.name, waits.constants] at member
      · rw [List.append_nil]
        exact congrArg Array.toList waits.code
    exact next found.index later adds bounded

end Resolving

end ScriptMachine.Compiler
