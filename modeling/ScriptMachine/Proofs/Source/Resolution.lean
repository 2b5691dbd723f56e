import ScriptMachine.Proofs.Source.Foretelling

set_option autoImplicit false
set_option synthInstance.maxSize 20000

/- Names are resolved lexically. A capture that a lookup has added or found leads, in the end, to the
innermost local of that name in the nearest function around that has one. -/
namespace ScriptMachine.Compiler

open Prototype (Setting Marked)
open Source (Locals Scope Context Place Leads slotOf)

section Slots

variable {name : Text} {slot : Nat} {found : Variable}

theorem slotOf_of_names {locals : Locals} {declared : List Variable}
    (names : locals.map Prod.fst = declared.map Variable.name) :
    slotOf locals name = (Draft.findLocal.go name declared).map Prod.fst := by
  induction locals generalizing declared with
  | nil =>
    cases declared with
    | nil => rfl
    | cons newest older => cases names
  | cons newest older ih =>
    cases declared with
    | nil => cases names
    | cons first rest =>
      obtain ⟨same, others⟩ := List.cons.inj names
      have count : older.length = rest.length := by
        simpa using congrArg List.length others
      rw [slotOf, Draft.findLocal.go, same]
      split
      · rw [count]
        rfl
      · exact ih others

variable {draft : Draft}

/-- Only the newest local may still be unreadable. -/
theorem visible_cases (settled : ∀ other ∈ draft.locals.tail, other.depth.isSome = true) :
    draft.visible = draft.locals ∨
      ∃ newest, draft.locals = newest :: draft.visible ∧ newest.depth.isSome = false := by
  unfold Draft.visible
  cases locals : draft.locals with
  | nil => exact Or.inl rfl
  | cons newest older =>
    rw [locals] at settled
    have rest : older.filter (fun other => other.depth.isSome) = older :=
      List.filter_eq_self.mpr settled
    cases readable : newest.depth.isSome with
    | true => exact Or.inl (by rw [List.filter_cons, readable, if_pos rfl, rest])
    | false => exact Or.inr ⟨newest, by simp [readable, rest], readable⟩

theorem findLocal_visible (settled : ∀ other ∈ draft.locals.tail, other.depth.isSome = true)
    (here : draft.findLocal name = some (slot, found)) (readable : found.depth.isSome = true) :
    Draft.findLocal.go name draft.visible = some (slot, found) := by
  unfold Draft.findLocal at here
  rcases visible_cases settled with same | ⟨newest, same, unreadable⟩
  · rwa [same]
  · rw [same, Draft.findLocal.go] at here
    split at here
    · cases here
      rw [unreadable] at readable
      cases readable
    · exact here

theorem findLocal_invisible (settled : ∀ other ∈ draft.locals.tail, other.depth.isSome = true)
    (unknown : draft.findLocal name = none) : Draft.findLocal.go name draft.visible = none := by
  unfold Draft.findLocal at unknown
  rcases visible_cases settled with same | ⟨newest, same, _⟩
  · rwa [same]
  · rw [same, Draft.findLocal.go] at unknown
    split at unknown
    · cases unknown
    · exact unknown

theorem slotOf_found {locals : Locals}
    (settled : ∀ other ∈ draft.locals.tail, other.depth.isSome = true)
    (names : locals.map Prod.fst = draft.visible.map Variable.name)
    (here : draft.findLocal name = some (slot, found)) (readable : found.depth.isSome = true) :
    slotOf locals name = some slot := by
  rw [slotOf_of_names names, findLocal_visible settled here readable]
  rfl

theorem slotOf_unknown {locals : Locals}
    (settled : ∀ other ∈ draft.locals.tail, other.depth.isSome = true)
    (names : locals.map Prod.fst = draft.visible.map Variable.name)
    (unknown : draft.findLocal name = none) : slotOf locals name = none := by
  rw [slotOf_of_names names, findLocal_invisible settled unknown]
  rfl

/-- A captured local is marked in the end. -/
theorem Surrounds.marked {scope : Scope} (surrounds : Surrounds scope draft)
    (here : draft.visible.reverse[slot]? = some found) (captured : found.captured = true) :
    Marked (scope.locals.map Prod.snd) slot := by
  have marks := List.rel_reverse surrounds.flags
  obtain ⟨inside, same⟩ := List.getElem?_eq_some_iff.mp here
  have there : slot < (scope.locals.map Prod.snd).reverse.length := marks.length_eq ▸ inside
  rw [Marked, List.getElem?_eq_getElem there, Option.some.injEq]
  refine (List.forall₂_iff_get.mp marks).2 slot there inside ?_
  rw [List.get_eq_getElem, same]
  exact captured

/-- A local that is captured is marked in the end. -/
theorem Foretells.captured {context : Context} {state : State} (foretells : Foretells context state)
    (here : state.draft.visible.reverse[slot]? = some found) (isCaptured : found.captured = true) :
    context.locals.reverse[slot]? = some (found.name, true) := by
  have marks : Marked (context.locals.map Prod.snd) slot := foretells.sees.marked here isCaptured
  have names := congrArg (fun names => names.reverse[slot]?) foretells.names
  rw [Marked] at marks
  simp only [← List.map_reverse, List.getElem?_map, here, Option.map_some] at names marks
  obtain ⟨⟨name, flag⟩, isIt, rfl⟩ := Option.map_eq_some_iff.mp marks
  rw [isIt] at names
  cases names
  exact isIt

end Slots

section Captures

variable {name : Text} {draft : Draft} {capture : Capture}

theorem getElem?_of_idxOf? {captures : Array Capture} {index : Nat}
    (found : captures.idxOf? capture = some index) : captures[index]? = some capture := by
  rw [Array.idxOf?_eq_map_finIdxOf?_val] at found
  obtain ⟨place, isPlace, rfl⟩ := Option.map_eq_some_iff.mp found
  rw [Array.getElem?_eq_getElem place.isLt]
  exact congrArg some (Array.finIdxOf?_eq_some_iff.mp isPlace).1

/-- The index of a capture is that of the one descriptor it has. -/
theorem addCapture_here (fine : (addCapture draft capture).2.2 = []) :
    (addCapture draft capture).1.body.captures[(addCapture draft capture).2.1]? = some capture := by
  unfold addCapture at fine ⊢
  split
  · next index found => exact getElem?_of_idxOf? found
  · next unknown =>
    rw [unknown] at fine
    dsimp only at fine ⊢
    split at fine
    · cases fine
    · next few =>
      rw [if_neg few]
      exact Array.getElem?_push_size

/-- A variable is captured once. -/
theorem addCapture_distinct (distinct : draft.body.captures.toList.Nodup) :
    (addCapture draft capture).1.body.captures.toList.Nodup := by
  unfold addCapture
  split
  · exact distinct
  · next unknown =>
    dsimp only
    split
    · exact distinct
    · rw [Array.toList_push]
      refine List.nodup_append.mpr ⟨distinct, by simp, fun one inside other isNew => ?_⟩
      rintro rfl
      rw [List.mem_singleton.mp isNew] at inside
      exact Array.idxOf?_eq_none_iff.mp unknown (Array.mem_toList_iff.mp inside)

theorem getElem?_of_captures {old new : Array Capture} {index : Nat}
    (begins : old.toList <+: new.toList) (here : old[index]? = some capture) :
    new[index]? = some capture :=
  getElem?_of_prefix begins here

variable {enclosing : List Draft}

/-- In every function around, all but the newest local have their values. -/
abbrev Settled (enclosing : List Draft) : Prop :=
  ∀ around ∈ enclosing, ∀ found ∈ around.locals.tail, found.depth.isSome = true

/-- What a lookup in the functions around has found is led to, whatever is captured later on. -/
theorem leads_of_capture {worded : Prop} {index : Nat} (settled : Settled enclosing)
    (chain : Draft.Chained worded (draft :: enclosing)) (named : worded → name ≠ [])
    (fine : (Compiler.capture name draft enclosing).problems = [])
    (found : (Compiler.capture name draft enclosing).index = some index)
    {captures : Array Capture} {around : List Scope}
    (begins : (Compiler.capture name draft enclosing).draft.body.captures.toList <+: captures.toList)
    (surrounds : List.Forall₂ Surrounds around (Compiler.capture name draft enclosing).enclosing) :
    Leads captures around name index := by
  induction enclosing generalizing draft index captures around with
  | nil => cases found
  | cons outer rest ih =>
    have settledHere := settled outer List.mem_cons_self
    rw [Compiler.capture] at fine found begins surrounds
    dsimp only at fine found begins surrounds
    split at fine
    · next slot local_ here =>
      simp only [here] at found begins surrounds
      obtain ⟨readable, fine⟩ := List.append_eq_nil_iff.mp fine
      have isSet : local_.depth.isSome = true := by
        by_contra unset
        rw [if_pos (by simpa using unset)] at readable
        cases readable
      cases surrounds with
      | cons scope scopes =>
        have marks : outer.Waits (outer.modifyLocal slot fun found =>
            { found with captured := true, shape := found.shape.merge .anything }) :=
          outer.waits_modifyLocal slot fun found => ⟨rfl, rfl, fun _ => rfl⟩
        have place := visible_of_findLocal settledHere here isSet
        obtain ⟨aged, there, captured, _⟩ := captured_modifyLocal settledHere marks place
          (findLocal_go here) fun _ => rfl
        have isSlot := slotOf_found settledHere (scope.earlier marks).names here isSet
        unfold Leads
        rw [isSlot]
        cases found
        exact ⟨getElem?_of_captures begins (addCapture_here fine), scope.marked there captured⟩
    · next elsewhere =>
      simp only [elsewhere] at found begins surrounds
      cases inner : (Compiler.capture name outer rest).index with
      | none =>
        rw [inner] at found
        cases found
      | some between =>
        rw [inner] at fine found begins surrounds
        dsimp only at fine found begins surrounds
        obtain ⟨fineInner, fine⟩ := List.append_eq_nil_iff.mp fine
        have settledRest : Settled rest := fun around member =>
          settled around (List.mem_cons_of_mem _ member)
        have waits := (captured_capture settledRest chain.2.2 named fineInner).draft
        cases surrounds with
        | cons scope scopes =>
          have leads := ih settledRest chain.2.2 fineInner inner scope.captures scopes
          have unknown := slotOf_unknown settledHere (scope.earlier waits).names elsewhere
          unfold Leads
          rw [unknown]
          cases found
          exact ⟨between, getElem?_of_captures begins (addCapture_here fine), leads⟩

/-- What a lookup in the functions around has not found is no local of any of them. -/
theorem unknown_of_capture {worded : Prop} (settled : Settled enclosing)
    (chain : Draft.Chained worded (draft :: enclosing)) (named : worded → name ≠ [])
    (unknown : (Compiler.capture name draft enclosing).index = none) {around : List Scope}
    (surrounds : List.Forall₂ Surrounds around (Compiler.capture name draft enclosing).enclosing) :
    ∀ scope ∈ around, slotOf scope.locals name = none := by
  induction enclosing generalizing draft around with
  | nil =>
    cases surrounds
    simp
  | cons outer rest ih =>
    have settledHere := settled outer List.mem_cons_self
    rw [Compiler.capture] at unknown surrounds
    dsimp only at unknown surrounds
    split at unknown
    · cases unknown
    · next elsewhere =>
      simp only [elsewhere] at surrounds
      cases inner : (Compiler.capture name outer rest).index with
      | some between =>
        rw [inner] at unknown
        cases unknown
      | none =>
        rw [inner] at surrounds
        dsimp only at surrounds
        have settledRest : Settled rest := fun around member =>
          settled around (List.mem_cons_of_mem _ member)
        have waits := (captured_capture settledRest chain.2.2 named
          (problems_of_index_none inner)).draft
        cases surrounds with
        | cons scope scopes =>
          intro other member
          rcases List.mem_cons.mp member with rfl | inside
          · exact slotOf_unknown settledHere (scope.earlier waits).names elsewhere
          · exact ih settledRest chain.2.2 inner scopes other inside

end Captures

section Resolving

variable {state later : State} {name : Text} {place : Place}

/-- What a name stands for, whatever is compiled later on. -/
def Locates (state : State) (name : Text) (place : Place) : Prop :=
  ∀ context, Foretells context state → context.Resolves name place

theorem Locates.grown (locates : Locates state name place) (grows : Grows 0 state later) :
    Locates later name place :=
  fun context foretells => locates context (foretells.same grows)

/-- A name of the current function stands for its slot. -/
theorem does_findsLocal (orderly : Orderly state) (named : name ≠ []) : Does (resolveLocal name) state fun found last =>
    last = state ∧ match found with
      | some slot => Locates state name (.slot slot)
      | none => ∀ context, Foretells context state → slotOf context.locals name = none := by
  have settled := (orderly.each state.draft List.mem_cons_self).settled
  unfold resolveLocal
  refine does_ran rfl ?_
  split
  · next slot found here =>
    unfold checkReadable
    by_cases unset : found.depth.isNone = true
    · rw [if_pos unset]
      exact does_bind (does_error orderly.calm)
    · rw [if_neg unset]
      have readable : found.depth.isSome = true :=
        Option.isSome_iff_ne_none.mpr (by simpa using unset)
      refine does_ran rfl (does_pure ⟨rfl, fun context foretells => ?_⟩)
      exact ⟨named, slotOf_found settled foretells.names here readable⟩
  · next unknown =>
    exact does_pure ⟨rfl, fun context foretells => slotOf_unknown settled foretells.names unknown⟩

/-- What is left behind by a lookup in the functions around. -/
def State.captured (state : State) (name : Text) : State :=
  { state with
    draft := (capture name state.draft state.enclosing).draft
    enclosing := (capture name state.draft state.enclosing).enclosing }

theorem does_captures (calm : Calm state) : Does (resolveUpvalue name) state fun index last =>
    (capture name state.draft state.enclosing).problems = [] ∧
      index = (capture name state.draft state.enclosing).index ∧ last = state.captured name := by
  unfold resolveUpvalue
  refine does_ran rfl (does_ran rfl ?_)
  change Does ((forIn (capture name state.draft state.enclosing).problems PUnit.unit
    fun problem _ => do
      error problem
      pure (ForInStep.yield PUnit.unit)) >>= fun _ =>
        pure (capture name state.draft state.enclosing).index) (state.captured name) _
  have calm : Calm (state.captured name) := calm
  cases problems : (capture name state.draft state.enclosing).problems with
  | cons problem rest =>
    let inv : List Problem → State → Prop := fun list middle => Calm middle ∧ list ≠ []
    have loop : Does (forIn (problem :: rest) PUnit.unit fun problem _ => do
        error problem
        pure (ForInStep.yield PUnit.unit) : Compile PUnit) (state.captured name) fun _ => inv [] :=
      does_for (fun _ _ _ holds => does_error holds.1) _ ⟨calm, by simp⟩
    exact does_bind (loop.mono fun _ _ holds => absurd rfl holds.2)
  | nil => exact does_ran rfl (does_pure ⟨rfl, rfl, rfl⟩)

/-- A name of a function around is led to; another one is of none of them. -/
theorem does_findsUpvalue (orderly : Orderly state) (named : name ≠ [])
    (unknown : ∀ context, Foretells context state → slotOf context.locals name = none) :
    Does (resolveUpvalue name) state fun found last => Comes state last [] ∧
      match found with
      | some index => Locates last name (.upvalue index)
      | none => ∀ context, Foretells context last → slotOf context.locals name = none ∧
        ∀ scope ∈ context.around, slotOf scope.locals name = none := by
  have settled : Settled state.enclosing := fun around member =>
    (orderly.each around (List.mem_cons_of_mem _ member)).settled
  have adds : Does (resolveUpvalue name) state fun _ last => Adds 0 state last [] :=
    does_resolveUpvalue orderly (fun _ => named) fun _ _ adds _ => adds
  refine ((adds.and (does_remains orderly.calm)).and (does_captures orderly.calm)).mono ?_
  rintro found last ⟨⟨adds, remains⟩, fine, rfl, rfl⟩
  refine ⟨remains.comes adds, ?_⟩
  split
  · next index isFound =>
    intro context foretells
    refine ⟨named, unknown context (foretells.same adds.grows), ?_⟩
    exact leads_of_capture settled orderly.captures (fun _ => named) fine isFound foretells.sees.captures
      foretells.around
  · next isUnknown =>
    intro context foretells
    refine ⟨unknown context (foretells.same adds.grows), ?_⟩
    exact unknown_of_capture settled orderly.captures (fun _ => named) isUnknown foretells.around

end Resolving

section Distinct

/-- No function captures a variable twice. -/
def CapturesOnce (state : State) : Prop :=
  ∀ draft ∈ state.drafts, draft.body.captures.toList.Nodup

theorem capturesOnce_capture {name : Text} {draft : Draft} {enclosing : List Draft}
    (distinct : ∀ other ∈ draft :: enclosing, other.body.captures.toList.Nodup) :
    ∀ other ∈ (capture name draft enclosing).draft :: (capture name draft enclosing).enclosing,
      other.body.captures.toList.Nodup := by
  induction enclosing generalizing draft with
  | nil => exact distinct
  | cons outer rest ih =>
    obtain ⟨here, around⟩ := List.forall_mem_cons.mp distinct
    have inner := ih around
    rw [capture]
    dsimp only
    split
    · exact List.forall_mem_cons.mpr ⟨addCapture_distinct here,
        List.forall_mem_cons.mpr (List.forall_mem_cons.mp around)⟩
    · split
      · exact List.forall_mem_cons.mpr ⟨here, inner⟩
      · exact List.forall_mem_cons.mpr ⟨addCapture_distinct here, inner⟩

theorem Change.capturesOnce {before after : State} (change : Change before after)
    (once : CapturesOnce before) : CapturesOnce after := by
  obtain ⟨here, around⟩ := List.forall_mem_cons.mp once
  cases change with
  | body body _ same => exact List.forall_mem_cons.mpr ⟨by rw [same]; exact here, around⟩
  | capture name => exact capturesOnce_capture once
  | enter _ _ captures =>
    exact List.forall_mem_cons.mpr ⟨by rw [captures]; exact .nil, once⟩
  | leave =>
    refine List.forall_mem_cons.mpr ⟨?_, fun other member => around other (List.mem_of_mem_tail member)⟩
    cases enclosing : before.enclosing with
    | nil => exact here
    | cons outer rest => exact around outer (enclosing ▸ List.mem_cons_self)
  | _ => exact List.forall_mem_cons.mpr ⟨here, around⟩

theorem capturesOnce_of_changes {before after : State} (changes : Changes before after)
    (once : CapturesOnce before) : CapturesOnce after := by
  induction changes with
  | refl => exact once
  | tail _ last ih => exact last.capturesOnce ih

end Distinct

end ScriptMachine.Compiler
